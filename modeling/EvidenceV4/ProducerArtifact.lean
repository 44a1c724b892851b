import EvidenceV4.ScalarText

/-!
# The artifact of a producer, read by the gate

The producer refuses a command that prints a line of the shape of its trailer,
writes the two streams and the trailer, and passes an execution whose marker is
in the text. It looks at code units and at the digits of ASCII; the gate looks at
characters and at the digits of every script.
-/

set_option autoImplicit false

namespace EvidenceV4

namespace ProducerArtifact

open CheckerJson (PyString points)
open EvidenceArtifact
open JsonText (CodeUnit isHigh isLow isSurrogate charUnits pairPoint)
open PolicyDocument (mapGet)
open PythonData
open ScalarText

/-- What the host returns of a command. -/
structure ExecResult where
  stdout : JsString
  stderr : JsString
  code : ℤ

section Producer

def units (text : String) : JsString := text.toList.flatMap charUnits

def lineFeed : JsString := units "\n"

def asciiDigit (c : ℕ) : Bool := 48 ≤ c && c ≤ 57

/-- The pattern of each evidence class, as its alternatives. -/
def passMarkers : List (PyString × List String) :=
  [("code-enforced",["--- fv-evidence: exit=0 ---"]),
    ("proof-discharged",
      ["VERIFICATION:- SUCCESSFUL","Build completed successfully","--- fv-evidence: exit=0 ---"]),
    ("bounded-checked",["[ok]","VERIFICATION:- SUCCESSFUL","No violation found"]),
    ("test-witnessed",["test result: ok."]),
    ("conformance-tested",
      ["CONFORMANCE: PASS","CONFORMANCE_TESTED: PASS","test result: ok.",
        "--- fv-evidence: exit=0 ---"]),
    ("externally-assumed",["--- fv-evidence: exit=0 ---"]),
    ("unverified",["--- fv-evidence: exit=0 ---"])]

def trailer (code : ℤ) : JsString :=
  units (("--- fv-evidence: exit=" ++ toString code) ++ " ---")

/-- A stream that does not end its last line is given the end. -/
def terminated (stream : JsString) : JsString :=
  if lineFeed.isSuffixOf stream = true then stream else stream ++ lineFeed

def streams (run : ExecResult) : List JsString :=
  ([run.stdout,run.stderr].filter (fun stream => stream ≠ [])).map terminated

def rawOutput (run : ExecResult) : JsString :=
  (streams run).flatten ++ trailer run.code ++ lineFeed

/-- A line of the stream has the shape of the trailer. -/
def reserved (stream : JsString) : Bool :=
  (pieces (stream.map Fin.val)).any (trailerLine asciiDigit)

def includes (text part : JsString) : Bool := decide (part <:+: text)

def markerMatched (evidenceClass : PyString) (passMarker : Option JsString) (text : JsString) :
    Bool :=
  match passMarker.filter (fun marker => !marker.isEmpty) with
  | some marker => includes text marker
  | none => ((mapGet passMarkers evidenceClass).getD []).any (fun mark => includes text (units mark))

structure Artifact where
  raw : List UInt8
  passed : Bool
  deriving DecidableEq

/-- The artifact of an execution and its result, unless a stream holds a reserved line. -/
def execute (run : ExecResult) (evidenceClass : PyString) (passMarker : Option JsString) :
    Option Artifact :=
  if [run.stdout,run.stderr].any reserved = true then none
  else some ⟨fileBytes (rawOutput run),
    run.code == 0 && markerMatched evidenceClass passMarker (rawOutput run)⟩

/-- The marker as the record states it; an empty one is left out. -/
def statedMarker (passMarker : Option JsString) : PyData :=
  match passMarker.filter (fun marker => !marker.isEmpty) with
  | some marker => .str (unitPoints marker)
  | none => .none

end Producer

section Rewriting

variable {word : ℕ → List ℕ}

/-- A rewriting of letters that keeps every line break and makes none. -/
def KeepsBreaks (word : ℕ → List ℕ) : Prop :=
  ∀ p, (isLineBreak p = true → word p = [p]) ∧
    (isLineBreak p = false → word p ≠ [] ∧ ∀ u ∈ word p, isLineBreak u = false)

theorem linesFrom_solid {us : List ℕ} (solid : ∀ u ∈ us, isLineBreak u = false) (filled : us ≠ [])
    (line rest : List ℕ) (returned : Bool) :
    linesFrom line returned (us ++ rest) = linesFrom (line ++ us) false rest := by
  induction us generalizing line returned with
  | nil => exact absurd rfl filled
  | cons u us ih =>
    obtain ⟨now,later⟩ := List.forall_mem_cons.mp solid
    have feed : (u == 10) = false := by
      cases same : u == 10 with
      | false => rfl
      | true =>
        rw [beq_iff_eq.mp same] at now
        exact absurd now (by decide)
    rw [List.cons_append, linesFrom, feed, Bool.and_false, now]
    cases us with
    | nil => rfl
    | cons v us =>
      have more := ih later (List.cons_ne_nil v us) (line ++ [u]) false
      simpa using more

/-- Lines are rewritten letter by letter. -/
theorem linesFrom_word (keeps : KeepsBreaks word) (text line : List ℕ) (returned : Bool) :
    linesFrom (line.flatMap word) returned (text.flatMap word) =
      (linesFrom line returned text).map (fun line => line.flatMap word) := by
  induction text generalizing line returned with
  | nil => rfl
  | cons p text ih =>
    cases broken : isLineBreak p with
    | true =>
      rw [List.flatMap_cons, (keeps p).1 broken, List.singleton_append, linesFrom, linesFrom]
      by_cases paired : (returned && p == 10) = true
      · rw [if_pos paired, if_pos paired]
        exact ih [] false
      · rw [if_neg paired, if_neg paired, if_pos broken, if_pos broken, List.map_cons]
        exact congrArg _ (ih [] (p == 13))
    | false =>
      obtain ⟨filled,solid⟩ := (keeps p).2 broken
      have feed : (p == 10) = false := by
        cases same : p == 10 with
        | false => rfl
        | true =>
          rw [beq_iff_eq.mp same] at broken
          exact absurd broken (by decide)
      have grown := ih (line ++ [p]) false
      rw [List.flatMap_append, List.flatMap_singleton] at grown
      rw [List.flatMap_cons, linesFrom_solid solid filled, grown, linesFrom, feed, Bool.and_false,
        if_neg Bool.false_ne_true, broken, if_neg Bool.false_ne_true]

theorem pieces_word (keeps : KeepsBreaks word) (text : List ℕ) :
    pieces (text.flatMap word) = (pieces text).map (fun line => line.flatMap word) :=
  linesFrom_word keeps text [] false

end Rewriting

section Units

def unitWord (p : ℕ) : List ℕ :=
  if p < 0x10000 then [p] else [0xd800 + (p - 0x10000)/1024,0xdc00 + (p - 0x10000)%1024]

def scalarWord (p : ℕ) : List ℕ := [scalar p]

theorem unitWord_pair {u l : CodeUnit} (pair : (isHigh u && isLow l) = true) :
    unitWord (pairPoint u l) = [u.val,l.val] := by
  simp only [isHigh, isLow, Bool.and_eq_true, decide_eq_true_eq] at pair
  unfold unitWord pairPoint
  rw [if_neg (by omega), List.cons.injEq, List.cons.injEq]
  refine ⟨?_,?_,rfl⟩
  · omega
  · omega

theorem unitWord_unit (u : CodeUnit) : unitWord u.val = [u.val] := if_pos u.isLt

theorem units_points (s : JsString) : s.map Fin.val = (unitPoints s).flatMap unitWord := by
  induction s using unitPoints.induct with
  | case1 => rfl
  | case2 u => simp [unitPoints, unitWord_unit]
  | case3 u l rest pair ih =>
    rw [unitPoints, if_pos pair, List.flatMap_cons, unitWord_pair pair, ← ih]
    rfl
  | case4 u l rest unpaired ih =>
    rw [unitPoints, if_neg unpaired, List.flatMap_cons, unitWord_unit, ← ih]
    rfl

theorem scalars_points (s : JsString) : scalars s = (unitPoints s).flatMap scalarWord :=
  List.map_eq_flatMap

theorem isLineBreak_plain {p : ℕ} (broken : isLineBreak p = true) :
    p < 0x10000 ∧ isSurrogate p = false := by
  simp only [isLineBreak, Bool.or_eq_true, Bool.and_eq_true, decide_eq_true_eq, beq_iff_eq] at broken
  simp only [isSurrogate, Bool.and_eq_false_iff, decide_eq_false_iff_not, not_le]
  omega

theorem large_solid {p : ℕ} (low : 0xd800 ≤ p) : isLineBreak p = false := by
  simp only [isLineBreak, Bool.or_eq_false_iff, Bool.and_eq_false_iff, decide_eq_false_iff_not,
    beq_eq_false_iff_ne]
  omega

theorem unitWord_keeps : KeepsBreaks unitWord := by
  intro p
  constructor
  · intro broken
    exact if_pos (isLineBreak_plain broken).1
  · intro solid
    unfold unitWord
    by_cases small : p < 0x10000
    · rw [if_pos small]
      exact ⟨List.cons_ne_nil _ _,List.forall_mem_singleton.mpr solid⟩
    · rw [if_neg small]
      refine ⟨List.cons_ne_nil _ _,?_⟩
      simp only [List.forall_mem_cons]
      exact ⟨large_solid (by omega),large_solid (by omega),fun _ none => absurd none List.not_mem_nil⟩

theorem scalarWord_keeps : KeepsBreaks scalarWord := by
  intro p
  unfold scalarWord scalar
  cases half : isSurrogate p with
  | true =>
    constructor
    · intro broken
      rw [(isLineBreak_plain broken).2] at half
      cases half
    · intro _
      have solid : isLineBreak replacement = false := by decide
      exact ⟨List.cons_ne_nil _ _,List.forall_mem_singleton.mpr solid⟩
  | false =>
    constructor
    · intro _
      rfl
    · intro solid
      exact ⟨List.cons_ne_nil _ _,List.forall_mem_singleton.mpr solid⟩

/-- A rewriting of letters that keeps those of ASCII and makes none. -/
def KeepsAscii (word : ℕ → List ℕ) : Prop :=
  ∀ p, (p < 128 → word p = [p]) ∧ (128 ≤ p → ∃ u ∈ word p, 128 ≤ u)

theorem unitWord_ascii : KeepsAscii unitWord := by
  intro p
  unfold unitWord
  constructor
  · intro small
    exact if_pos (by omega)
  · intro large
    by_cases small : p < 0x10000
    · rw [if_pos small]
      exact ⟨p,List.mem_singleton_self p,large⟩
    · rw [if_neg small]
      exact ⟨_,List.mem_cons_self,by omega⟩

theorem scalarWord_ascii : KeepsAscii scalarWord := by
  intro p
  unfold scalarWord scalar
  constructor
  · intro small
    have whole : isSurrogate p = false := by
      simp only [isSurrogate, Bool.and_eq_false_iff, decide_eq_false_iff_not, not_le]
      omega
    rw [whole]
    rfl
  · intro large
    cases isSurrogate p with
    | true => exact ⟨replacement,List.mem_singleton_self _,by decide⟩
    | false => exact ⟨p,List.mem_singleton_self p,large⟩

theorem flatMap_ascii {word : ℕ → List ℕ} (keeps : KeepsAscii word) {line : List ℕ}
    (ascii : (∀ c ∈ line, c < 128) ∨ ∀ u ∈ line.flatMap word, u < 128) :
    line.flatMap word = line := by
  have small : ∀ c ∈ line, c < 128 := by
    rcases ascii with small | small
    · exact small
    · intro c member
      by_contra large
      obtain ⟨u,inside,above⟩ := (keeps c).2 (not_lt.mp large)
      exact absurd (small u (List.mem_flatMap.mpr ⟨c,member,inside⟩)) (not_lt.mpr above)
  clear ascii
  induction line with
  | nil => rfl
  | cons c line ih =>
    obtain ⟨now,later⟩ := List.forall_mem_cons.mp small
    rw [List.flatMap_cons, (keeps c).1 now, ih later]
    rfl

theorem trailerLine_split {digit : ℕ → Bool} {line : List ℕ}
    (shaped : trailerLine digit line = true) : ∃ code : List ℕ,
    line = trailerHead ++ code ++ trailerTail ∧ code ≠ [] ∧ ∀ c ∈ code, digit c = true := by
  simp only [trailerLine, Bool.and_eq_true, beq_iff_eq, Bool.not_eq_true', List.all_eq_true] at shaped
  obtain ⟨⟨same,filled⟩,digits⟩ := shaped
  refine ⟨_,same,?_,digits⟩
  intro none
  rw [none] at filled
  cases filled

theorem trailerLine_ascii {line : List ℕ} (shaped : trailerLine asciiDigit line = true) :
    ∀ c ∈ line, c < 128 := by
  obtain ⟨code,rfl,_,digits⟩ := trailerLine_split shaped
  have head : ∀ c ∈ trailerHead, c < 128 := by decide
  have tail : ∀ c ∈ trailerTail, c < 128 := by decide
  intro c member
  rcases List.mem_append.mp member with member | member
  · rcases List.mem_append.mp member with member | member
    · exact head c member
    · have digit := digits c member
      simp only [asciiDigit, Bool.and_eq_true, decide_eq_true_eq] at digit
      omega
  · exact tail c member

theorem trailerLine_word {word : ℕ → List ℕ} (keeps : KeepsAscii word) (line : List ℕ) :
    trailerLine asciiDigit (line.flatMap word) = trailerLine asciiDigit line := by
  rw [Bool.eq_iff_iff]
  constructor
  · intro shaped
    rwa [flatMap_ascii keeps (.inr (trailerLine_ascii shaped))] at shaped
  · intro shaped
    rwa [flatMap_ascii keeps (.inl (trailerLine_ascii shaped))]

/-- A reserved line is one among the characters that the file keeps. -/
theorem reserved_scalars (stream : JsString) :
    reserved stream = (pieces (scalars stream)).any (trailerLine asciiDigit) := by
  rw [reserved, units_points, scalars_points, pieces_word unitWord_keeps,
    pieces_word scalarWord_keeps, List.any_map, List.any_map]
  congr 1
  ext line
  simp only [Function.comp_apply, trailerLine_word unitWord_ascii, trailerLine_word scalarWord_ascii]

end Units

section Lines

variable {digit : ℕ → Bool}

/-- The trailers of a text. -/
def trailers (digit : ℕ → Bool) (text : List ℕ) : List (List ℕ) :=
  (pieces text).filter (trailerLine digit)

/-- At a line feed the lines behind it start anew, also after a carriage return. -/
theorem linesFrom_feed (x line y : List ℕ) (returned : Bool) (fresh : returned = true → line = []) :
    ∃ before, linesFrom line returned (x ++ 10 :: y) = before ++ pieces y ∧
      (linesFrom line returned x = before ∨ linesFrom line returned x = before ++ [[]]) := by
  induction x generalizing line returned with
  | nil =>
    cases returned with
    | true =>
      obtain rfl := fresh rfl
      exact ⟨[],rfl,.inr rfl⟩
    | false => exact ⟨[line],rfl,.inl rfl⟩
  | cons c x ih =>
    rw [List.cons_append, linesFrom, linesFrom]
    by_cases paired : (returned && c == 10) = true
    · rw [if_pos paired, if_pos paired]
      exact ih [] false (fun _ => rfl)
    · rw [if_neg paired, if_neg paired]
      by_cases broken : isLineBreak c = true
      · rw [if_pos broken, if_pos broken]
        obtain ⟨before,whole,part⟩ := ih [] (c == 13) (fun _ => rfl)
        refine ⟨line :: before,by rw [whole, List.cons_append],?_⟩
        rcases part with part | part
        · exact .inl (by rw [part])
        · exact .inr (by rw [part, List.cons_append])
      · rw [if_neg broken, if_neg broken]
        exact ih (line ++ [c]) false nofun

theorem trailerLine_nil : trailerLine digit [] = false := rfl

/-- Lines are picked before a line feed and behind it. -/
theorem filter_feed {keep : List ℕ → Bool} (empty : keep [] = false) (x y : List ℕ) :
    (pieces (x ++ 10 :: y)).filter keep = (pieces x).filter keep ++ (pieces y).filter keep := by
  obtain ⟨before,whole,part⟩ := linesFrom_feed x [] y false nofun
  have behind : pieces (x ++ 10 :: y) = before ++ pieces y := whole
  rw [behind, List.filter_append]
  congr 1
  rcases part with part | part
  · rw [pieces, part]
  · rw [pieces, part, List.filter_append]
    simp [empty]

theorem trailers_feed (x y : List ℕ) :
    trailers digit (x ++ 10 :: y) = trailers digit x ++ trailers digit y :=
  filter_feed trailerLine_nil x y

theorem lineFeed_points : unitPoints lineFeed = [10] := rfl

theorem apart_feed (a b : JsString) : Apart (a ++ lineFeed) b := by
  intro u last high
  rw [List.getLast?_append] at last
  obtain rfl := (Option.some.inj last).symm
  exact absurd high (by decide)

theorem apart_before_feed (a : JsString) : Apart a lineFeed := by
  intro u _ _ l first
  obtain rfl := (Option.some.inj first).symm
  decide

/-- A stream as it is written ends in a line feed, and has the trailers of the stream. -/
theorem terminated_feed (stream : JsString) : ∃ body, terminated stream = body ++ lineFeed ∧
    trailers digit (scalars body) = trailers digit (scalars stream) := by
  unfold terminated
  by_cases ends : lineFeed.isSuffixOf stream = true
  · rw [if_pos ends]
    obtain ⟨body,rfl⟩ := List.isSuffixOf_iff_suffix.mp ends
    refine ⟨body,rfl,?_⟩
    have written : scalars (body ++ lineFeed) = scalars body ++ 10 :: [] :=
      scalars_append (apart_before_feed body)
    rw [written, trailers_feed]
    simp [trailers, pieces, linesFrom, trailerLine_nil]
  · rw [if_neg ends]
    exact ⟨stream,rfl,rfl⟩

theorem scalars_feed (a b : JsString) : scalars (a ++ lineFeed ++ b) = scalars a ++ 10 :: scalars b := by
  rw [scalars_append (apart_feed a b), scalars_append (apart_before_feed a), List.append_assoc]
  rfl

/-- The streams are written one behind the other, each with its own lines. -/
theorem written_streams (all : List JsString) (b : JsString) :
    ∃ front, (front = [] ∨ ∃ body, front = body ++ [10]) ∧
      scalars ((all.map terminated).flatten ++ b) = front ++ scalars b ∧
      ∀ y, trailers digit (front ++ y) =
        all.flatMap (fun stream => trailers digit (scalars stream)) ++ trailers digit y := by
  induction all with
  | nil => exact ⟨[],.inl rfl,rfl,fun _ => rfl⟩
  | cons stream all ih =>
    obtain ⟨front,shape,written,found⟩ := ih
    obtain ⟨body,ends,same⟩ := @terminated_feed digit stream
    refine ⟨scalars body ++ 10 :: front,.inr ?_,?_,?_⟩
    · rcases shape with rfl | ⟨rest,rfl⟩
      · exact ⟨scalars body,rfl⟩
      · exact ⟨scalars body ++ 10 :: rest,by simp⟩
    · rw [List.map_cons, List.flatten_cons, ends, List.append_assoc, scalars_feed, written]
      simp
    · intro y
      rw [List.append_assoc, List.cons_append, trailers_feed, found, same, List.flatMap_cons,
        List.append_assoc]

end Lines

section Reading

variable {run : ExecResult} {evidenceClass : PyString} {passMarker : Option JsString}

theorem canonical_units : scalars (trailer 0 ++ lineFeed) = canonicalTrailer ++ [10] := by
  decide +kernel

theorem canonical_pieces : pieces (canonicalTrailer ++ [10]) = [canonicalTrailer,[]] := by
  decide +kernel

theorem canonical_trailers : trailers decimal (canonicalTrailer ++ [10]) = [canonicalTrailer] := by
  decide +kernel

/-- Behind text that ends its last line, the canonical trailer is the last line. -/
theorem sealed_front {front : List ℕ} (shape : front = [] ∨ ∃ body, front = body ++ [10]) :
    SealedBy (splitlines (front ++ (canonicalTrailer ++ [10]))) ↔
      trailers decimal (front ++ (canonicalTrailer ++ [10])) = [canonicalTrailer] := by
  have split : ∃ before, pieces (front ++ (canonicalTrailer ++ [10])) =
      before ++ [canonicalTrailer,[]] := by
    rcases shape with rfl | ⟨body,rfl⟩
    · exact ⟨[],canonical_pieces⟩
    · obtain ⟨before,whole,_⟩ := linesFrom_feed body [] (canonicalTrailer ++ [10]) false nofun
      refine ⟨before,?_⟩
      rw [List.append_assoc, List.singleton_append, pieces, whole, canonical_pieces]
  obtain ⟨before,split⟩ := split
  have lines : splitlines (front ++ (canonicalTrailer ++ [10])) = before ++ [canonicalTrailer] := by
    rw [splitlines, split, dropEmptyLast]
    simp
  rw [lines, SealedBy, trailers, split]
  simp [List.filter_append, List.filter_cons, trailerLine_nil]

/-- A stream holds a line that only the gate takes for a trailer. -/
def ForeignTrailer (stream : JsString) : Prop :=
  ∃ line ∈ pieces (scalars stream),
    trailerLine decimal line = true ∧ trailerLine asciiDigit line = false

theorem trailers_nil {stream : JsString} (free : reserved stream = false) :
    trailers decimal (scalars stream) = [] ↔ ¬ ForeignTrailer stream := by
  rw [reserved_scalars, List.any_eq_false] at free
  rw [trailers, List.filter_eq_nil_iff, ForeignTrailer]
  constructor
  · rintro none ⟨line,member,shaped,_⟩
    exact none line member shaped
  · intro native line member shaped
    exact native ⟨line,member,shaped,Bool.not_eq_true _ ▸ free line member⟩

/-- The written artifact is sealed unless a stream holds a foreign trailer. -/
theorem artifact_sealed (success : run.code = 0) (free : ∀ stream ∈ [run.stdout,run.stderr],
      reserved stream = false) :
    SealedBy (splitlines (scalars (rawOutput run))) ↔
      ∀ stream ∈ [run.stdout,run.stderr], ¬ ForeignTrailer stream := by
  obtain ⟨front,shape,written,found⟩ := @written_streams decimal
    ([run.stdout,run.stderr].filter (fun stream => stream ≠ [])) (trailer 0 ++ lineFeed)
  have text : scalars (rawOutput run) = front ++ (canonicalTrailer ++ [10]) := by
    rw [rawOutput, success, List.append_assoc, streams, written, canonical_units]
  rw [text, sealed_front shape, found, canonical_trailers]
  have silent : ∀ stream : JsString, stream = [] → trailers decimal (scalars stream) = [] := by
    rintro _ rfl
    rfl
  constructor
  · intro alone stream member
    rw [← trailers_nil (free stream member)]
    by_cases empty : stream = []
    · exact silent stream empty
    · have nothing := List.append_left_eq_self.mp alone
      rw [List.flatMap_eq_nil_iff] at nothing
      exact nothing stream (List.mem_filter.mpr ⟨member,by simpa using empty⟩)
  · intro native
    apply List.append_left_eq_self.mpr
    rw [List.flatMap_eq_nil_iff]
    intro stream member
    exact (trailers_nil (free stream (List.mem_filter.mp member).1)).mpr
      (native stream (List.mem_filter.mp member).1)

/-- No half of a surrogate pair stands alone in the string. -/
def Whole (s : JsString) : Prop := ∀ p ∈ unitPoints s, isSurrogate p = false

theorem scalars_whole {s : JsString} (whole : Whole s) : scalars s = unitPoints s := by
  apply (List.map_congr_left _).trans (List.map_id _)
  intro p member
  rw [scalar, whole p member]
  rfl

theorem whole_first {l : CodeUnit} {s : JsString} (whole : Whole (l :: s)) : isLow l = false := by
  have single : l.val ∈ unitPoints (l :: s) ∨ isHigh l = true := by
    cases s with
    | nil => exact .inl List.mem_cons_self
    | cons m s =>
      by_cases pair : (isHigh l && isLow m) = true
      · exact .inr (Bool.and_eq_true_iff.mp pair).1
      · rw [unitPoints, if_neg pair]
        exact .inl List.mem_cons_self
  rcases single with member | high
  · have plain := whole l.val member
    simp only [isSurrogate, isLow, Bool.and_eq_false_iff, decide_eq_false_iff_not] at plain ⊢
    omega
  · simp only [isHigh, isLow, Bool.and_eq_true, Bool.and_eq_false_iff, decide_eq_true_eq,
      decide_eq_false_iff_not] at high ⊢
    omega

theorem whole_last {u : CodeUnit} {s : JsString} (whole : Whole (s ++ [u])) : isHigh u = false := by
  by_contra high
  have tall : isHigh u = true := Bool.not_eq_false _ ▸ high
  have apart : Apart s [u] := by
    intro v _ _ l first
    obtain rfl := (Option.some.inj first).symm
    simp only [isHigh, isLow, Bool.and_eq_true, Bool.and_eq_false_iff, decide_eq_true_eq,
      decide_eq_false_iff_not] at tall ⊢
    omega
  have member : u.val ∈ unitPoints (s ++ [u]) := by
    rw [unitPoints_append apart]
    exact List.mem_append_right _ (List.mem_singleton_self _)
  have plain := whole u.val member
  simp only [isSurrogate, isHigh, Bool.and_eq_false_iff, Bool.and_eq_true, decide_eq_true_eq,
    decide_eq_false_iff_not] at plain tall
  omega

theorem apart_whole {a m b : JsString} (whole : Whole m) (filled : m ≠ []) :
    Apart a m ∧ Apart (a ++ m) b := by
  constructor
  · intro u _ _ l first
    cases m with
    | nil => exact absurd rfl filled
    | cons v m =>
      obtain rfl := (Option.some.inj first).symm
      exact whole_first whole
  · intro u last high
    obtain ⟨m,v,rfl⟩ := List.eq_nil_or_concat m |>.resolve_left filled
    rw [List.concat_eq_append] at whole last
    rw [← List.append_assoc, List.getLast?_append] at last
    obtain rfl := (Option.some.inj last).symm
    rw [whole_last whole] at high
    cases high

/-- A marker that was matched is found in the file when no half stands alone in it. -/
theorem includes_found {text marker : JsString} (filled : marker ≠ [])
    (matched : includes text marker = true) :
    occurs (unitPoints marker) (scalars text) = true ↔ Whole marker := by
  rw [includes, decide_eq_true_eq] at matched
  rw [occurs, decide_eq_true_eq]
  constructor
  · intro found p member
    exact (mem_scalars (found.subset member)).2
  · intro whole
    obtain ⟨a,b,rfl⟩ := matched
    obtain ⟨before,after⟩ := @apart_whole a marker b whole filled
    rw [scalars_append after, scalars_append before, scalars_whole whole]
    exact ⟨scalars a,scalars b,rfl⟩

end Reading

section Passing

variable {library : Library} {run : ExecResult} {evidenceClass label : PyString}
  {passMarker : Option JsString} {text : JsString} {artifact : Artifact}

/-- The file and its marker are as readable for the gate as they were for the producer. -/
structure Readable (run : ExecResult) (passMarker : Option JsString) : Prop where
  streams : ∀ stream ∈ [run.stdout,run.stderr], ¬ ForeignTrailer stream
  marker : ∀ marker ∈ passMarker, Whole marker

theorem unitPoints_filled {s : JsString} (filled : s ≠ []) : unitPoints s ≠ [] := by
  intro none
  have written := units_points s
  rw [none] at written
  exact filled (List.map_eq_nil_iff.mp written)

/-- The marks of the producer are characters of ASCII. -/
theorem marks_ascii : ∀ entry ∈ passMarkers, ∀ mark ∈ entry.2,
    units mark ≠ [] ∧ Whole (units mark) ∧ unitPoints (units mark) = points mark := by
  unfold Whole
  decide +kernel

/-- Each mark of the producer is one of the gate for the same class. -/
theorem marks_shared : ∀ entry ∈ passMarkers, ∃ marks,
    mapGet EvidenceArtifact.passMarkers entry.1 = some marks ∧
      ∀ mark ∈ entry.2, points mark ∈ marks := by
  decide +kernel

theorem class_marker_found
    (matched : ((mapGet passMarkers evidenceClass).getD []).any
      (fun mark => includes text (units mark)) = true) :
    markerDefects library (scalars text) (.str evidenceClass) .none label = [] := by
  rcases Option.eq_none_or_eq_some (mapGet passMarkers evidenceClass) with found | ⟨marks,found⟩
  · simp [found] at matched
  rw [found, Option.getD_some, List.any_eq_true] at matched
  obtain ⟨mark,member,matched⟩ := matched
  have entry := PolicyDocument.mapGet_mem found
  obtain ⟨filled,whole,same⟩ := marks_ascii _ entry mark member
  obtain ⟨marks',known,shared⟩ := marks_shared _ entry
  have occurs' := (includes_found filled matched).mpr whole
  rw [same] at occurs'
  have classed : (textOf (.str evidenceClass)).bind (mapGet EvidenceArtifact.passMarkers) =
      some marks' := known
  have unmarked : (textOf .none).filter (fun marker => !marker.isEmpty) = none := rfl
  simp only [markerDefects, unmarked, classed, Findings.finding_nil, List.any_eq_true]
  exact ⟨_,shared mark member,occurs'⟩

/-- A marker that the producer matched is found by the gate when it is whole. -/
theorem marker_found (matched : markerMatched evidenceClass passMarker text = true) :
    markerDefects library (scalars text) (.str evidenceClass) (statedMarker passMarker) label = [] ↔
      ∀ marker ∈ passMarker, Whole marker := by
  unfold markerMatched at matched
  unfold statedMarker
  have empty : Whole [] := fun _ member => absurd member List.not_mem_nil
  cases passMarker with
  | none =>
    exact iff_of_true (class_marker_found matched) nofun
  | some marker =>
    cases marker with
    | nil =>
      apply iff_of_true (class_marker_found matched)
      rintro _ ⟨⟩
      exact empty
    | cons u us =>
      have filled : u :: us ≠ [] := List.cons_ne_nil _ _
      have stated : (textOf (.str (unitPoints (u :: us)))).filter (fun marker => !marker.isEmpty) =
          some (unitPoints (u :: us)) := by
        simp [textOf, Option.filter, unitPoints_filled filled]
      have given : (some (u :: us)).filter (fun marker : JsString => !marker.isEmpty) =
          some (u :: us) := rfl
      simp only [given] at matched ⊢
      simp only [markerDefects, stated, Findings.finding_nil, includes_found filled matched,
        Option.mem_def, Option.some.injEq, forall_eq']

theorem execute_passed (written : execute run evidenceClass passMarker = some artifact)
    (passed : artifact.passed = true) :
    (∀ stream ∈ [run.stdout,run.stderr], reserved stream = false) ∧ run.code = 0 ∧
      markerMatched evidenceClass passMarker (rawOutput run) = true ∧
      artifact.raw = fileBytes (rawOutput run) := by
  unfold execute at written
  by_cases refused : [run.stdout,run.stderr].any reserved = true
  · rw [if_pos refused] at written
    cases written
  · rw [if_neg refused] at written
    obtain rfl := Option.some.inj written
    obtain ⟨success,matched⟩ := Bool.and_eq_true_iff.mp passed
    rw [Bool.not_eq_true, List.any_eq_false] at refused
    exact ⟨fun stream member => Bool.not_eq_true _ ▸ refused stream member,beq_iff_eq.mp success,
      matched,rfl⟩

/-- An artifact that the producer passes has no defect for the gate exactly when no line of a
stream is a trailer in the digits of another script and no half of a surrogate pair stands
alone in the marker. -/
theorem passed_artifact_clean_iff (library : Library) (run : ExecResult) (evidenceClass : PyString)
    (passMarker : Option JsString) (artifact : Artifact) (label : PyString)
    (written : execute run evidenceClass passMarker = some artifact)
    (passed : artifact.passed = true) :
    passArtifactDefects library (decode artifact.raw) (.str evidenceClass)
      (statedMarker passMarker) label = [] ↔ Readable run passMarker := by
  obtain ⟨free,success,matched,raw⟩ := execute_passed written passed
  have text : decode artifact.raw = scalars (rawOutput run) := by
    rw [raw]
    exact decode_encode (fun p member => mem_scalars member)
  rw [text, passArtifactDefects]
  by_cases closed : SealedBy (splitlines (scalars (rawOutput run)))
  · rw [if_pos closed, marker_found matched]
    exact ⟨fun whole => ⟨(artifact_sealed success free).mp closed,whole⟩,fun readable => readable.marker⟩
  · rw [if_neg closed]
    apply iff_of_false (List.cons_ne_nil _ _)
    intro readable
    exact closed ((artifact_sealed success free).mpr readable.streams)

theorem passed_artifact_sample : Readable ⟨units "ok",[],0⟩ none := by
  have ran : execute ⟨units "ok",[],0⟩ "code-enforced" none =
      some ⟨fileBytes (rawOutput ⟨units "ok",[],0⟩),true⟩ := by
    decide +kernel
  apply (passed_artifact_clean_iff ⟨fun _ => [],fun _ => none,fun _ => []⟩ _ _ _ _ [] ran rfl).mp
  decide +kernel

/-- A stream with a trailer in Arabic digits passes at the producer and has a defect at the gate. -/
theorem arabic_trailer_rejected :
    ¬ ∀ (library : Library) (run : ExecResult) (evidenceClass : PyString)
        (passMarker : Option JsString) (artifact : Artifact) (label : PyString),
      execute run evidenceClass passMarker = some artifact → artifact.passed = true →
      passArtifactDefects library (decode artifact.raw) (.str evidenceClass)
        (statedMarker passMarker) label = [] := by
  intro clean
  have ran : execute ⟨units "--- fv-evidence: exit=\u0663 ---",[],0⟩ "code-enforced" none =
      some ⟨fileBytes (rawOutput ⟨units "--- fv-evidence: exit=\u0663 ---",[],0⟩),true⟩ := by
    decide +kernel
  have none := clean ⟨fun _ => [],fun _ => none,fun _ => []⟩ _ _ _ _ [] ran rfl
  exact absurd none (by decide +kernel)

end Passing

end ProducerArtifact

end EvidenceV4
