import EvidenceV4.CanonicalRoundTrip
import EvidenceV4.ExpansionMembers
import EvidenceV4.ProducerArtifact
import EvidenceV4.StoreDocument

/-!
# The raw log of an execution

The store writes the standard output and the standard error of an execution one
behind the other, each ended by a line feed, and ends the log with a line that
states how the process ended. A stream may not hold a line of that form. The
checker rebuilds the log and splits it again. The strings of the producer are
code units, those of the checker are code points.
-/

set_option autoImplicit false

namespace EvidenceV4

namespace RawLog

open CanonicalJson (decodeUTF8)
open CheckedExcept
open CheckerJson (PyString points)
open EvidenceArtifact (isLineBreak linesFrom pieces splitlines dropEmptyLast)
open JsonText (charUnits)
open ProducerArtifact (filter_feed flatMap_ascii linesFrom_solid pieces_word unitWord
  unitWord_ascii unitWord_keeps)

section Log

def feed : UInt8 := 10

def encode (text : List Char) : List UInt8 := text.flatMap String.utf8EncodeChar

def Ended (t : Termination) : Prop :=
  t.exitCode ≠ none ∧ t.signal = none ∧ t.timedOut = false ∧ t.cancelled = false

instance (t : Termination) : Decidable (Ended t) := inferInstanceAs (Decidable (_ ∧ _))

def resultName : Result → List Char
  | .pass => "PASS".toList
  | .fail => "FAIL".toList
  | .error => "ERROR".toList
  | .cancelled => "CANCELLED".toList

def exitLine (code : ℤ) : List Char :=
  "--- fv-evidence: exit=".toList ++ (toString code).toList ++ " ---".toList

def resultLine (result : Result) : List Char :=
  "--- fv-evidence-v4: result=".toList ++ resultName result ++ " ---".toList

def statusLine (t : Termination) (result : Result) : List Char :=
  if Ended t then exitLine (t.exitCode.getD 0) else resultLine result

def normalized (stream : List UInt8) : List UInt8 :=
  if stream ≠ [] ∧ stream.getLast? ≠ some feed then stream ++ [feed] else stream

/-- The producer's log. -/
def reconstructRawOutput (stdout stderr : List UInt8) (t : Termination) (result : Result) :
    Except String (List UInt8) := do
  check (¬ Ended t → result = .error ∨ result = .cancelled)
    "abnormal termination has normal result"
  pure (normalized stdout ++ normalized stderr ++ encode (statusLine t result ++ ['\n']))

/-- The checker's `_raw`. -/
def raw (stdout stderr : List UInt8) (t : Termination) (result : Result) :
    Except String (List UInt8) :=
  let data := ([stdout,stderr].filter (· ≠ [])).flatMap (fun stream =>
    stream ++ (if [feed].isSuffixOf stream then [] else [feed]))
  if Ended t then pure (data ++ encode (exitLine (t.exitCode.getD 0) ++ ['\n']))
  else do
    check (result = .error ∨ result = .cancelled) "abnormal termination has normal result"
    pure (data ++ encode (resultLine result ++ ['\n']))

end Log

section Reserved

def heads : List (List ℕ) :=
  [points "--- fv-evidence: exit=",points "--- fv-evidence: result=",
    points "--- fv-evidence-v4: exit=",points "--- fv-evidence-v4: result="]

def tail : List ℕ := points " ---"

/-- The pattern of a reserved line, where a dot stands for the given characters. -/
def reservedLine (dot : ℕ → Bool) (line : List ℕ) : Bool :=
  heads.any (fun head =>
    let middle := (line.drop head.length).take (line.length - head.length - tail.length)
    line == head ++ middle ++ tail && middle.all dot)

/-- A dot of the producer's pattern. -/
def producerDot (u : ℕ) : Bool := !([10,13,0x2028,0x2029].contains u)

/-- A dot of the checker's pattern. -/
def checkerDot (c : ℕ) : Bool := c != 10

/-- The producer splits code units at its line pattern. -/
def producerLines (text : List Char) : List (List ℕ) := pieces ((text.flatMap charUnits).map Fin.val)

def checkerLines (text : List Char) : List (List ℕ) := splitlines (text.map Char.toNat)

def producerReserved (text : List Char) : Bool :=
  (producerLines text).any (reservedLine producerDot)

def checkerReserved (text : List Char) : Bool :=
  (checkerLines text).any (reservedLine checkerDot)

/-- The streams decode and hold no reserved line, as the producer decides it. -/
def producerValid (stdout stderr : List UInt8) : Bool :=
  match decodeUTF8 stdout with
  | .error _ => false
  | .ok first =>
    match decodeUTF8 stderr with
    | .error _ => false
    | .ok second => !(producerReserved first || producerReserved second)

/-- The same for the checker, which also decodes the log. -/
def checkerValid (stdout stderr raw : List UInt8) : Bool :=
  match decodeUTF8 stdout with
  | .error _ => false
  | .ok first =>
    match decodeUTF8 stderr with
    | .error _ => false
    | .ok second =>
      match decodeUTF8 raw with
      | .error _ => false
      | .ok _ => !(checkerReserved first || checkerReserved second)

end Reserved

section Bytes

theorem decodeUTF8_ok {bytes : List UInt8} {text : List Char} :
    decodeUTF8 bytes = .ok text ↔ bytes = encode text := by
  have written : ∀ t : List Char, encode t = Schema.utf8Bytes (String.ofList t) := fun t =>
    (Utf8Order.utf8Bytes_ofList t).symm
  constructor
  · intro decoded
    unfold decodeUTF8 at decoded
    split at decoded
    · rename_i value found
      rw [pure_ok] at decoded
      unfold String.fromUTF8? at found
      split at found
      · rename_i valid
        have value' := Option.some.inj found
        rw [written, ← decoded, String.ofList_toList, ← value']
        rfl
      · cases found
    · exact absurd decoded (by simp)
  · rintro rfl
    rw [written]
    exact CanonicalRoundTrip.decodeUTF8_bytes text

theorem encode_append (a b : List Char) : encode (a ++ b) = encode a ++ encode b :=
  List.flatMap_append

theorem encode_feed : encode ['\n'] = [feed] := by decide

theorem last_byte (c : Char) : ∃ front b, String.utf8EncodeChar c = front ++ [b] ∧
    (b = feed ↔ c = '\n') := by
  by_cases small : c.toNat < 128
  · refine ⟨[],_,ExpansionMembers.ascii_utf8 small,?_⟩
    constructor
    · intro same
      have code := congrArg UInt8.toNat same
      have value : c.val.toUInt8.toNat = c.toNat % 256 := UInt32.toNat_toUInt8 c.val
      rw [value, Nat.mod_eq_of_lt (by omega)] at code
      apply Char.ext
      apply UInt32.toNat_inj.mp
      exact code
    · rintro rfl
      rfl
  · have large : ∀ x : UInt8, x ||| 0x80 ≠ feed := by
      intro x same
      have code := congrArg UInt8.toNat same
      rw [UInt8.toNat_or] at code
      have bound : 128 ≤ x.toNat ||| (0x80 : UInt8).toNat := Nat.right_le_or
      rw [code] at bound
      exact absurd bound (by decide)
    have other : c ≠ '\n' := by
      rintro rfl
      exact small (by decide)
    have wide : ¬ c.val ≤ 0x7f := by
      rw [UInt32.le_iff_toNat_le]
      show ¬ c.toNat ≤ 127
      omega
    rw [String.utf8EncodeChar_eq_utf8EncodeCharFast]
    unfold String.utf8EncodeCharFast
    dsimp only
    rw [if_neg wide]
    split_ifs
    · exact ⟨[_],_,rfl,iff_of_false (large _) other⟩
    · exact ⟨[_,_],_,rfl,iff_of_false (large _) other⟩
    · exact ⟨[_,_,_],_,rfl,iff_of_false (large _) other⟩

theorem encode_nil {text : List Char} : encode text = [] ↔ text = [] := by
  constructor
  · intro empty
    cases text with
    | nil => rfl
    | cons c text =>
      obtain ⟨front,b,whole,-⟩ := last_byte c
      rw [encode, List.flatMap_cons, whole] at empty
      simp at empty
  · rintro rfl
    rfl

theorem encode_last (text : List Char) :
    (encode text).getLast? = some feed ↔ text.getLast? = some '\n' := by
  cases text using List.reverseRecOn with
  | nil => decide
  | append_singleton text c =>
    obtain ⟨front,b,whole,same⟩ := last_byte c
    have single : encode [c] = front ++ [b] := by rw [← whole]; simp [encode]
    rw [encode_append, single, ← List.append_assoc, List.getLast?_concat, List.getLast?_concat,
      Option.some.injEq, Option.some.injEq]
    exact same

/-- A text with its last line ended. -/
def closed (text : List Char) : List Char :=
  if text ≠ [] ∧ text.getLast? ≠ some '\n' then text ++ ['\n'] else text

theorem normalized_encode (text : List Char) : normalized (encode text) = encode (closed text) := by
  unfold normalized closed
  simp only [ne_eq, encode_nil, encode_last]
  split_ifs
  · rw [encode_append, encode_feed]
  · rfl

/-- Both sides write the same bytes, or refuse with the same message. -/
theorem raw_agrees (stdout stderr : List UInt8) (t : Termination) (result : Result) :
    raw stdout stderr t result = reconstructRawOutput stdout stderr t result := by
  have piece : ∀ stream : List UInt8, ([stream].filter (· ≠ [])).flatMap (fun stream =>
      stream ++ (if [feed].isSuffixOf stream then [] else [feed])) = normalized stream := by
    intro stream
    unfold normalized
    by_cases empty : stream = []
    · rw [empty]
      rfl
    · have kept : [stream].filter (· ≠ []) = [stream] :=
        List.filter_cons_of_pos (decide_eq_true empty)
      rw [kept, List.flatMap_singleton]
      have ends : [feed].isSuffixOf stream = true ↔ stream.getLast? = some feed := by
        rw [List.isSuffixOf_iff_suffix, List.getLast?_eq_some_iff]
        exact ⟨fun ⟨front,whole⟩ => ⟨front,whole.symm⟩,fun ⟨front,whole⟩ => ⟨front,whole.symm⟩⟩
      by_cases last : stream.getLast? = some feed
      · rw [if_pos (ends.mpr last), if_neg (fun open' => open'.2 last), List.append_nil]
      · rw [if_neg (fun suffix => last (ends.mp suffix)), if_pos ⟨empty,last⟩]
  have data : ([stdout,stderr].filter (· ≠ [])).flatMap (fun stream =>
      stream ++ (if [feed].isSuffixOf stream then [] else [feed])) =
        normalized stdout ++ normalized stderr := by
    rw [← piece stdout, ← piece stderr, ← List.flatMap_append, ← List.filter_append]
    rfl
  unfold raw reconstructRawOutput
  rw [data]
  by_cases ended : Ended t
  · have free : ¬ Ended t → result = .error ∨ result = .cancelled := fun out => absurd ended out
    rw [if_pos ended, check_of _ _ free, statusLine, if_pos ended]
    rfl
  · rw [if_neg ended, statusLine, if_neg ended]
    by_cases allowed : result = .error ∨ result = .cancelled
    · rw [check_of _ _ allowed, check_of _ _ (fun _ => allowed)]
    · have refused : ¬ (¬ Ended t → result = .error ∨ result = .cancelled) :=
        fun free => allowed (free ended)
      unfold check
      rw [if_neg allowed, if_neg refused]

end Bytes

section Agreement

theorem charUnits_word (c : Char) : (charUnits c).map Fin.val = unitWord c.toNat := by
  unfold charUnits unitWord
  by_cases small : c.toNat < 0x10000
  · rw [if_pos small, if_pos small]
    show [c.toNat % 65536] = [c.toNat]
    rw [Nat.mod_eq_of_lt small]
  · rw [if_neg small, if_neg small]
    have bound : c.toNat < 0x110000 := by
      rcases c.valid with low | ⟨_,high⟩
      · exact lt_trans low (by decide)
      · exact high
    show [(0xd800 + (c.toNat - 0x10000)/1024) % 65536,(0xdc00 + (c.toNat - 0x10000)%1024) % 65536] = _
    rw [Nat.mod_eq_of_lt (by omega), Nat.mod_eq_of_lt (by omega)]

theorem units_word (text : List Char) :
    (text.flatMap charUnits).map Fin.val = (text.map Char.toNat).flatMap unitWord := by
  rw [List.map_flatMap, List.flatMap_map]
  congr 1
  ext c
  rw [charUnits_word]

theorem producerLines_word (text : List Char) :
    producerLines text = (pieces (text.map Char.toNat)).map (fun line => line.flatMap unitWord) := by
  rw [producerLines, units_word, pieces_word unitWord_keeps]

theorem linesFrom_solid_lines (text line : List ℕ) (returned : Bool)
    (solid : ∀ c ∈ line, isLineBreak c = false) :
    ∀ found ∈ linesFrom line returned text, ∀ c ∈ found, isLineBreak c = false := by
  induction text generalizing line returned with
  | nil =>
    intro found member
    rw [List.mem_singleton.mp member]
    exact solid
  | cons p text ih =>
    have none : ∀ c ∈ ([] : List ℕ), isLineBreak c = false := fun c inside =>
      absurd inside List.not_mem_nil
    rw [linesFrom]
    by_cases paired : (returned && p == 10) = true
    · rw [if_pos paired]
      exact ih [] false none
    · rw [if_neg paired]
      by_cases broken : isLineBreak p = true
      · rw [if_pos broken]
        exact List.forall_mem_cons.mpr ⟨solid,ih [] (p == 13) none⟩
      · rw [if_neg broken]
        apply ih (line ++ [p]) false
        intro c inside
        rcases List.mem_append.mp inside with inside | inside
        · exact solid c inside
        · rw [List.mem_singleton.mp inside]
          exact Bool.eq_false_iff.mpr broken

/-- A line holds no line break. -/
theorem pieces_solid {text line : List ℕ} (member : line ∈ pieces text) :
    ∀ c ∈ line, isLineBreak c = false :=
  linesFrom_solid_lines text [] false (fun _ inside => absurd inside List.not_mem_nil) line member

theorem reservedLine_iff {dot : ℕ → Bool} {line : List ℕ} : reservedLine dot line = true ↔
    ∃ head ∈ heads, ∃ middle : List ℕ, line = head ++ middle ++ tail ∧ ∀ c ∈ middle, dot c = true := by
  simp only [reservedLine, List.any_eq_true, Bool.and_eq_true, beq_iff_eq, List.all_eq_true]
  constructor
  · rintro ⟨head,known,same,dots⟩
    exact ⟨head,known,_,same,dots⟩
  · rintro ⟨head,known,middle,rfl,dots⟩
    have cut : ((head ++ middle ++ tail).drop head.length).take
        ((head ++ middle ++ tail).length - head.length - tail.length) = middle := by
      rw [List.append_assoc, List.drop_left, List.length_append, List.length_append]
      apply List.take_left'
      omega
    refine ⟨head,known,?_⟩
    rw [cut]
    exact ⟨rfl,dots⟩

theorem unitWord_large {p : ℕ} (large : 128 ≤ p) : ∀ u ∈ unitWord p, 128 ≤ u := by
  unfold unitWord
  split_ifs
  · exact List.forall_mem_singleton.mpr large
  · simp only [List.forall_mem_cons]
    exact ⟨by omega,by omega,fun _ none => absurd none List.not_mem_nil⟩

theorem unitWord_filled (p : ℕ) : unitWord p ≠ [] := by
  unfold unitWord
  split_ifs
  · exact List.cons_ne_nil _ _
  · exact List.cons_ne_nil _ _

theorem unitWord_small {p : ℕ} (small : p < 128) : unitWord p = [p] := if_pos (by omega)

theorem head_word {head : List ℕ} (ascii : ∀ c ∈ head, c < 128) {line rest : List ℕ}
    (same : line.flatMap unitWord = head ++ rest) :
    ∃ body : List ℕ, line = head ++ body ∧ body.flatMap unitWord = rest := by
  induction head generalizing line with
  | nil => exact ⟨line,rfl,same⟩
  | cons c head ih =>
    obtain ⟨now,later⟩ := List.forall_mem_cons.mp ascii
    cases line with
    | nil => simp at same
    | cons p line =>
      rw [List.flatMap_cons, List.cons_append] at same
      have small : p < 128 := by
        by_contra large
        have above := unitWord_large (not_lt.mp large)
        cases written : unitWord p with
        | nil => exact absurd written (unitWord_filled p)
        | cons u us =>
          rw [written, List.cons_append] at same
          have first := (List.cons.inj same).1
          have wide := above u (written ▸ List.mem_cons_self)
          omega
      rw [unitWord_small small, List.singleton_append] at same
      obtain ⟨rfl,below⟩ := List.cons.inj same
      obtain ⟨body,rfl,left⟩ := ih later below
      exact ⟨body,rfl,left⟩

theorem tail_word {tail : List ℕ} (ascii : ∀ c ∈ tail, c < 128) {line rest : List ℕ}
    (same : line.flatMap unitWord = rest ++ tail) :
    ∃ body : List ℕ, line = body ++ tail ∧ body.flatMap unitWord = rest := by
  induction tail using List.reverseRecOn generalizing line with
  | nil => exact ⟨line,(List.append_nil line).symm,by rw [same, List.append_nil]⟩
  | append_singleton tail c ih =>
    have earlier : ∀ c ∈ tail, c < 128 := fun d inside => ascii d (List.mem_append_left _ inside)
    have now : c < 128 := ascii c (List.mem_append_right _ (List.mem_singleton_self c))
    cases line using List.reverseRecOn with
    | nil => simp at same
    | append_singleton line p =>
      rw [List.flatMap_append, List.flatMap_singleton, ← List.append_assoc] at same
      have small : p < 128 := by
        by_contra large
        have above := unitWord_large (not_lt.mp large)
        have last := congrArg List.getLast? same
        rw [List.getLast?_append_of_ne_nil _ (unitWord_filled p), List.getLast?_concat] at last
        have wide := above c (List.mem_of_getLast? last)
        omega
      rw [unitWord_small small] at same
      obtain ⟨before,letter⟩ := List.append_inj' same rfl
      obtain ⟨body,rfl,left⟩ := ih earlier before
      rw [letter]
      exact ⟨body,List.append_assoc body tail _,left⟩

theorem heads_ascii : ∀ head ∈ heads, ∀ c ∈ head, c < 128 := by decide

theorem tail_ascii : ∀ c ∈ tail, c < 128 := by decide

/-- On a line the two patterns agree. -/
theorem reservedLine_word {line : List ℕ} (solid : ∀ c ∈ line, isLineBreak c = false) :
    reservedLine producerDot (line.flatMap unitWord) = reservedLine checkerDot line := by
  rw [Bool.eq_iff_iff, reservedLine_iff, reservedLine_iff]
  constructor
  · rintro ⟨head,known,middle,same,_⟩
    rw [List.append_assoc] at same
    obtain ⟨body,rfl,rest⟩ := head_word (heads_ascii head known) same
    obtain ⟨middle,rfl,_⟩ := tail_word tail_ascii rest
    refine ⟨head,known,middle,by rw [List.append_assoc],?_⟩
    intro c inside
    have plain := solid c (List.mem_append_right _ (List.mem_append_left _ inside))
    apply bne_iff_ne.mpr
    rintro rfl
    exact absurd plain (by decide)
  · rintro ⟨head,known,middle,rfl,_⟩
    have kept := flatMap_ascii unitWord_ascii (.inl (heads_ascii head known))
    have ended := flatMap_ascii unitWord_ascii (.inl tail_ascii)
    refine ⟨head,known,middle.flatMap unitWord,?_,?_⟩
    · rw [List.flatMap_append, List.flatMap_append, kept, ended]
    · intro u inside
      obtain ⟨c,member,inside⟩ := List.mem_flatMap.mp inside
      have plain := solid c (List.mem_append_left _ (List.mem_append_right _ member))
      have solid' := ((unitWord_keeps c).2 plain).2 u inside
      unfold producerDot
      rw [Bool.not_eq_true']
      cases found : ([10,13,0x2028,0x2029] : List ℕ).contains u with
      | false => rfl
      | true =>
        have broken : ∀ u ∈ ([10,13,0x2028,0x2029] : List ℕ), isLineBreak u = true := by decide
        rw [broken u (List.contains_iff_mem.mp found)] at solid'
        cases solid'

theorem reservedLine_nil (dot : ℕ → Bool) : reservedLine dot [] = false := rfl

theorem filter_dropEmptyLast {keep : List ℕ → Bool} (empty : keep [] = false)
    (lines : List (List ℕ)) : (dropEmptyLast lines).filter keep = lines.filter keep := by
  unfold dropEmptyLast
  split_ifs with ends
  · obtain ⟨front,rfl⟩ := List.getLast?_eq_some_iff.mp ends
    simp [empty]
  · rfl

/-- The lines that the two sides pick from a text are the same lines. -/
theorem producer_filter (text : List Char) :
    (producerLines text).filter (reservedLine producerDot) =
      ((checkerLines text).filter (reservedLine checkerDot)).map
        (fun line => line.flatMap unitWord) := by
  rw [checkerLines, splitlines, filter_dropEmptyLast (reservedLine_nil _), producerLines_word,
    List.filter_map]
  congr 1
  apply List.filter_congr
  intro line member
  exact reservedLine_word (pieces_solid member)

theorem reserved_agrees (text : List Char) : producerReserved text = checkerReserved text := by
  have filled : ∀ (lines : List (List ℕ)) (keep : List ℕ → Bool),
      lines.any keep = !(lines.filter keep).isEmpty := by
    intro lines keep
    rw [Bool.eq_iff_iff, List.any_eq_true, Bool.not_eq_true', List.isEmpty_eq_false_iff_exists_mem]
    simp only [List.mem_filter]
  rw [producerReserved, checkerReserved, filled, filled, producer_filter, List.isEmpty_map]

end Agreement

section Sealing

def statusPoints (t : Termination) (result : Result) : List ℕ := (statusLine t result).map Char.toNat

def filled (line : List ℕ) : Bool := !line.isEmpty

/-- One line is reserved, it is the last that is not empty, and it states the end of the process. -/
structure Sealed (dot : ℕ → Bool) (lines : List (List ℕ)) (t : Termination) (result : Result) :
    Prop where
  one : lines.filter (reservedLine dot) = [statusPoints t result]
  last : (lines.filter filled).getLast? = some (statusPoints t result)

/-- What a status line states can be read back from it. -/
structure Telling (t : Termination) (result : Result) : Prop where
  ended : Ended t → ∃ code, t.exitCode = some code ∧ statusLine t result = exitLine code
  broken : ¬ Ended t → (result = .error ∨ result = .cancelled) ∧
    statusLine t result = resultLine result
  readable : ∀ t' result', statusLine t' result' = statusLine t result →
    (Ended t' ↔ Ended t) ∧ (Ended t → t'.exitCode = t.exitCode) ∧ (¬ Ended t → result' = result)

theorem number_ascii (n : ℤ) : ∀ c ∈ (toString n).toList, c = '-' ∨ JsonText.isDigit c := by
  cases n with
  | ofNat m =>
    rw [CanonicalRoundTrip.toString_ofNat]
    exact fun c inside => .inr (CanonicalRoundTrip.isDigit_toDigits inside)
  | negSucc m =>
    rw [CanonicalRoundTrip.toString_negSucc]
    intro c inside
    rcases List.mem_cons.mp inside with same | inside
    · exact .inl same
    · exact .inr (CanonicalRoundTrip.isDigit_toDigits inside)

/-- A character of a status line. -/
def Printed (c : Char) : Prop := 32 ≤ c.toNat ∧ c.toNat < 127

instance (c : Char) : Decidable (Printed c) := inferInstanceAs (Decidable (_ ∧ _))

theorem number_printed (n : ℤ) : ∀ c ∈ (toString n).toList, Printed c := by
  intro c inside
  rcases number_ascii n c inside with rfl | digit
  · decide
  · have bounds : 48 ≤ c.toNat ∧ c.toNat ≤ 57 := by
      simpa [JsonText.isDigit, Char.le_def, UInt32.le_iff_toNat_le] using digit
    unfold Printed
    omega

theorem statusTexts_printed : ∀ text ∈ ["--- fv-evidence: exit=".toList,
    "--- fv-evidence-v4: result=".toList," ---".toList,resultName .pass,resultName .fail,
    resultName .error,resultName .cancelled], text.all (fun c => decide (Printed c)) = true := by
  decide +kernel

theorem printed_of_all {text : List Char} (all : text.all (fun c => decide (Printed c)) = true) :
    ∀ c ∈ text, Printed c :=
  fun c inside => of_decide_eq_true (List.all_eq_true.mp all c inside)

theorem resultName_printed (result : Result) : ∀ c ∈ resultName result, Printed c := by
  apply printed_of_all
  apply statusTexts_printed
  cases result <;> simp

theorem statusLine_printed (t : Termination) (result : Result) :
    ∀ c ∈ statusLine t result, Printed c := by
  unfold statusLine exitLine resultLine
  have head := printed_of_all (statusTexts_printed _ List.mem_cons_self)
  have other := printed_of_all (statusTexts_printed _ (List.mem_cons_of_mem _ List.mem_cons_self))
  have end' := printed_of_all (statusTexts_printed " ---".toList (by simp))
  have name := resultName_printed result
  split_ifs
  · exact List.forall_mem_append.mpr
      ⟨List.forall_mem_append.mpr ⟨head,number_printed _⟩,end'⟩
  · exact List.forall_mem_append.mpr ⟨List.forall_mem_append.mpr ⟨other,name⟩,end'⟩

theorem exitLine_injective {a b : ℤ} (same : exitLine a = exitLine b) : a = b := by
  have digits := List.append_cancel_left (List.append_cancel_right same)
  rw [← CanonicalRoundTrip.tokenValue_toString a, digits, CanonicalRoundTrip.tokenValue_toString]

theorem resultLine_injective {a b : Result} (same : resultLine a = resultLine b) : a = b := by
  have names := List.append_cancel_left (List.append_cancel_right same)
  cases a <;> cases b <;> first | rfl | exact absurd names (by decide)

theorem exitLine_ne_resultLine (code : ℤ) (result : Result) : exitLine code ≠ resultLine result := by
  intro same
  have front := congrArg (List.take 16) same
  unfold exitLine resultLine at front
  rw [List.append_assoc, List.append_assoc, List.take_append_of_le_length (by decide),
    List.take_append_of_le_length (by decide)] at front
  exact absurd front (by decide)

theorem telling {t : Termination} {result : Result}
    (accepted : ¬ Ended t → result = .error ∨ result = .cancelled) : Telling t result := by
  constructor
  · intro ended
    obtain ⟨code,known⟩ := Option.ne_none_iff_exists'.mp ended.1
    refine ⟨code,known,?_⟩
    rw [statusLine, if_pos ended, known]
    rfl
  · intro broken
    exact ⟨accepted broken,if_neg broken⟩
  · intro t' result' same
    unfold statusLine at same
    by_cases ended : Ended t
    · rw [if_pos ended] at same
      by_cases ended' : Ended t'
      · rw [if_pos ended'] at same
        refine ⟨iff_of_true ended' ended,fun _ => ?_,fun broken => absurd ended broken⟩
        obtain ⟨code,known⟩ := Option.ne_none_iff_exists'.mp ended.1
        obtain ⟨code',known'⟩ := Option.ne_none_iff_exists'.mp ended'.1
        rw [known, known'] at same ⊢
        exact congrArg some (exitLine_injective same)
      · rw [if_neg ended'] at same
        exact absurd same.symm (exitLine_ne_resultLine _ _)
    · rw [if_neg ended] at same
      by_cases ended' : Ended t'
      · rw [if_pos ended'] at same
        exact absurd same (exitLine_ne_resultLine _ _)
      · rw [if_neg ended'] at same
        exact ⟨iff_of_false ended' ended,fun end' => absurd end' ended,
          fun _ => resultLine_injective same⟩

theorem status_reserved (t : Termination) (result : Result) :
    reservedLine checkerDot (statusPoints t result) = true := by
  rw [reservedLine_iff]
  have plain : ∀ {text : List Char}, (∀ c ∈ text, Printed c) →
      ∀ p ∈ text.map Char.toNat, checkerDot p = true := by
    intro text printed p inside
    obtain ⟨c,member,rfl⟩ := List.mem_map.mp inside
    have low := (printed c member).1
    apply bne_iff_ne.mpr
    omega
  unfold statusPoints statusLine exitLine resultLine
  split_ifs
  · refine ⟨points "--- fv-evidence: exit=",by decide,_,?_,plain (number_printed (t.exitCode.getD 0))⟩
    rw [List.map_append, List.map_append]
    rfl
  · refine ⟨points "--- fv-evidence-v4: result=",by decide,_,?_,plain (resultName_printed result)⟩
    rw [List.map_append, List.map_append]
    rfl

theorem status_solid (t : Termination) (result : Result) :
    ∀ p ∈ statusPoints t result, isLineBreak p = false ∧ p < 128 := by
  intro p inside
  obtain ⟨c,member,rfl⟩ := List.mem_map.mp inside
  have printed := statusLine_printed t result c member
  unfold Printed at printed
  simp only [isLineBreak, Bool.or_eq_false_iff, Bool.and_eq_false_iff, decide_eq_false_iff_not,
    beq_eq_false_iff_ne]
  omega

theorem status_filled (t : Termination) (result : Result) : statusPoints t result ≠ [] := by
  intro empty
  have reserved := status_reserved t result
  rw [empty] at reserved
  cases reserved

theorem status_pieces (t : Termination) (result : Result) :
    pieces (statusPoints t result) = [statusPoints t result] := by
  have whole := linesFrom_solid (fun p inside => (status_solid t result p inside).1)
    (status_filled t result) [] [] false
  rw [List.append_nil] at whole
  exact whole

/-- The lines of a closed text are those of the text. -/
theorem filter_closed {keep : List ℕ → Bool} (empty : keep [] = false) (text : List Char)
    (rest : List ℕ) : (pieces ((closed text).map Char.toNat ++ rest)).filter keep =
      (pieces (text.map Char.toNat)).filter keep ++ (pieces rest).filter keep := by
  have none : (pieces []).filter keep = [] := by simp [pieces, linesFrom, empty]
  unfold closed
  split_ifs with opened
  · rw [List.map_append, List.append_assoc]
    exact filter_feed empty _ rest
  · cases text using List.reverseRecOn with
    | nil =>
      rw [List.map_nil, none]
      rfl
    | append_singleton text c =>
      have ends : c = '\n' := by
        by_contra other
        apply opened
        refine ⟨by simp,?_⟩
        rw [List.getLast?_concat]
        exact fun same => other (Option.some.inj same)
      rw [ends, List.map_append, List.append_assoc]
      have first : (pieces (text.map Char.toNat ++ 10 :: [])).filter keep = _ :=
        filter_feed empty (text.map Char.toNat) []
      have second : (pieces (text.map Char.toNat ++ 10 :: rest)).filter keep = _ :=
        filter_feed empty (text.map Char.toNat) rest
      rw [none, List.append_nil] at first
      exact second.trans (congrArg (· ++ _) first.symm)

def logText (first second : List Char) (t : Termination) (result : Result) : List Char :=
  closed first ++ closed second ++ (statusLine t result ++ ['\n'])

/-- The lines of the log are the lines of the streams and the status line. -/
theorem log_filter {keep : List ℕ → Bool} (empty : keep [] = false) (first second : List Char)
    (t : Termination) (result : Result) :
    (checkerLines (logText first second t result)).filter keep =
      (pieces (first.map Char.toNat)).filter keep ++ (pieces (second.map Char.toNat)).filter keep ++
        [statusPoints t result].filter keep := by
  have none : (pieces []).filter keep = [] := by simp [pieces, linesFrom, empty]
  have ended : (pieces (statusPoints t result ++ 10 :: [])).filter keep =
      [statusPoints t result].filter keep := by
    rw [filter_feed empty, none, List.append_nil, status_pieces]
  have shape : (logText first second t result).map Char.toNat =
      (closed first).map Char.toNat ++
        ((closed second).map Char.toNat ++ (statusPoints t result ++ 10 :: [])) := by
    rw [logText, List.map_append, List.map_append, List.map_append, List.append_assoc]
    rfl
  rw [checkerLines, splitlines, filter_dropEmptyLast empty, shape, filter_closed empty,
    filter_closed empty, ended, List.append_assoc]

theorem checker_sealed {first second : List Char} (t : Termination) (result : Result)
    (firstFree : checkerReserved first = false) (secondFree : checkerReserved second = false) :
    Sealed checkerDot (checkerLines (logText first second t result)) t result := by
  have free : ∀ {text : List Char}, checkerReserved text = false →
      (pieces (text.map Char.toNat)).filter (reservedLine checkerDot) = [] := by
    intro text none
    rw [← filter_dropEmptyLast (reservedLine_nil checkerDot), List.filter_eq_nil_iff]
    intro line member shaped
    have found : checkerReserved text = true := List.any_eq_true.mpr ⟨line,member,shaped⟩
    rw [none] at found
    cases found
  constructor
  · rw [log_filter (reservedLine_nil checkerDot), free firstFree, free secondFree,
      List.filter_cons_of_pos (status_reserved t result)]
    rfl
  · have kept : filled (statusPoints t result) = true := by
      rw [filled, Bool.not_eq_true', List.isEmpty_eq_false_iff]
      exact status_filled t result
    rw [log_filter rfl, List.filter_cons_of_pos kept]
    exact List.getLast?_concat

theorem producer_sealed {text : List Char} {t : Termination} {result : Result}
    (checked : Sealed checkerDot (checkerLines text) t result) :
    Sealed producerDot (producerLines text) t result := by
  have kept : (statusPoints t result).flatMap unitWord = statusPoints t result :=
    flatMap_ascii unitWord_ascii (.inl (fun p inside => (status_solid t result p inside).2))
  constructor
  · rw [producer_filter, checked.one, List.map_singleton, kept]
  · have solid : (filled ∘ fun line : List ℕ => line.flatMap unitWord) = filled := by
      ext line
      cases line with
      | nil => rfl
      | cons p line => simp [filled, unitWord_filled]
    have last := checked.last
    rw [checkerLines, splitlines, filter_dropEmptyLast rfl] at last
    rw [producerLines_word, List.filter_map, solid, List.getLast?_map, last, Option.map_some, kept]

theorem reconstruct_ok {stdout stderr log : List UInt8} {first second : List Char}
    {t : Termination} {result : Result} (out : decodeUTF8 stdout = .ok first)
    (err : decodeUTF8 stderr = .ok second)
    (written : reconstructRawOutput stdout stderr t result = .ok log) :
    (¬ Ended t → result = .error ∨ result = .cancelled) ∧
      decodeUTF8 log = .ok (logText first second t result) := by
  obtain ⟨u,accepted,written⟩ := (bind_ok _ _ _).mp written
  obtain rfl := (pure_ok _ _).mp written
  refine ⟨(check_ok _ _ _).mp accepted,?_⟩
  rw [decodeUTF8_ok] at out err ⊢
  rw [out, err, normalized_encode, normalized_encode, logText, encode_append (closed first ++ closed second),
    encode_append (closed first)]

theorem valid_agrees {stdout stderr log : List UInt8} {t : Termination} {result : Result}
    (written : reconstructRawOutput stdout stderr t result = .ok log) :
    checkerValid stdout stderr log = producerValid stdout stderr := by
  unfold checkerValid producerValid
  cases out : decodeUTF8 stdout with
  | error message => rfl
  | ok first =>
    cases err : decodeUTF8 stderr with
    | error message => rfl
    | ok second =>
      simp only [(reconstruct_ok out err written).2, reserved_agrees]

/-- The log of an execution cannot be forged, and the two sides agree on it. -/
theorem log_unforgeable (stdout stderr : List UInt8) (t : Termination) (result : Result) :
    (∀ first second log, decodeUTF8 stdout = .ok first → decodeUTF8 stderr = .ok second →
      producerReserved first = false → producerReserved second = false →
      reconstructRawOutput stdout stderr t result = .ok log →
      ∃ text, decodeUTF8 log = .ok text ∧ Sealed producerDot (producerLines text) t result ∧
        Sealed checkerDot (checkerLines text) t result ∧ Telling t result) ∧
    raw stdout stderr t result = reconstructRawOutput stdout stderr t result ∧
    (∀ text, producerReserved text = checkerReserved text) ∧
    ∀ log, reconstructRawOutput stdout stderr t result = .ok log →
      checkerValid stdout stderr log = producerValid stdout stderr := by
  refine ⟨?_,raw_agrees stdout stderr t result,reserved_agrees,fun log => valid_agrees⟩
  intro first second log out err firstFree secondFree written
  obtain ⟨accepted,decoded⟩ := reconstruct_ok out err written
  rw [reserved_agrees] at firstFree secondFree
  have checked := checker_sealed t result firstFree secondFree
  exact ⟨_,decoded,producer_sealed checked,checked,telling accepted⟩

/-- A stream that ends in a carriage return, and one without its last line feed. -/
theorem log_unforgeable_sample : ∃ text, Sealed producerDot (producerLines text)
    ⟨some 3,none,false,false⟩ .fail ∧ Sealed checkerDot (checkerLines text)
      ⟨some 3,none,false,false⟩ .fail := by
  obtain ⟨text,_,producer,checker,_⟩ := (log_unforgeable (encode "a\r".toList) (encode "b".toList)
    ⟨some 3,none,false,false⟩ .fail).1 "a\r".toList "b".toList _ (decodeUTF8_ok.mpr rfl)
      (decodeUTF8_ok.mpr rfl) (by decide +kernel) (by decide +kernel) rfl
  exact ⟨text,producer,checker⟩

end Sealing

end RawLog

end EvidenceV4
