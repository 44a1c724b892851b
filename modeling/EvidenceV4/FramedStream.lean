import Mathlib.Data.List.Basic

/-!
# Frames of a stream that arrives in chunks

A frame is a text of limited length without its separator. A reader keeps what it
has read since the last separator and takes the frames that each chunk completes.
However the stream is cut, it takes the same frames and fails on the same
streams. It accepts the streams that are frames with a separator behind each.
-/

set_option autoImplicit false

namespace FramedStream

variable {α : Type} [DecidableEq α]

inductive Fault
  | oversized
  | invalid
  deriving DecidableEq

/-- The frames of a text, what is left behind the last separator, and why reading it failed. -/
structure Scan (α : Type) where
  frames : List (List α)
  rest : List α
  fault : Option Fault
  deriving DecidableEq

section Scanning

variable (sep : α) (limit : ℕ)

def Scan.add (frame : List α) (scan : Scan α) : Scan α := { scan with frames := frame :: scan.frames }

/-- The loop over the frames of a text behind the start of a line. -/
def scanFrom (line : List α) : List α → Scan α
  | [] => ⟨[],line,if limit < line.length then some .oversized else none⟩
  | c :: text =>
    if c = sep then
      if line = [] ∨ limit < line.length then ⟨[],text,some .invalid⟩
      else (scanFrom [] text).add line
    else scanFrom (line ++ [c]) text

def scan (text : List α) : Scan α := scanFrom sep limit [] text

/-- What a reader has taken and what it keeps; after a failure it takes nothing more. -/
def feed (s : Scan α) (chunk : List α) : Scan α :=
  if s.fault.isSome then s
  else
    let next := scan sep limit (s.rest ++ chunk)
    ⟨s.frames ++ next.frames,next.rest,next.fault⟩

def reader : Scan α := ⟨[],[],none⟩

end Scanning

section Chunks

variable {sep : α} {limit : ℕ} {line text more : List α}

theorem scanFrom_line (free : sep ∉ line) (front : List α) :
    scanFrom sep limit front (line ++ text) = scanFrom sep limit (front ++ line) text := by
  induction line generalizing front with
  | nil => simp
  | cons c line ih =>
    have ⟨other,free⟩ := List.ne_and_not_mem_of_not_mem_cons free
    rw [List.cons_append, scanFrom, if_neg (Ne.symm other), ih free, List.append_assoc]
    rfl

/-- A text that is read well is read on from what it leaves. -/
theorem scanFrom_append (free : sep ∉ line) (well : (scanFrom sep limit line text).fault = none) :
    scanFrom sep limit line (text ++ more) =
      ⟨(scanFrom sep limit line text).frames ++
          (scan sep limit ((scanFrom sep limit line text).rest ++ more)).frames,
        (scan sep limit ((scanFrom sep limit line text).rest ++ more)).rest,
        (scan sep limit ((scanFrom sep limit line text).rest ++ more)).fault⟩ := by
  induction text generalizing line with
  | nil =>
    simp only [List.nil_append, scanFrom, scan]
    rw [scanFrom_line free, List.nil_append]
  | cons c text ih =>
    rw [List.cons_append, scanFrom]
    rw [scanFrom] at well ⊢
    split_ifs at well ⊢ with ended short
    · rw [ih List.not_mem_nil well]
      rfl
    · exact ih (by simpa using ⟨free,Ne.symm ended⟩) well

/-- A text that fails to be read fails with whatever follows, behind the same frames. -/
theorem scanFrom_fault (free : sep ∉ line) (fails : (scanFrom sep limit line text).fault ≠ none) :
    (scanFrom sep limit line (text ++ more)).fault ≠ none ∧
      (scanFrom sep limit line (text ++ more)).frames = (scanFrom sep limit line text).frames := by
  induction text generalizing line with
  | nil =>
    have long : limit < line.length := by
      by_contra short
      exact fails (if_neg short)
    have run : ∀ front : List α, limit < front.length →
        (scanFrom sep limit front more).fault ≠ none ∧
          (scanFrom sep limit front more).frames = [] := by
      induction more with
      | nil =>
        intro front long
        rw [scanFrom, if_pos long]
        exact ⟨by simp,rfl⟩
      | cons c more ih =>
        intro front long
        rw [scanFrom]
        split_ifs with ended short
        · exact ⟨by simp,rfl⟩
        · exact absurd (.inr long) short
        · exact ih _ (by simp; omega)
    exact run line long
  | cons c text ih =>
    rw [List.cons_append, scanFrom]
    rw [scanFrom] at fails ⊢
    split_ifs at fails ⊢ with ended short
    · exact ⟨by simp,rfl⟩
    · have ⟨still,same⟩ := ih List.not_mem_nil fails
      exact ⟨still,congrArg (line :: ·) same⟩
    · exact ih (by simpa using ⟨free,Ne.symm ended⟩) fails

/-- What a reader has after some text: what a scan of the text gives, and the same frames and a
failure where the scan fails. -/
structure Agrees (sep : α) (limit : ℕ) (text : List α) (s : Scan α) : Prop where
  frames : s.frames = (scan sep limit text).frames
  fault : s.fault = none ↔ (scan sep limit text).fault = none
  rest : s.fault = none → s.rest = (scan sep limit text).rest

theorem agrees_reader : Agrees sep limit [] (reader : Scan α) := by
  have empty : scan sep limit [] = ⟨[],[],none⟩ := by simp [scan, scanFrom]
  constructor <;> rw [empty] <;> simp [reader]

theorem feed_agrees {s : Scan α} {chunk : List α} (agrees : Agrees sep limit text s) :
    Agrees sep limit (text ++ chunk) (feed sep limit s chunk) := by
  rw [feed]
  by_cases well : s.fault = none
  · have rest := agrees.rest well
    have whole : scan sep limit (text ++ chunk) =
        ⟨s.frames ++ (scan sep limit (s.rest ++ chunk)).frames,
          (scan sep limit (s.rest ++ chunk)).rest,(scan sep limit (s.rest ++ chunk)).fault⟩ := by
      rw [agrees.frames, rest]
      exact scanFrom_append List.not_mem_nil (agrees.fault.mp well)
    rw [if_neg (by simp [well])]
    constructor <;> rw [whole]
    · exact fun _ => rfl
  · have ⟨still,same⟩ : (scan sep limit (text ++ chunk)).fault ≠ none ∧
        (scan sep limit (text ++ chunk)).frames = (scan sep limit text).frames :=
      scanFrom_fault List.not_mem_nil (fun none_ => well (agrees.fault.mpr none_))
    rw [if_pos (Option.isSome_iff_ne_none.mpr well)]
    exact ⟨agrees.frames.trans same.symm,iff_of_false well still,fun none_ => absurd none_ well⟩

/-- However a stream is cut into chunks, the reader takes the frames of the stream. -/
theorem feed_chunks (chunks : List (List α)) :
    Agrees sep limit chunks.flatten (chunks.foldl (feed sep limit) reader) := by
  have run : ∀ (done : List α) (s : Scan α), Agrees sep limit done s →
      Agrees sep limit (done ++ chunks.flatten) (chunks.foldl (feed sep limit) s) := by
    induction chunks with
    | nil =>
      intro done s agrees
      simpa using agrees
    | cons chunk chunks ih =>
      intro done s agrees
      have := ih (done ++ chunk) _ (feed_agrees agrees)
      simpa using this
  simpa using run [] reader agrees_reader

end Chunks

section Frames

variable {sep : α} {limit : ℕ}

/-- A text that can stand before a separator. -/
structure Frame (sep : α) (limit : ℕ) (frame : List α) : Prop where
  full : frame ≠ []
  short : frame.length ≤ limit
  free : sep ∉ frame

def framed (sep : α) (frames : List (List α)) : List α := frames.flatMap (· ++ [sep])

theorem scan_framed {frames : List (List α)} (each : ∀ frame ∈ frames, Frame sep limit frame) :
    scan sep limit (framed sep frames) = ⟨frames,[],none⟩ := by
  induction frames with
  | nil => simp [framed, scan, scanFrom]
  | cons frame frames ih =>
    have ⟨here,later⟩ := List.forall_mem_cons.mp each
    have split : framed sep (frame :: frames) = frame ++ sep :: framed sep frames := by
      simp [framed]
    rw [split, scan, scanFrom_line here.free, List.nil_append, scanFrom, if_pos rfl, if_neg]
    · exact congrArg (Scan.add frame) (ih later)
    · exact fun bad => bad.elim here.full (Nat.not_lt.mpr here.short)

theorem scanFrom_frames {line text : List α} (free : sep ∉ line)
    (well : (scanFrom sep limit line text).fault = none) :
    line ++ text = framed sep (scanFrom sep limit line text).frames ++
        (scanFrom sep limit line text).rest ∧
      ∀ frame ∈ (scanFrom sep limit line text).frames, Frame sep limit frame := by
  induction text generalizing line with
  | nil => exact ⟨by simp [scanFrom, framed],nofun⟩
  | cons c text ih =>
    rw [scanFrom] at well ⊢
    split_ifs at well ⊢ with ended short
    · subst ended
      have ⟨whole,each⟩ := ih List.not_mem_nil well
      rw [not_or, Nat.not_lt] at short
      constructor
      · rw [List.nil_append] at whole
        show line ++ c :: text = framed c (line :: (scanFrom c limit [] text).frames) ++
          (scanFrom c limit [] text).rest
        rw [framed, List.flatMap_cons, ← framed, List.append_assoc, ← whole, List.append_assoc]
        rfl
      · exact List.forall_mem_cons.mpr ⟨⟨short.1,short.2,free⟩,each⟩
    · have ⟨whole,each⟩ := ih (by simpa using ⟨free,Ne.symm ended⟩) well
      rw [← whole]
      exact ⟨by simp,each⟩

/-- A stream is read to its end without a failure just if it is frames with a separator behind
each, and these are the frames that are taken. -/
theorem scan_iff (text : List α) (frames : List (List α)) :
    scan sep limit text = ⟨frames,[],none⟩ ↔
      text = framed sep frames ∧ ∀ frame ∈ frames, Frame sep limit frame := by
  constructor
  · intro read
    have well : (scanFrom sep limit [] text).fault = none := congrArg Scan.fault read
    have ⟨whole,each⟩ := scanFrom_frames List.not_mem_nil well
    rw [show scanFrom sep limit [] text = _ from read] at whole each
    simpa using And.intro whole each
  · rintro ⟨rfl,each⟩
    exact scan_framed each

/-- The pieces of framed text are its frames and an empty one. -/
theorem splitOn_framed {frames : List (List α)} (free : ∀ frame ∈ frames, sep ∉ frame) :
    (framed sep frames).splitOn sep = frames ++ [[]] := by
  induction frames with
  | nil => simp [framed]
  | cons frame frames ih =>
    have ⟨here,later⟩ := List.forall_mem_cons.mp free
    have split : framed sep (frame :: frames) = frame ++ sep :: framed sep frames := by
      simp [framed]
    rw [split, List.splitOn_append_cons_self_of_not_mem here, ih later]
    rfl

omit [DecidableEq α] in
theorem framed_intercalate {frames : List (List α)} (nonempty : frames ≠ []) :
    framed sep frames = [sep].intercalate frames ++ [sep] := by
  induction frames with
  | nil => exact absurd rfl nonempty
  | cons frame frames ih =>
    cases frames with
    | nil => simp [framed]
    | cons second frames =>
      rw [framed, List.flatMap_cons, ← framed, ih (List.cons_ne_nil _ _),
        List.intercalate_cons_cons]
      simp

omit [DecidableEq α] in
theorem framed_closed (frames : List (List α)) :
    framed sep frames = [] ∨ (framed sep frames).getLast? = some sep := by
  cases List.eq_nil_or_concat frames with
  | inl empty =>
    subst empty
    exact .inl rfl
  | inr last =>
    have ⟨front,frame,whole⟩ := last
    subst whole
    apply Or.inr
    rw [List.concat_eq_append, framed, List.flatMap_append, List.flatMap_singleton,
      ← List.append_assoc, List.getLast?_concat]

/-- Text that is empty or ends with a separator is its pieces, with a separator behind each. -/
theorem framed_splitOn {text : List α} (closed : text = [] ∨ text.getLast? = some sep) :
    text = framed sep (text.splitOn sep).dropLast := by
  cases closed with
  | inl empty =>
    rw [empty]
    rfl
  | inr last =>
    have ⟨front,whole⟩ := List.getLast?_eq_some_iff.mp last
    have pieces : text.splitOn sep = front.splitOn sep ++ [[]] := by
      rw [whole, List.splitOn_append_cons_self, List.splitOn_nil]
    rw [pieces, List.dropLast_concat, framed_intercalate (List.splitOn_ne_nil sep front),
      List.intercalate_splitOn, whole]

end Frames

end FramedStream
