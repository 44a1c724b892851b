import EvidenceV4.PromptFence

/-!
# Blocks and frames of a prompt

A wrapped artifact is one block of lines, of which only the first and the last
look like a boundary. The lines of a list of parts are a frame that the
artifacts have no part in, filled with their blocks.
-/

set_option autoImplicit false

namespace EvidenceV4

namespace PromptFence

open CheckerJson (PyString points)
open EvidenceArtifact
open LineText
open PythonData

section Lines

variable {line label text front back : PyString}

theorem strip_head (c : ℕ) (text : PyString) (inked : isSpace c = false) :
    ∃ rest, strip (c :: text) = c :: rest := by
  obtain ⟨front,back,split,before,behind⟩ := strip_split (c :: text)
  cases front with
  | cons d front =>
    rw [List.cons_append, List.cons_append, List.cons.injEq] at split
    rw [List.all_cons, ← split.1, inked, Bool.false_and] at before
    exact absurd before Bool.false_ne_true
  | nil =>
    cases kept : strip (c :: text) with
    | nil =>
      rw [kept, List.nil_append, List.nil_append] at split
      rw [← split, List.all_cons, inked, Bool.false_and] at behind
      exact absurd behind Bool.false_ne_true
    | cons d rest =>
      rw [kept, List.nil_append, List.cons_append, List.cons.injEq] at split
      rw [split.1]
      exact ⟨rest,rfl⟩

theorem fenceOpen_start : ∃ rest, fenceOpen = 60 :: rest := ⟨_,points_ofList _⟩

theorem fenceClose_start : ∃ rest, fenceClose = 60 :: rest := ⟨_,points_ofList _⟩

theorem taskMarker_start : ∃ rest, taskMarker = 61 :: rest := ⟨_,points_ofList _⟩

theorem endTaskMarker_start : ∃ rest, endTaskMarker = 61 :: rest := ⟨_,points_ofList _⟩

theorem escapePrefix_start : ∃ rest, escapePrefix = 69 :: rest := ⟨_,points_ofList _⟩

theorem newline_eq : points "\n" = [10] := points_ofList _

theorem unmarked_start {c : ℕ} (inked : isSpace c = false) (other : c ≠ 61) :
    markerLine (c :: text) = false := by
  obtain ⟨rest,kept⟩ := strip_head c text inked
  obtain ⟨task,isTask⟩ := taskMarker_start
  obtain ⟨endTask,isEndTask⟩ := endTaskMarker_start
  rw [markerLine, kept, isTask, isEndTask, Bool.or_eq_false_iff, beq_eq_false_iff_ne,
    beq_eq_false_iff_ne]
  exact ⟨fun same => other (List.cons.inj same).1,fun same => other (List.cons.inj same).1⟩

/-- A line whose first letter is neither that of a fence nor that of a marker. -/
theorem plain_start {c : ℕ} (inked : isSpace c = false) (other : c ≠ 60 ∧ c ≠ 61) :
    fenceLine (c :: text) = false ∧ markerLine (c :: text) = false := by
  refine ⟨?_,unmarked_start inked other.2⟩
  obtain ⟨first,isFirst⟩ := fenceOpen_start
  obtain ⟨second,isSecond⟩ := fenceClose_start
  have whole : lstrip (c :: text) = c :: text :=
    List.dropWhile_cons_of_neg (by rw [inked]; decide)
  have differs : (60 == c) = false := beq_eq_false_iff_ne.mpr other.1.symm
  rw [fenceLine, whole, isFirst, isSecond, List.isPrefixOf_cons_cons, List.isPrefixOf_cons_cons, differs]
  rfl

theorem escapeLine_plain :
    fenceLine (escapeLine line) = false ∧ markerLine (escapeLine line) = false := by
  unfold escapeLine
  split
  · obtain ⟨rest,start⟩ := escapePrefix_start
    rw [start, List.cons_append]
    exact plain_start (by decide) (by decide)
  · rename_i clear
    simp only [Bool.or_eq_true, not_or, Bool.not_eq_true] at clear
    exact ⟨clear.1.1,clear.1.2⟩

theorem fence_iff : fenceLine line = true ↔ fenceOpen <+: lstrip line ∨ fenceClose <+: lstrip line := by
  rw [fenceLine, Bool.or_eq_true, List.isPrefixOf_iff_prefix, List.isPrefixOf_iff_prefix]

theorem angled_start (h : fenceOpen <+: line ∨ fenceClose <+: line) : ∃ rest, line = 60 :: rest := by
  obtain ⟨first,isFirst⟩ := fenceOpen_start
  obtain ⟨second,isSecond⟩ := fenceClose_start
  rcases h with ⟨rest,same⟩ | ⟨rest,same⟩
  · exact ⟨first ++ rest,by rw [← same, isFirst, List.cons_append]⟩
  · exact ⟨second ++ rest,by rw [← same, isSecond, List.cons_append]⟩

theorem fenceLine_padded (before : front.all isSpace = true) (h : fenceLine line = true) :
    fenceLine (front ++ line ++ back) = true := by
  rw [fence_iff] at h
  have inked : line.all isSpace = false := by
    by_contra bad
    rw [Bool.not_eq_false] at bad
    obtain ⟨rest,same⟩ := angled_start h
    rw [lstrip, List.dropWhile_eq_nil_iff.mpr (List.all_eq_true.mp bad)] at same
    exact absurd same (List.cons_ne_nil _ _).symm
  rw [fence_iff, List.append_assoc, lstrip_spaces before, lstrip_append inked]
  exact h.imp (fun found => found.trans (List.prefix_append _ _))
    (fun found => found.trans (List.prefix_append _ _))

theorem markerLine_padded (before : front.all isSpace = true) (behind : back.all isSpace = true) :
    markerLine (front ++ line ++ back) = markerLine line := by
  rw [markerLine, strip_padded before behind, markerLine]

/-- A line that starts with a fence is one, and no marker of the task. -/
theorem fence_of_prefix (h : fenceOpen <+: line ∨ fenceClose <+: line) :
    fenceLine line = true ∧ markerLine line = false := by
  obtain ⟨rest,rfl⟩ := angled_start h
  refine ⟨?_,unmarked_start (by decide) (by decide)⟩
  rw [fence_iff, lstrip, List.dropWhile_cons_of_neg (by decide)]
  exact h

theorem opening_eq : opening label =
    points "<<<UNTRUSTED-ARTIFACT label=" ++ (label ++ points ">>>") := by
  simp only [opening, say, List.flatten_cons, List.flatten_nil, List.append_nil]

theorem closing_eq : closing label =
    points "<<<END-UNTRUSTED-ARTIFACT label=" ++ (label ++ points ">>>") := by
  simp only [closing, say, List.flatten_cons, List.flatten_nil, List.append_nil]

/-- The fixed texts of the fences. -/
theorem fences_apart : fenceOpen <+: points "<<<UNTRUSTED-ARTIFACT label=" ∧
    fenceClose <+: points "<<<END-UNTRUSTED-ARTIFACT label=" ∧ points ">>>" = points ">>" ++ [62] ∧
    fenceLine [] = false ∧ markerLine [] = false := by
  decide +kernel

theorem opening_fence : fenceLine (opening label) = true ∧ markerLine (opening label) = false := by
  apply fence_of_prefix
  rw [opening_eq]
  left
  exact fences_apart.1.trans (List.prefix_append _ _)

theorem closing_fence : fenceLine (closing label) = true ∧ markerLine (closing label) = false := by
  apply fence_of_prefix
  rw [closing_eq]
  right
  exact fences_apart.2.1.trans (List.prefix_append _ _)

theorem lineFree_append (first : LineFree front) (second : LineFree back) :
    LineFree (front ++ back) := by
  intro c member
  rcases List.mem_append.mp member with known | known
  · exact first c known
  · exact second c known

theorem fences_free : LineFree (points "<<<UNTRUSTED-ARTIFACT label=") ∧
    LineFree (points "<<<END-UNTRUSTED-ARTIFACT label=") ∧ LineFree (points ">>>") ∧
    LineFree escapePrefix := by
  unfold LineFree
  decide +kernel

theorem opening_free (free : LineFree label) : LineFree (opening label) := by
  have ⟨first,_,last,_⟩ := fences_free
  rw [opening_eq]
  exact lineFree_append first (lineFree_append free last)

theorem closing_free (free : LineFree label) : LineFree (closing label) := by
  have ⟨_,first,last,_⟩ := fences_free
  rw [closing_eq]
  exact lineFree_append first (lineFree_append free last)

theorem escapeLine_free (free : LineFree line) : LineFree (escapeLine line) := by
  unfold escapeLine
  split
  · exact lineFree_append fences_free.2.2.2 free
  · exact free

theorem splitlines_subset {found : PyString} (member : found ∈ splitlines text) :
    found ∈ pieces text := by
  rw [splitlines, dropEmptyLast] at member
  split at member
  · exact List.dropLast_subset _ member
  · exact member

theorem mem_pieces {found : PyString} (member : found ∈ pieces text) :
    found ∈ splitlines text ∨ found = [] := by
  rw [splitlines, dropEmptyLast]
  split
  · rename_i empty
    rw [← List.dropLast_append_getLast? [] empty, List.mem_append, List.mem_singleton] at member
    exact member
  · exact .inl member

theorem safeLines_free {found : PyString} (member : found ∈ safeLines text) : LineFree found := by
  obtain ⟨line,known,rfl⟩ := List.mem_map.mp member
  exact escapeLine_free (pieces_mem_free (splitlines_subset known))

end Lines

section Blocks

variable {artifact : Artifact} {text : PyString}

/-- The lines between the boundaries of an artifact. -/
def bodyLines (text : PyString) : List PyString :=
  if safeLines text = [] then [[]] else safeLines text

def block (artifact : Artifact) : List PyString :=
  opening artifact.label :: (bodyLines artifact.text ++ [closing artifact.label])

theorem joined_closed {parts : List PyString} (free : ∀ part ∈ parts, LineFree part) :
    (joined [10] parts).getLast? ≠ some 13 := by
  intro bad
  rcases joined_mem (List.mem_of_getLast? bad) with feed | ⟨part,known,inside⟩
  · exact absurd feed (by decide)
  · exact absurd (free part known 13 inside) (by decide)

theorem pieces_body : pieces (joined [10] (safeLines text)) = bodyLines text := by
  unfold bodyLines
  split
  · rename_i empty
    rw [empty]
    rfl
  · rename_i some_line
    rw [pieces_joined some_line (fun line member => lineFree_closed (safeLines_free member))]
    have single : ∀ line ∈ safeLines text, pieces line = [line] :=
      fun line member => pieces_free (safeLines_free member)
    rw [List.flatMap_congr single]
    exact List.flatMap_singleton' _

theorem wrapUntrusted_eq : wrapUntrusted artifact = opening artifact.label ++ 10 ::
    (joined [10] (safeLines artifact.text) ++ 10 :: closing artifact.label) := by
  simp only [wrapUntrusted, say, newline_eq, List.flatten_cons, List.flatten_nil, List.append_nil,
    List.singleton_append]

/-- A wrapped artifact is one block of lines. -/
theorem pieces_wrap (free : LineFree artifact.label) :
    pieces (wrapUntrusted artifact) = block artifact := by
  rw [wrapUntrusted_eq, pieces_feed (lineFree_closed (opening_free free)),
    pieces_feed (joined_closed (fun line member => safeLines_free member)),
    pieces_free (opening_free free), pieces_free (closing_free free), pieces_body]
  rfl

theorem bodyLines_plain {line : PyString} (member : line ∈ bodyLines text) :
    fenceLine line = false ∧ markerLine line = false := by
  unfold bodyLines at member
  split at member
  · rw [List.mem_singleton.mp member]
    exact fences_apart.2.2.2
  · obtain ⟨raw,-,rfl⟩ := List.mem_map.mp member
    exact escapeLine_plain

theorem block_fences : (block artifact).filter fenceLine =
    [opening artifact.label,closing artifact.label] := by
  have nothing : (bodyLines artifact.text).filter fenceLine = [] := by
    rw [List.filter_eq_nil_iff]
    intro line member
    rw [(bodyLines_plain member).1]
    decide
  rw [block, List.filter_cons_of_pos opening_fence.1, List.filter_append, nothing, List.nil_append,
    List.filter_cons_of_pos closing_fence.1, List.filter_nil]

theorem block_unmarked {line : PyString} (member : line ∈ block artifact) :
    markerLine line = false := by
  rcases List.mem_cons.mp member with rfl | later
  · exact opening_fence.2
  · rcases List.mem_append.mp later with body | last
    · exact (bodyLines_plain body).2
    · rw [List.mem_singleton.mp last]
      exact closing_fence.2

end Blocks

section Frames

variable {parts : List Part}

def Part.lines : Part → List PyString
  | .own text => pieces text
  | .untrusted artifact => block artifact

/-- The lines around the artifacts of a prompt: those in front of the first artifact, and those
behind each of them. -/
structure Frame where
  lead : List PyString
  gaps : List (List PyString)

def Frame.fill (frame : Frame) (blocks : List (List PyString)) : List PyString :=
  frame.lead ++ (List.zipWith (· ++ ·) blocks frame.gaps).flatten

def frameOf : List Part → Frame
  | [] => ⟨[],[]⟩
  | .own text :: rest => ⟨pieces text ++ (frameOf rest).lead,(frameOf rest).gaps⟩
  | .untrusted _ :: rest => ⟨[],(frameOf rest).lead :: (frameOf rest).gaps⟩

def artifactsOf : List Part → List Artifact
  | [] => []
  | .own _ :: rest => artifactsOf rest
  | .untrusted artifact :: rest => artifact :: artifactsOf rest

def Part.erased : Part → Part
  | .own text => .own text
  | .untrusted _ => .untrusted ⟨[],[]⟩

theorem frameOf_erased : frameOf (parts.map Part.erased) = frameOf parts := by
  induction parts with
  | nil => rfl
  | cons part parts ih => cases part <;> simp [Part.erased, frameOf, ih]

theorem frameOf_fill : (frameOf parts).fill ((artifactsOf parts).map block) =
    parts.flatMap Part.lines := by
  induction parts with
  | nil => rfl
  | cons part parts ih =>
    rw [List.flatMap_cons, ← ih]
    cases part with
    | own text => simp [frameOf, artifactsOf, Frame.fill, Part.lines]
    | untrusted artifact => simp [frameOf, artifactsOf, Frame.fill, Part.lines]

theorem frameOf_paired : (frameOf parts).gaps.length = (artifactsOf parts).length := by
  induction parts with
  | nil => rfl
  | cons part parts ih => cases part <;> simp [frameOf, artifactsOf, ih]

theorem artifactsOf_append (front back : List Part) :
    artifactsOf (front ++ back) = artifactsOf front ++ artifactsOf back := by
  induction front with
  | nil => rfl
  | cons part front ih => cases part <;> simp [artifactsOf, ih]

/-- A part whose own lines are no fences, or whose label stands on one line. -/
def Part.Sound : Part → Prop
  | .own text => text.getLast? ≠ some 13 ∧ ∀ line ∈ pieces text, fenceLine line = false
  | .untrusted artifact => LineFree artifact.label

/-- A part without a marker of the task. -/
def Part.Unmarked : Part → Prop
  | .own text => ∀ line ∈ pieces text, markerLine line = false
  | .untrusted _ => True

def Inked (text : PyString) : Prop := ∃ body c, text = body ++ [c] ∧ isSpace c = false

theorem frameOf_plain (sound : ∀ part ∈ parts, part.Sound) {line : PyString}
    (member : line ∈ (frameOf parts).lead ++ (frameOf parts).gaps.flatten) :
    fenceLine line = false := by
  induction parts with
  | nil => exact absurd member List.not_mem_nil
  | cons part parts ih =>
    have later := ih (fun other known => sound other (List.mem_cons_of_mem _ known))
    have here := sound part List.mem_cons_self
    cases part with
    | own text =>
      simp only [frameOf, List.append_assoc, List.mem_append] at member later
      rcases member with first | rest
      · exact here.2 line first
      · exact later rest
    | untrusted artifact =>
      simp only [frameOf, List.nil_append, List.flatten_cons] at member
      exact later member

theorem flatMap_fences (sound : ∀ part ∈ parts, part.Sound) :
    (parts.flatMap Part.lines).filter fenceLine =
      (artifactsOf parts).flatMap (fun artifact => [opening artifact.label,closing artifact.label]) := by
  induction parts with
  | nil => rfl
  | cons part parts ih =>
    have later := ih (fun other known => sound other (List.mem_cons_of_mem _ known))
    have here := sound part List.mem_cons_self
    rw [List.flatMap_cons, List.filter_append, later]
    cases part with
    | own text =>
      have nothing : (pieces text).filter fenceLine = [] := by
        rw [List.filter_eq_nil_iff]
        intro line member
        rw [here.2 line member]
        decide
      rw [Part.lines, nothing, artifactsOf, List.nil_append]
    | untrusted artifact =>
      rw [Part.lines, block_fences, artifactsOf, List.flatMap_cons]

theorem Part.Unmarked.lines {part : Part} (unmarked : part.Unmarked) {line : PyString}
    (member : line ∈ part.lines) : markerLine line = false := by
  cases part with
  | own text => exact unmarked line member
  | untrusted artifact => exact block_unmarked member

theorem unmarked_filter {marker : PyString} (isMarker : marker = taskMarker ∨ marker = endTaskMarker)
    (unmarked : ∀ part ∈ parts, part.Unmarked) :
    (parts.flatMap Part.lines).filter (fun line => strip line == marker) = [] := by
  rw [List.filter_eq_nil_iff]
  intro line member
  obtain ⟨part,known,inside⟩ := List.mem_flatMap.mp member
  have clear := (unmarked part known).lines inside
  rw [markerLine, Bool.or_eq_false_iff] at clear
  rcases isMarker with rfl | rfl
  · rw [clear.1]
    decide
  · rw [clear.2]
    decide

end Frames

section Joining

variable {parts front : List Part} {last : Part}

theorem untrusted_inked (artifact : Artifact) : Inked (Part.untrusted artifact).text := by
  refine ⟨opening artifact.label ++ 10 :: (joined [10] (safeLines artifact.text) ++
    10 :: (points "<<<END-UNTRUSTED-ARTIFACT label=" ++ (artifact.label ++ points ">>"))),62,?_,by
      decide⟩
  rw [Part.text, wrapUntrusted_eq, closing_eq, fences_apart.2.2.1]
  simp only [List.append_assoc, List.cons_append]

theorem Part.Sound.closed {part : Part} (sound : part.Sound) : part.text.getLast? ≠ some 13 := by
  cases part with
  | own text => exact sound.1
  | untrusted artifact =>
    obtain ⟨body,c,same,letter⟩ := untrusted_inked artifact
    rw [same]
    exact inked_closed letter

theorem Part.Sound.pieces_text {part : Part} (sound : part.Sound) : pieces part.text = part.lines := by
  cases part with
  | own text => rfl
  | untrusted artifact => exact pieces_wrap sound

theorem joined_inked {texts : List PyString} {text : PyString} (inked : Inked text) :
    Inked (joined [10] (texts ++ [text])) := by
  obtain ⟨body,c,rfl,letter⟩ := inked
  induction texts with
  | nil => exact ⟨body,c,by simp [joined, List.intercalate],letter⟩
  | cons first texts ih =>
    obtain ⟨rest,d,same,letter'⟩ := ih
    obtain ⟨next,others,shape⟩ : ∃ next others, texts ++ [body ++ [c]] = next :: others := by
      cases texts with
      | nil => exact ⟨_,_,rfl⟩
      | cons next others => exact ⟨_,_,rfl⟩
    refine ⟨first ++ 10 :: rest,d,?_,letter'⟩
    rw [List.cons_append, List.append_assoc, List.cons_append, ← same, shape]
    simp [joined, List.intercalate]

theorem rstrip_of_inked {text : PyString} (inked : Inked text) : rstrip text = text := by
  obtain ⟨body,c,rfl,letter⟩ := inked
  exact rstrip_inked letter

theorem joined_open {texts : List PyString} (some_text : texts ≠ []) :
    joined [10] (texts ++ [[]]) = joined [10] texts ++ [10] := by
  induction texts with
  | nil => exact absurd rfl some_text
  | cons text texts ih =>
    cases texts with
    | nil => simp [joined, List.intercalate]
    | cons next texts =>
      have later := ih (List.cons_ne_nil _ _)
      simp only [joined, List.intercalate, List.cons_append, List.intersperse_cons_cons,
        List.flatten_cons, List.append_assoc] at later ⊢
      rw [later]

/-- A prompt whose last written part ends in a letter has the lines of its parts. -/
theorem promptText_lines {rest : List Part} (sound : ∀ part ∈ front ++ [last], part.Sound)
    (inked : Inked last.text) (empty : rest = [] ∨ rest = [emptyLine]) :
    splitlines (promptText (front ++ [last] ++ rest)) = (front ++ [last]).flatMap Part.lines := by
  have ends : Inked (joined [10] ((front ++ [last]).map Part.text)) := by
    rw [List.map_append, List.map_singleton]
    exact joined_inked inked
  have kept : rstrip (joined [10] ((front ++ [last] ++ rest).map Part.text)) =
      joined [10] ((front ++ [last]).map Part.text) := by
    rcases empty with rfl | rfl
    · rw [List.append_nil]
      exact rstrip_of_inked ends
    · have fed : joined [10] ((front ++ [last] ++ [emptyLine]).map Part.text) =
          joined [10] ((front ++ [last]).map Part.text) ++ [10] := by
        rw [List.map_append, List.map_singleton]
        exact joined_open (by simp)
      rw [fed, rstrip_spaces (by decide)]
      exact rstrip_of_inked ends
  obtain ⟨body,c,same,letter⟩ := ends
  rw [promptText, newline_eq, kept, same, splitlines_closed (inked_closed letter), ← same, pieces_joined (by simp)]
  · rw [List.flatMap_map]
    exact List.flatMap_congr (fun part member => (sound part member).pieces_text)
  · intro text member
    obtain ⟨part,known,rfl⟩ := List.mem_map.mp member
    exact (sound part known).closed

end Joining

end PromptFence

end EvidenceV4
