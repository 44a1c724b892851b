import EvidenceV4.EvidenceArtifact
import Mathlib.Data.List.TakeWhile

/-!
# Lines of a text

The line rules of the interpreter, as laws: a line feed separates what stands
before it from what follows, joined lines come back one by one, and stripping a
text takes only white space off its lines.
-/

set_option autoImplicit false

namespace EvidenceV4

namespace LineText

open CheckerJson (PyString points)
open EvidenceArtifact
open PythonData

def lstrip (text : PyString) : PyString := text.dropWhile isSpace

def rstrip (text : PyString) : PyString := (text.reverse.dropWhile isSpace).reverse

def LineFree (text : PyString) : Prop := ∀ c ∈ text, isLineBreak c = false

theorem lineFree_nil : LineFree [] := fun _ member => absurd member List.not_mem_nil

theorem points_ofList (letters : List Char) :
    points (String.ofList letters) = letters.map Char.toNat := by
  rw [points, String.toList_ofList]

section Spaces

variable {text front back : PyString}

theorem strip_eq : strip text = rstrip (lstrip text) := rfl

theorem lineBreak_isSpace {c : ℕ} (h : isLineBreak c = true) : isSpace c = true := by
  simp only [isLineBreak, isSpace, Bool.or_eq_true, Bool.and_eq_true, decide_eq_true_eq,
    beq_iff_eq] at h ⊢
  omega

theorem lstrip_spaces (spaces : front.all isSpace = true) : lstrip (front ++ text) = lstrip text := by
  rw [lstrip, List.dropWhile_append, if_pos]
  · rfl
  · rw [List.isEmpty_iff, List.dropWhile_eq_nil_iff]
    exact List.all_eq_true.mp spaces

theorem rstrip_spaces (spaces : back.all isSpace = true) : rstrip (text ++ back) = rstrip text := by
  rw [rstrip, List.reverse_append, ← lstrip, lstrip_spaces]
  · rfl
  · rw [List.all_reverse]
    exact spaces

theorem lstrip_append (inked : text.all isSpace = false) :
    lstrip (text ++ back) = lstrip text ++ back := by
  rw [lstrip, List.dropWhile_append, if_neg]
  · rfl
  · intro empty
    rw [List.isEmpty_iff, List.dropWhile_eq_nil_iff, ← List.all_eq_true, inked] at empty
    exact absurd empty (by decide)

theorem rstrip_inked {c : ℕ} (inked : isSpace c = false) : rstrip (text ++ [c]) = text ++ [c] := by
  rw [rstrip, List.reverse_append, List.reverse_singleton, List.singleton_append,
    List.dropWhile_cons_of_neg (by rw [inked]; decide), List.reverse_cons, List.reverse_reverse]

theorem strip_padded (before : front.all isSpace = true) (behind : back.all isSpace = true) :
    strip (front ++ text ++ back) = strip text := by
  rw [strip_eq, strip_eq, List.append_assoc, lstrip_spaces before]
  by_cases inked : text.all isSpace = false
  · rw [lstrip_append inked, rstrip_spaces behind]
  · rw [Bool.not_eq_false] at inked
    have none_left : lstrip text = [] := by
      rw [lstrip, List.dropWhile_eq_nil_iff]
      exact List.all_eq_true.mp inked
    rw [lstrip_spaces inked, none_left, lstrip, List.dropWhile_eq_nil_iff.mpr
      (List.all_eq_true.mp behind)]

/-- A text is its stripped part between white space. -/
theorem strip_split (text : PyString) : ∃ front back, text = front ++ strip text ++ back ∧
    front.all isSpace = true ∧ back.all isSpace = true := by
  have left : text = text.takeWhile isSpace ++ lstrip text :=
    (List.takeWhile_append_dropWhile).symm
  have right : lstrip text = rstrip (lstrip text) ++
      ((lstrip text).reverse.takeWhile isSpace).reverse := by
    rw [rstrip, ← List.reverse_append, List.takeWhile_append_dropWhile, List.reverse_reverse]
  refine ⟨text.takeWhile isSpace,((lstrip text).reverse.takeWhile isSpace).reverse,?_,?_,?_⟩
  · rw [strip_eq, List.append_assoc, ← right, ← left]
  · rw [List.all_eq_true]
    exact fun c member => List.mem_takeWhile_imp member
  · rw [List.all_reverse, List.all_eq_true]
    exact fun c member => List.mem_takeWhile_imp member

theorem strip_ends {c : ℕ} {rest : PyString} (h : strip text = rest ++ [c]) : isSpace c = false := by
  rw [strip_eq, rstrip] at h
  have turned : (lstrip text).reverse.dropWhile isSpace = c :: rest.reverse := by
    rw [← List.reverse_inj, h, List.reverse_cons, List.reverse_reverse]
  have head := List.head?_dropWhile_not isSpace (lstrip text).reverse
  rw [turned] at head
  simpa using head

theorem strip_starts {c : ℕ} {rest : PyString} (h : strip text = c :: rest) :
    isSpace c = false := by
  obtain ⟨front,back,-,-,spaces⟩ := strip_split (lstrip text)
  have head := List.head?_dropWhile_not isSpace text
  have tail : lstrip text = strip text ++ ((lstrip text).reverse.takeWhile isSpace).reverse := by
    rw [strip_eq, rstrip, ← List.reverse_append, List.takeWhile_append_dropWhile,
      List.reverse_reverse]
  rw [← lstrip, tail, h] at head
  simpa using head

end Spaces

section Pieces

variable {line text before behind : PyString} {returned : Bool}

/-- The first piece of a list of lines, with a text put in front of it. -/
def onto (start : PyString) : List PyString → List PyString
  | [] => []
  | line :: rest => (start ++ line) :: rest

theorem linesFrom_onto (start : PyString) :
    linesFrom (start ++ line) false text = onto start (linesFrom line false text) := by
  induction text generalizing line with
  | nil => rfl
  | cons c text ih =>
    simp only [linesFrom, Bool.false_and, Bool.false_eq_true, if_false]
    split
    · rfl
    · rw [List.append_assoc, ih]

theorem linesFrom_free (free : LineFree text) : linesFrom line false text = [line ++ text] := by
  induction text generalizing line with
  | nil => rw [linesFrom, List.append_nil]
  | cons c text ih =>
    have known := free c List.mem_cons_self
    simp only [linesFrom, Bool.false_and, Bool.false_eq_true, if_false, known]
    rw [ih (fun d member => free d (List.mem_cons_of_mem _ member)), List.append_assoc,
      List.singleton_append]

theorem pieces_free (free : LineFree text) : pieces text = [text] := linesFrom_free free

theorem linesFrom_mem_free (known : LineFree line) {found : PyString}
    (member : found ∈ linesFrom line returned text) : LineFree found := by
  induction text generalizing line returned with
  | nil =>
    rw [List.mem_singleton.mp member]
    exact known
  | cons c text ih =>
    rw [linesFrom] at member
    split at member
    · exact ih lineFree_nil member
    · split at member
      · rcases List.mem_cons.mp member with rfl | later
        · exact known
        · exact ih lineFree_nil later
      · rename_i inked
        apply ih _ member
        intro d listed
        rcases List.mem_append.mp listed with old | new
        · exact known d old
        · rw [List.mem_singleton.mp new]
          simpa using inked

theorem pieces_mem_free {found : PyString} (member : found ∈ pieces text) : LineFree found :=
  linesFrom_mem_free lineFree_nil member

theorem linesFrom_feed (fresh : returned = true → before ≠ []) (closed : before.getLast? ≠ some 13) :
    linesFrom line returned (before ++ 10 :: behind) =
      linesFrom line returned before ++ pieces behind := by
  induction before generalizing line returned with
  | nil =>
    cases returned with
    | false => rfl
    | true => exact absurd rfl (fresh rfl)
  | cons c before ih =>
    have later : before.getLast? ≠ some 13 := by
      intro bad
      apply closed
      rw [List.getLast?_cons, bad]
      rfl
    have alone : before = [] → c ≠ 13 := by
      rintro rfl rfl
      exact closed rfl
    simp only [List.cons_append, linesFrom]
    split
    · exact ih nofun later
    · split
      · rw [ih _ later, List.cons_append]
        intro isReturn empty
        exact alone empty (by simpa using isReturn)
      · exact ih nofun later

/-- A line feed separates the lines before it from the lines behind it. -/
theorem pieces_feed (closed : before.getLast? ≠ some 13) :
    pieces (before ++ 10 :: behind) = pieces before ++ pieces behind :=
  linesFrom_feed nofun closed

theorem pieces_joined {parts : List PyString} (some_part : parts ≠ [])
    (closed : ∀ part ∈ parts, part.getLast? ≠ some 13) :
    pieces (joined [10] parts) = parts.flatMap pieces := by
  induction parts with
  | nil => exact absurd rfl some_part
  | cons part parts ih =>
    cases parts with
    | nil => simp [joined, List.intercalate]
    | cons next parts =>
      rw [joined_cons, List.singleton_append, pieces_feed (closed part List.mem_cons_self),
        ih (List.cons_ne_nil _ _) (fun other member => closed other (List.mem_cons_of_mem _ member)),
        List.flatMap_cons, List.flatMap_cons, List.flatMap_cons]

/-- A text that is closed by a line feed has the lines in front of it. -/
theorem splitlines_closed (closed : text.getLast? ≠ some 13) :
    splitlines (text ++ [10]) = pieces text := by
  rw [splitlines, pieces_feed closed]
  show dropEmptyLast (pieces text ++ [[]]) = pieces text
  rw [dropEmptyLast, if_pos (by simp), List.dropLast_concat]

theorem lineFree_closed (free : LineFree text) : text.getLast? ≠ some 13 := by
  intro bad
  have known := free 13 (List.mem_of_getLast? bad)
  exact absurd known (by decide)

theorem inked_closed {c : ℕ} (inked : isSpace c = false) : (text ++ [c]).getLast? ≠ some 13 := by
  rw [List.getLast?_append]
  simp only [List.getLast?_singleton, Option.some_or, ne_eq, Option.some.injEq]
  rintro rfl
  exact absurd inked (by decide)

def unlines (lines : List PyString) : PyString := lines.flatMap (fun line => line ++ [10])

theorem pieces_unlines {lines : List PyString} (free : ∀ line ∈ lines, LineFree line) :
    pieces (unlines lines) = lines ++ [[]] := by
  induction lines with
  | nil => rfl
  | cons line lines ih =>
    obtain ⟨here,later⟩ := List.forall_mem_cons.mp free
    have split : unlines (line :: lines) = line ++ 10 :: unlines lines := by simp [unlines]
    rw [split, pieces_feed (lineFree_closed here), pieces_free here, ih later]
    rfl

theorem splitlines_unlines {lines : List PyString} (free : ∀ line ∈ lines, LineFree line) :
    splitlines (unlines lines) = lines := by
  rw [splitlines, pieces_unlines free, dropEmptyLast, if_pos (by simp), List.dropLast_concat]

end Pieces

section Padding

variable {text front back found : PyString}

theorem linesFrom_spaces (line : PyString) (returned : Bool) (spaces : back.all isSpace = true) (fresh : returned = true → line = []) :
    ∃ padding, padding.all isSpace = true ∧ line ++ padding ∈ linesFrom line returned back := by
  induction back generalizing line returned with
  | nil => exact ⟨[],rfl,by simp [linesFrom]⟩
  | cons c back ih =>
    rw [List.all_cons, Bool.and_eq_true] at spaces
    rw [linesFrom]
    split
    · rename_i swallowed
      rw [fresh (by simp_all)]
      exact ih [] false spaces.2 nofun
    · split
      · exact ⟨[],rfl,by simp⟩
      · obtain ⟨padding,padded,member⟩ := ih (line ++ [c]) false spaces.2 nofun
        refine ⟨c :: padding,?_,?_⟩
        · rw [List.all_cons, spaces.1, padded]
          rfl
        · rwa [List.append_assoc, List.singleton_append] at member

theorem linesFrom_behind (line : PyString) (returned : Bool) (spaces : back.all isSpace = true) (fresh : returned = true → line = [])
    (member : found ∈ linesFrom line returned text) :
    ∃ padding, padding.all isSpace = true ∧
      found ++ padding ∈ linesFrom line returned (text ++ back) := by
  induction text generalizing line returned with
  | nil =>
    rw [List.mem_singleton.mp member]
    exact linesFrom_spaces line returned spaces fresh
  | cons c text ih =>
    rw [linesFrom] at member
    rw [List.cons_append, linesFrom]
    split at member
    · rename_i swallowed
      rw [if_pos swallowed]
      exact ih [] false nofun member
    · rename_i read
      rw [if_neg read]
      split at member
      · rename_i ends
        rw [if_pos ends]
        rcases List.mem_cons.mp member with rfl | later
        · exact ⟨[],rfl,by simp⟩
        · obtain ⟨padding,padded,known⟩ := ih [] (c == 13) (fun _ => rfl) later
          exact ⟨padding,padded,List.mem_cons_of_mem _ known⟩
      · rename_i goes_on
        rw [if_neg goes_on]
        exact ih (line ++ [c]) false nofun member

theorem linesFrom_before (line : PyString) (returned : Bool) (spaces : front.all isSpace = true) (blank_line : line.all isSpace = true)
    (inked : ∀ c rest, text = c :: rest → isSpace c = false) (member : found ∈ pieces text) :
    ∃ padding, padding.all isSpace = true ∧
      padding ++ found ∈ linesFrom line returned (front ++ text) := by
  induction front generalizing line returned with
  | nil =>
    cases text with
    | nil =>
      rw [List.mem_singleton.mp member]
      exact ⟨line,blank_line,by simp [linesFrom]⟩
    | cons c text =>
      have plain : isSpace c = false := inked c text rfl
      have unbroken : isLineBreak c = false := by
        by_contra bad
        rw [Bool.not_eq_false] at bad
        rw [lineBreak_isSpace bad] at plain
        exact absurd plain (by decide)
      have no_feed : (returned && c == 10) = false := by
        by_contra bad
        rw [Bool.not_eq_false, Bool.and_eq_true, beq_iff_eq] at bad
        rw [bad.2] at plain
        exact absurd plain (by decide)
      simp only [pieces, linesFrom, Bool.false_and, Bool.false_eq_true, if_false, unbroken,
        List.nil_append] at member
      simp only [List.nil_append, linesFrom, no_feed, Bool.false_eq_true, if_false, unbroken]
      rw [linesFrom_onto]
      cases rest : linesFrom [c] false text with
      | nil =>
        rw [rest] at member
        exact absurd member List.not_mem_nil
      | cons first others =>
        rw [rest] at member
        rcases List.mem_cons.mp member with rfl | later
        · exact ⟨line,blank_line,List.mem_cons_self⟩
        · exact ⟨[],rfl,List.mem_cons_of_mem _ later⟩
  | cons c front ih =>
    rw [List.all_cons, Bool.and_eq_true] at spaces
    rw [List.cons_append, linesFrom]
    split
    · exact ih [] false spaces.2 rfl
    · split
      · obtain ⟨padding,padded,known⟩ := ih [] (c == 13) spaces.2 rfl
        exact ⟨padding,padded,List.mem_cons_of_mem _ known⟩
      · apply ih (line ++ [c]) false spaces.2
        rw [List.all_append, blank_line, List.all_cons, spaces.1]
        rfl

/-- Every line of a stripped text stands in the text, with white space around it. -/
theorem pieces_strip (member : found ∈ pieces (strip text)) : ∃ front back,
    front.all isSpace = true ∧ back.all isSpace = true ∧ front ++ found ++ back ∈ pieces text := by
  obtain ⟨front,back,split,before,behind⟩ := strip_split text
  obtain ⟨left,isLeft,known⟩ := linesFrom_before [] false before rfl
    (fun c rest same => strip_starts same) member
  obtain ⟨right,isRight,whole⟩ := linesFrom_behind [] false behind nofun known
  refine ⟨left,right,isLeft,isRight,?_⟩
  rw [pieces, split]
  exact whole

end Padding

end LineText

end EvidenceV4
