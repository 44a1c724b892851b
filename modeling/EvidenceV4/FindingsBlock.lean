import EvidenceV4.BenchmarkFindings

/-!
# The final findings block

A report is any text followed by a fenced array. The array is found whenever no
earlier fence is left open and the text of the array holds no closing fence of
its own. Otherwise the pattern runs over the last block or ends inside it.
-/

set_option autoImplicit false

namespace EvidenceV4

namespace BenchmarkFindings

open CheckedExcept JsonText PythonData
open CheckerJson (PyString points)
open PolicyDocument (mapGet)

section Closing

variable {s u body inside rest : List Char} {c : Char}

theorem closing_cons_mark (fence : fenceClose.isPrefixOf (s.dropWhile space)) :
    closing (']' :: s) = some ([']'],(s.dropWhile space).drop fenceClose.length) := by
  rw [closing, if_pos ⟨rfl,fence⟩]

theorem closing_cons_other (other : ¬ (c = ']' ∧ fenceClose.isPrefixOf (s.dropWhile space))) :
    closing (c :: s) = (closing s).map (fun r => (c :: r.1,r.2)) := by
  rw [closing, if_neg other]

theorem closing_cons_plain (plain : c ≠ ']') :
    closing (c :: s) = (closing s).map (fun r => (c :: r.1,r.2)) :=
  closing_cons_other (fun both => plain both.1)

/-- A word without a character starts no later than in front of it. -/
theorem isPrefixOf_foreign {w : List Char} (foreign : c ∉ w) (s x : List Char) :
    w.isPrefixOf (s ++ c :: x) = w.isPrefixOf s := by
  induction w generalizing s with
  | nil => rfl
  | cons a w ih =>
    rw [List.mem_cons, not_or] at foreign
    obtain ⟨front,later⟩ := foreign
    cases s with
    | nil => simp [List.isPrefixOf, Ne.symm front]
    | cons b s => rw [List.cons_append, List.isPrefixOf_cons_cons, List.isPrefixOf_cons_cons, ih later]

/-- A bracket is no character of a fence. -/
theorem fence_append (marked : ']' ∈ u) (x : List Char) :
    fenceClose.isPrefixOf (u ++ x) = fenceClose.isPrefixOf u := by
  obtain ⟨front,back,rfl⟩ := List.append_of_mem marked
  have foreign : ']' ∉ fenceClose := by decide
  rw [List.append_assoc, List.cons_append, isPrefixOf_foreign foreign, isPrefixOf_foreign foreign]

theorem mem_dropWhile_space (member : ']' ∈ s) : ']' ∈ s.dropWhile space := by
  induction s with
  | nil => exact member
  | cons c s ih =>
    by_cases spaces : space c = true
    · rw [List.dropWhile_cons_of_pos spaces]
      apply ih
      rcases List.mem_cons.mp member with rfl | later
      · exact absurd spaces (by decide)
      · exact later
    · rwa [List.dropWhile_cons_of_neg spaces]

theorem dropWhile_marked (member : ']' ∈ s) (x : List Char) :
    (s ++ x).dropWhile space = s.dropWhile space ++ x :=
  dropWhile_stable x (List.ne_nil_of_mem (mem_dropWhile_space member))

theorem fence_marked (member : ']' ∈ s) (x : List Char) :
    fenceClose.isPrefixOf ((s ++ x).dropWhile space) =
      fenceClose.isPrefixOf (s.dropWhile space) := by
  rw [dropWhile_marked member, fence_append (mem_dropWhile_space member)]

theorem closing_marked (found : closing s = some (inside,rest)) : ']' ∈ s := by
  induction s generalizing inside with
  | nil => simp [closing] at found
  | cons c s ih =>
    by_cases here : c = ']' ∧ fenceClose.isPrefixOf (s.dropWhile space)
    · simp [here.1]
    · rw [closing_cons_other here] at found
      obtain ⟨r,later,same⟩ := Option.map_eq_some_iff.mp found
      obtain ⟨_,rfl⟩ := Prod.mk.inj same
      exact List.mem_cons_of_mem c (ih later)

/-- A block that is closed stays the same before any other text. -/
theorem closing_append (found : closing s = some (inside,rest)) (x : List Char) :
    closing (s ++ x) = some (inside,rest ++ x) := by
  induction s generalizing inside with
  | nil => simp [closing] at found
  | cons c s ih =>
    by_cases here : c = ']' ∧ fenceClose.isPrefixOf (s.dropWhile space)
    · obtain ⟨rfl,fence⟩ := here
      rw [closing_cons_mark fence] at found
      obtain ⟨rfl,rfl⟩ := Prod.mk.inj (Option.some.inj found)
      have left : s.dropWhile space ≠ [] := by
        intro none
        rw [none] at fence
        exact absurd fence (by decide)
      have whole := dropWhile_stable x left
      obtain ⟨later,split⟩ := List.isPrefixOf_iff_prefix.mp fence
      rw [List.cons_append, closing_cons_mark, whole, ← split, List.append_assoc,
        List.drop_left, List.drop_left]
      rw [whole, ← split, List.append_assoc, List.isPrefixOf_iff_prefix]
      exact List.prefix_append _ _
    · rw [closing_cons_other here] at found
      obtain ⟨r,later,same⟩ := Option.map_eq_some_iff.mp found
      obtain ⟨rfl,rfl⟩ := Prod.mk.inj same
      have other : ¬ (c = ']' ∧ fenceClose.isPrefixOf ((s ++ x).dropWhile space)) := by
        rw [fence_marked (closing_marked later)]
        exact here
      rw [List.cons_append, closing_cons_other other, ih later]
      rfl

theorem closing_split (found : closing s = some (inside,rest)) :
    ∃ front gap, inside = front ++ [']'] ∧ s = inside ++ gap ++ fenceClose ++ rest ∧
      gap.all space = true := by
  induction s generalizing inside with
  | nil => simp [closing] at found
  | cons c s ih =>
    by_cases here : c = ']' ∧ fenceClose.isPrefixOf (s.dropWhile space)
    · obtain ⟨rfl,fence⟩ := here
      rw [closing_cons_mark fence] at found
      obtain ⟨rfl,rfl⟩ := Prod.mk.inj (Option.some.inj found)
      obtain ⟨later,split⟩ := List.isPrefixOf_iff_prefix.mp fence
      refine ⟨[],s.takeWhile space,rfl,?_,?_⟩
      · rw [← split, List.drop_left, List.append_assoc, split, List.append_assoc,
          List.takeWhile_append_dropWhile]
        rfl
      · rw [List.all_eq_true]
        exact fun d member => List.mem_takeWhile_imp member
    · rw [closing_cons_other here] at found
      obtain ⟨r,later,same⟩ := Option.map_eq_some_iff.mp found
      obtain ⟨rfl,rfl⟩ := Prod.mk.inj same
      obtain ⟨front,gap,first,split,spaces⟩ := ih later
      exact ⟨c :: front,gap,by rw [first]; rfl,by rw [split]; rfl,spaces⟩

/-- A bracket that a fence follows closes a block, at that place or before. -/
theorem closing_exists (front : List Char) (fence : fenceClose.isPrefixOf (s.dropWhile space)) :
    ∃ r, closing (front ++ ']' :: s) = some r := by
  induction front with
  | nil => exact ⟨_,closing_cons_mark fence⟩
  | cons c front ih =>
    obtain ⟨r,found⟩ := ih
    by_cases here : c = ']' ∧ fenceClose.isPrefixOf ((front ++ ']' :: s).dropWhile space)
    · rw [List.cons_append, here.1]
      exact ⟨_,closing_cons_mark here.2⟩
    · rw [List.cons_append, closing_cons_other here, found]
      exact ⟨_,rfl⟩

end Closing

section Opening

variable {s body inside rest block : List Char} {c : Char}

theorem opening_fence (gap : List Char) (spaces : gap.all space = true) (body : List Char) :
    opening (fenceOpen ++ (gap ++ '[' :: body)) = some body := by
  have starts : fenceOpen.isPrefixOf (fenceOpen ++ (gap ++ '[' :: body)) = true := by
    rw [List.isPrefixOf_iff_prefix]
    exact List.prefix_append _ _
  have stop : ('[' :: body).dropWhile space = '[' :: body :=
    List.dropWhile_cons_of_neg (by decide)
  rw [opening, if_pos starts, List.drop_left,
    List.dropWhile_append_of_pos (List.all_eq_true.mp spaces), stop]
  rfl

theorem opening_split (found : opening s = some body) :
    ∃ gap, gap.all space = true ∧ s = fenceOpen ++ (gap ++ '[' :: body) := by
  unfold opening at found
  split_ifs at found with starts
  obtain ⟨later,rfl⟩ := List.isPrefixOf_iff_prefix.mp starts
  rw [List.drop_left] at found
  split at found
  · next rest stop =>
    obtain rfl := Option.some.inj found
    refine ⟨later.takeWhile space,?_,?_⟩
    · rw [List.all_eq_true]
      exact fun d member => List.mem_takeWhile_imp member
    · rw [← stop, List.takeWhile_append_dropWhile]
  · simp at found

theorem matchAt_eq (opens : opening s = some body) (closes : closing body = some (inside,rest)) :
    matchAt s = some ('[' :: inside,rest) := by
  rw [matchAt, opens]
  simp only [Option.bind_eq_bind, Option.bind_some, closes]
  rfl

theorem matchAt_none (opens : opening s = none) : matchAt s = none := by
  rw [matchAt, opens]
  rfl

theorem matchAt_open (opens : opening s = some body) (closes : closing body = none) :
    matchAt s = none := by
  rw [matchAt, opens]
  simp only [Option.bind_eq_bind, Option.bind_some, closes]
  rfl

theorem matchAt_some (matched : matchAt s = some (block,rest)) :
    ∃ body inside, opening s = some body ∧ closing body = some (inside,rest) ∧
      block = '[' :: inside := by
  simp only [matchAt, Option.bind_eq_bind, Option.bind_eq_some_iff] at matched
  obtain ⟨body,opens,⟨inside,later⟩,closes,same⟩ := matched
  obtain ⟨rfl,rfl⟩ := Prod.mk.inj (Option.some.inj same)
  exact ⟨body,inside,opens,closes,rfl⟩

theorem matchAt_length (matched : matchAt s = some (block,rest)) : rest.length < s.length := by
  obtain ⟨body,inside,opens,closes,rfl⟩ := matchAt_some matched
  obtain ⟨gap,_,rfl⟩ := opening_split opens
  obtain ⟨front,gap',rfl,rfl,_⟩ := closing_split closes
  simp only [List.length_append, List.length_cons]
  omega

theorem findallFrom_enough (n m : ℕ) (hn : s.length ≤ n) (hm : s.length ≤ m) :
    findallFrom n s = findallFrom m s := by
  induction n generalizing m s with
  | zero =>
    obtain rfl : s = [] := List.eq_nil_of_length_eq_zero (Nat.le_zero.mp hn)
    cases m <;> rfl
  | succ n ih =>
    match m, s with
    | 0, [] => rfl
    | m+1, [] => rfl
    | m+1, c :: s =>
      simp only [List.length_cons, Nat.add_le_add_iff_right] at hn hm
      rw [findallFrom, findallFrom]
      cases matched : matchAt (c :: s) with
      | none => exact ih m hn hm
      | some r =>
        have less := matchAt_length (show matchAt (c :: s) = some (r.1,r.2) from matched)
        simp only [List.length_cons] at less
        exact congrArg _ (ih m (by omega) (by omega))

theorem findall_none (c : Char) (s : List Char) (matched : matchAt (c :: s) = none) :
    findall (c :: s) = findall s := by
  rw [findall, List.length_cons, findallFrom, matched]
  rfl

theorem findall_some (matched : matchAt s = some (block,rest)) :
    findall s = block :: findall rest := by
  have less := matchAt_length matched
  match s with
  | [] => simp at less
  | c :: s =>
    simp only [List.length_cons] at less
    rw [findall, List.length_cons, findallFrom, matched]
    exact congrArg _ (findallFrom_enough _ _ (by omega) le_rfl)

/-- A text without an opening fence holds no block. -/
theorem findall_unfenced (s : List Char) (free : ¬ fenceOpen <:+: s) : findall s = [] := by
  induction s with
  | nil => rfl
  | cons c s ih =>
    have unmatched : opening (c :: s) = none := by
      rw [opening, if_neg]
      intro starts
      exact free (List.isPrefixOf_iff_prefix.mp starts).isInfix
    rw [findall_none c s (matchAt_none unmatched)]
    exact ih (fun later => free (later.trans (List.suffix_cons c s).isInfix))

end Opening

/-- No fence stands open behind the last block. -/
inductive Closed : List Char → Prop
  | nil : Closed []
  | skip (c : Char) (s : List Char) : opening (c :: s) = none → Closed s → Closed (c :: s)
  | block (s body inside rest : List Char) : opening s = some body →
      closing body = some (inside,rest) → Closed rest → Closed s

/-- The end of a line and the fence of the next block. -/
def fenceLine : List Char := '\n' :: fenceOpen

section Line

variable {s t body inside rest : List Char}

theorem fenceOpen_line (s x : List Char) :
    fenceOpen.isPrefixOf (s ++ (fenceLine ++ x)) = fenceOpen.isPrefixOf s :=
  isPrefixOf_foreign (by decide) s (fenceOpen ++ x)

/-- The fence of the next line opens nothing that an earlier fence has not opened. -/
theorem opening_line (s x : List Char) :
    opening (s ++ (fenceLine ++ x)) = (opening s).map (· ++ (fenceLine ++ x)) := by
  unfold opening
  rw [fenceOpen_line]
  by_cases starts : fenceOpen.isPrefixOf s = true
  · obtain ⟨later,rfl⟩ := List.isPrefixOf_iff_prefix.mp starts
    rw [if_pos starts, if_pos starts, List.append_assoc, List.drop_left, List.drop_left,
      List.dropWhile_append]
    cases stop : later.dropWhile space with
    | nil => rfl
    | cons d rest =>
      simp only [List.isEmpty_cons, Bool.false_eq_true, ↓reduceIte, List.cons_append]
      by_cases bracket : d = '['
      · subst bracket
        rfl
      · split
        · next same => exact absurd (List.cons.inj same).1 bracket
        · split
          · next same => exact absurd (List.cons.inj same).1 bracket
          · rfl
  · rw [if_neg starts, if_neg starts]
    rfl

theorem findall_closed (closed : Closed t) (x : List Char) :
    findall (t ++ (fenceLine ++ x)) = findall t ++ findall (fenceLine ++ x) := by
  induction closed with
  | nil => rfl
  | skip c s opens _ ih =>
    have later : opening (c :: (s ++ (fenceLine ++ x))) = none := by
      rw [← List.cons_append, opening_line, opens]
      rfl
    rw [List.cons_append, findall_none c _ (matchAt_none later), ih,
      findall_none c s (matchAt_none opens)]
  | block s body inside rest opens closes _ ih =>
    have later : opening (s ++ (fenceLine ++ x)) = some (body ++ (fenceLine ++ x)) := by
      rw [opening_line, opens]
      rfl
    rw [findall_some (matchAt_eq later (closing_append closes _)), ih,
      findall_some (matchAt_eq opens closes)]
    rfl

end Line

/-- The text of an array holds no closing fence behind one of its brackets. -/
def Quiet (array : List Char) : Prop := ∀ front back, array = front ++ ']' :: back →
  fenceClose.isPrefixOf (back.dropWhile space) = false

/-- A text, the next line's fence, an array with white space around it, and the closing fence. -/
def report (t gap array gap' : List Char) : List Char :=
  t ++ (fenceLine ++ (gap ++ (array ++ (gap' ++ fenceClose))))

section Final

variable {t gap gap' inside block rest x : List Char}

theorem closing_last (quiet : Quiet (inside ++ [']'])) (spaces : gap.all space = true) :
    closing (inside ++ ']' :: (gap ++ fenceClose)) = some (inside ++ [']'],[]) := by
  induction inside with
  | nil =>
    have stop : (gap ++ fenceClose).dropWhile space = fenceClose := by
      rw [List.dropWhile_append_of_pos (List.all_eq_true.mp spaces)]
      rfl
    rw [List.nil_append, closing_cons_mark (by rw [stop]; rfl), stop]
    rfl
  | cons c inside ih =>
    have later : Quiet (inside ++ [']']) := by
      intro front back same
      exact quiet (c :: front) back (by rw [List.cons_append, same]; rfl)
    have marked : ']' ∈ inside ++ [']'] := by simp
    have other : ¬ (c = ']' ∧
        fenceClose.isPrefixOf ((inside ++ ']' :: (gap ++ fenceClose)).dropWhile space)) := by
      rintro ⟨rfl,fence⟩
      rw [List.append_cons, fence_marked marked, quiet [] (inside ++ [']']) rfl] at fence
      exact Bool.noConfusion fence
    rw [List.cons_append, closing_cons_other other, ih later]
    rfl

theorem findall_line (x : List Char) : findall (fenceLine ++ x) = findall (fenceOpen ++ x) :=
  findall_none '\n' (fenceOpen ++ x) (matchAt_none rfl)

theorem findall_block (spaces : gap.all space = true)
    (closes : closing x = some (block,rest)) :
    findall (fenceLine ++ (gap ++ '[' :: x)) = ('[' :: block) :: findall rest := by
  rw [findall_line, findall_some (matchAt_eq (opening_fence gap spaces _) closes)]

/-- The block behind a closed text is the last one found. -/
theorem findall_report (closed : Closed t) (quiet : Quiet ('[' :: (inside ++ [']'])))
    (spaces : gap.all space = true) (spaces' : gap'.all space = true) :
    findall (report t gap ('[' :: (inside ++ [']'])) gap') =
      findall t ++ ['[' :: (inside ++ [']'])] := by
  have later : Quiet (inside ++ [']']) := by
    intro front back same
    exact quiet ('[' :: front) back (by rw [same]; rfl)
  have closes := closing_last later spaces'
  rw [report, findall_closed closed]
  congr 1
  rw [List.cons_append, ← List.append_cons, findall_block spaces closes]
  rfl

end Final

section Open

variable {t body inside rest : List Char}

/-- A bracket that only white space follows is closed by the fence of the next line. -/
theorem fence_line (s x : List Char) :
    fenceClose.isPrefixOf ((s ++ (fenceLine ++ x)).dropWhile space) =
      (fenceClose.isPrefixOf (s.dropWhile space) || s.all space) := by
  by_cases spaces : s.all space = true
  · rw [List.dropWhile_append_of_pos (List.all_eq_true.mp spaces), spaces, Bool.or_true]
    rfl
  · have left : s.dropWhile space ≠ [] := by
      intro none
      exact spaces (List.all_eq_true.mpr (List.dropWhile_eq_nil_iff.mp none))
    rw [dropWhile_stable _ left, Bool.eq_false_iff.mpr spaces, Bool.or_false]
    exact isPrefixOf_foreign (by decide) _ (fenceOpen ++ x)

theorem closing_fenceLine (x : List Char) :
    closing (fenceLine ++ x) = (closing x).map (fun r => (fenceLine ++ r.1,r.2)) := by
  simp only [fenceLine, fenceOpen, List.cons_append, List.nil_append]
  iterate 8 rw [closing_cons_plain (by decide)]
  simp only [Option.map_map]
  rfl

/-- An open block either ends at the next line's fence or runs over it. -/
theorem closing_line (unclosed : closing body = none) :
    (∃ inside, ∀ x, closing (body ++ (fenceLine ++ x)) = some (inside,['j','s','o','n'] ++ x)) ∨
    ∀ x, closing (body ++ (fenceLine ++ x)) =
      (closing x).map (fun r => (body ++ (fenceLine ++ r.1),r.2)) := by
  induction body with
  | nil => exact Or.inr closing_fenceLine
  | cons c body ih =>
    have quiet : ¬ (c = ']' ∧ fenceClose.isPrefixOf (body.dropWhile space)) := by
      rintro ⟨rfl,fence⟩
      rw [closing_cons_mark fence] at unclosed
      exact Option.some_ne_none _ unclosed
    rw [closing_cons_other quiet, Option.map_eq_none_iff] at unclosed
    by_cases here : c = ']' ∧ body.all space = true
    · obtain ⟨rfl,spaces⟩ := here
      refine Or.inl ⟨[']'],fun x => ?_⟩
      have fence := fence_line body x
      rw [spaces, Bool.or_true] at fence
      rw [List.cons_append, closing_cons_mark fence,
        List.dropWhile_append_of_pos (List.all_eq_true.mp spaces)]
      rfl
    · have other : ∀ x, ¬ (c = ']' ∧
          fenceClose.isPrefixOf ((body ++ (fenceLine ++ x)).dropWhile space)) := by
        rintro x ⟨rfl,fence⟩
        rw [fence_line, Bool.or_eq_true] at fence
        rcases fence with fence | spaces
        · exact quiet ⟨rfl,fence⟩
        · exact here ⟨rfl,spaces⟩
      rcases ih unclosed with ⟨inside,crossing⟩ | beyond
      · refine Or.inl ⟨c :: inside,fun x => ?_⟩
        rw [List.cons_append, closing_cons_other (other x), crossing]
        rfl
      · refine Or.inr (fun x => ?_)
        rw [List.cons_append, closing_cons_other (other x), beyond, Option.map_map]
        rfl

/-- Behind an open fence the last block is not found on its own. -/
theorem findall_open (t : List Char) (unclosed : ¬ Closed t) : ∃ base body, closing body = none ∧
    ∀ x inside rest, closing (body ++ (fenceLine ++ x)) = some (inside,rest) →
      findall (t ++ (fenceLine ++ x)) = base ++ ('[' :: inside) :: findall rest := by
  induction n : t.length using Nat.strong_induction_on generalizing t with
  | h n ih =>
    subst n
    cases opens : opening t with
    | none =>
      match t with
      | [] => exact absurd Closed.nil unclosed
      | c :: s =>
        have later : ¬ Closed s := fun closed => unclosed (.skip c s opens closed)
        obtain ⟨base,body,dangling,found⟩ := ih s.length (by simp) s later rfl
        refine ⟨base,body,dangling,fun x inside rest closes => ?_⟩
        have next : opening (c :: (s ++ (fenceLine ++ x))) = none := by
          rw [← List.cons_append, opening_line, opens]
          rfl
        rw [List.cons_append, findall_none c _ (matchAt_none next)]
        exact found x inside rest closes
    | some body =>
      have next : ∀ x, opening (t ++ (fenceLine ++ x)) = some (body ++ (fenceLine ++ x)) := by
        intro x
        rw [opening_line, opens]
        rfl
      cases closes : closing body with
      | none =>
        refine ⟨[],body,closes,fun x inside rest found => ?_⟩
        exact findall_some (matchAt_eq (next x) found)
      | some r =>
        obtain ⟨block,rest⟩ := r
        have later : ¬ Closed rest :=
          fun closed => unclosed (.block t body block rest opens closes closed)
        have less := matchAt_length (matchAt_eq opens closes)
        obtain ⟨base,body',dangling,found⟩ := ih rest.length less rest later rfl
        refine ⟨('[' :: block) :: base,body',dangling,fun x inside rest' closes' => ?_⟩
        rw [findall_some (matchAt_eq (next x) (closing_append closes _)),
          found x inside rest' closes']
        rfl

end Open

end BenchmarkFindings

end EvidenceV4
