import Mathlib.Data.List.DropRight

/-!
# Texts in another alphabet

A code writes every letter as a nonempty word so that a word can be told from
the letters behind it. Operations on texts commute with such a code when the
letters they look for are written as single symbols: stripping, splitting at a
symbol, splitting at line breaks, prefixes and equality.
-/

set_option autoImplicit false

namespace TextCode

variable {α β : Type}

structure Code (α β : Type) where
  word : α → List β
  filled : ∀ a, word a ≠ []
  separate : ∀ a b x y, word a ++ x = word b ++ y → a = b

def Code.text (k : Code α β) (s : List α) : List β := s.flatMap k.word

/-- The letters with `p` are single symbols with `q`, and no other word has such a symbol. -/
def Code.Marks (k : Code α β) (p : α → Bool) (q : β → Bool) : Prop :=
  ∀ a, (p a = true → ∃ u, k.word a = [u] ∧ q u = true) ∧
    (p a = false → ∀ u ∈ k.word a, q u = false)

/-- Put a letter in front of the first piece. -/
def consHead (c : α) : List (List α) → List (List α)
  | [] => [[c]]
  | piece :: rest => (c :: piece) :: rest

/-- The pieces between single symbols. -/
def splitAt (p : α → Bool) : List α → List (List α)
  | [] => [[]]
  | c :: rest => if p c then [] :: splitAt p rest else consHead c (splitAt p rest)

/-- The pieces between line feeds, each of which may have one carriage return before it. -/
def splitBreaks (cr lf : α → Bool) : List α → List (List α)
  | [] => [[]]
  | c :: rest =>
    if lf c then [] :: splitBreaks cr lf rest
    else if cr c then
      match rest with
      | [] => [[c]]
      | d :: rest =>
        if lf d then [] :: splitBreaks cr lf rest
        else consHead c (splitBreaks cr lf (d :: rest))
    else consHead c (splitBreaks cr lf rest)

def strip (p : α → Bool) (s : List α) : List α := (s.dropWhile p).rdropWhile p

section Pieces

theorem splitAt_ne_nil (p : α → Bool) (s : List α) : splitAt p s ≠ [] := by
  induction s with
  | nil => simp [splitAt]
  | cons c s ih =>
    rw [splitAt]
    split_ifs
    · simp
    · cases e : splitAt p s <;> simp [consHead]

theorem splitBreaks_ne_nil (cr lf : α → Bool) (s : List α) : splitBreaks cr lf s ≠ [] := by
  have filled : ∀ (c : α) ps, consHead c ps ≠ [] := by
    intro c ps
    cases ps <;> simp [consHead]
  unfold splitBreaks
  split
  · simp
  · split_ifs
    · simp
    · split
      · simp
      · split_ifs
        · simp
        · exact filled _ _
    · exact filled _ _

end Pieces

section Coded

variable (k : Code α β)

@[simp] theorem text_nil : k.text [] = [] := rfl

@[simp] theorem text_cons (a : α) (s : List α) : k.text (a :: s) = k.word a ++ k.text s := rfl

@[simp] theorem text_append (s t : List α) : k.text (s ++ t) = k.text s ++ k.text t :=
  List.flatMap_append

theorem text_eq_nil {s : List α} : k.text s = [] ↔ s = [] := by
  cases s with
  | nil => simp
  | cons a s => simp [k.filled a]

theorem prefix_text (s t : List α) : k.text s <+: k.text t ↔ s <+: t := by
  induction s generalizing t with
  | nil => simp
  | cons a s ih =>
    cases t with
    | nil => simp [k.filled a]
    | cons b t =>
      rw [List.cons_prefix_cons]
      constructor
      · rintro ⟨more,e⟩
        rw [text_cons, text_cons, List.append_assoc] at e
        obtain rfl := k.separate a b _ _ e
        exact ⟨rfl,(ih t).mp ⟨more,List.append_cancel_left e⟩⟩
      · rintro ⟨rfl,below⟩
        rw [text_cons, text_cons, List.prefix_append_right_inj]
        exact (ih t).mpr below

theorem text_injective : Function.Injective k.text := by
  intro s t e
  have left := (prefix_text k s t).mp (e ▸ List.prefix_rfl)
  have right := (prefix_text k t s).mp (e ▸ List.prefix_rfl)
  exact left.eq_of_length_le right.length_le

theorem text_inj {s t : List α} : k.text s = k.text t ↔ s = t := (text_injective k).eq_iff

theorem mem_map_text {s : List α} {ts : List (List α)} : k.text s ∈ ts.map k.text ↔ s ∈ ts := by
  constructor
  · intro h
    obtain ⟨t,ht,e⟩ := List.mem_map.mp h
    exact text_injective k e ▸ ht
  · exact List.mem_map_of_mem

variable {k} {p : α → Bool} {q : β → Bool}

theorem Code.Marks.dropWhile (h : k.Marks p q) (s : List α) :
    (k.text s).dropWhile q = k.text (s.dropWhile p) := by
  induction s with
  | nil => rfl
  | cons a s ih =>
    cases marked : p a with
    | true =>
      obtain ⟨u,e,hu⟩ := (h a).1 marked
      simp [e, hu, ih, marked]
    | false =>
      obtain ⟨u,us,e⟩ := List.exists_cons_of_ne_nil (k.filled a)
      have hu := (h a).2 marked u (by simp [e])
      simp [e, hu, marked]

theorem Code.Marks.rdropWhile (h : k.Marks p q) (s : List α) :
    (k.text s).rdropWhile q = k.text (s.rdropWhile p) := by
  induction s using List.reverseRecOn with
  | nil => simp
  | append_singleton s a ih =>
    rw [text_append, text_cons, text_nil, List.append_nil]
    cases marked : p a with
    | true =>
      obtain ⟨u,e,hu⟩ := (h a).1 marked
      rw [e, List.rdropWhile_concat_pos _ _ _ hu, List.rdropWhile_concat_pos _ _ _ marked, ih]
    | false =>
      obtain ⟨us,u,e⟩ := List.eq_nil_or_concat (k.word a) |>.resolve_left (k.filled a)
      have hu := (h a).2 marked u (by simp [e])
      rw [e, List.concat_eq_append, ← List.append_assoc,
        List.rdropWhile_concat_neg _ _ _ (by simp [hu]),
        List.rdropWhile_concat_neg _ _ _ (by simp [marked]), text_append, text_cons, text_nil,
        List.append_nil, e, List.concat_eq_append, List.append_assoc]

theorem Code.Marks.strip (h : k.Marks p q) (s : List α) :
    TextCode.strip q (k.text s) = k.text (TextCode.strip p s) := by
  rw [TextCode.strip, TextCode.strip, h.dropWhile, h.rdropWhile]

theorem splitAt_plain {us : List β} (plain : ∀ u ∈ us, q u = false) (s : List β) :
    splitAt q (us ++ s) = us.foldr consHead (splitAt q s) := by
  induction us with
  | nil => rfl
  | cons u us ih =>
    rw [List.forall_mem_cons] at plain
    rw [List.cons_append, splitAt, if_neg (by simp [plain.1]), ih plain.2]
    rfl

theorem foldr_consHead (us : List β) {ps : List (List β)} (filled : ps ≠ []) :
    us.foldr consHead ps = ps.modifyHead (us ++ ·) := by
  obtain ⟨p,ps,rfl⟩ := List.exists_cons_of_ne_nil filled
  induction us with
  | nil => rfl
  | cons u us ih => simp [List.foldr_cons, ih, consHead]

theorem modifyHead_text (a : α) {ps : List (List α)} (filled : ps ≠ []) :
    (ps.map k.text).modifyHead (k.word a ++ ·) = (consHead a ps).map k.text := by
  obtain ⟨p,ps,rfl⟩ := List.exists_cons_of_ne_nil filled
  simp [consHead]

theorem Code.Marks.splitAt (h : k.Marks p q) (s : List α) :
    TextCode.splitAt q (k.text s) = (TextCode.splitAt p s).map k.text := by
  induction s with
  | nil => rfl
  | cons a s ih =>
    rw [TextCode.splitAt, text_cons]
    cases marked : p a with
    | true =>
      obtain ⟨u,e,hu⟩ := (h a).1 marked
      simp [e, TextCode.splitAt, hu, ih]
    | false =>
      have filled := splitAt_ne_nil p s
      rw [splitAt_plain ((h a).2 marked), ih, foldr_consHead _ (by simp [filled]),
        modifyHead_text a filled]
      rfl

theorem splitBreaks_feed {cr lf : α → Bool} {c : α} (s : List α) (feed : lf c = true) :
    splitBreaks cr lf (c :: s) = [] :: splitBreaks cr lf s := by
  rw [splitBreaks.eq_def]
  simp [feed]

theorem splitBreaks_pair {cr lf : α → Bool} {c d : α} (s : List α) (plain : lf c = false)
    (carriage : cr c = true) (feed : lf d = true) :
    splitBreaks cr lf (c :: d :: s) = [] :: splitBreaks cr lf s := by
  rw [splitBreaks.eq_def]
  simp [plain, carriage, feed]

/-- A letter that neither is a line feed nor starts a pair with one. -/
theorem splitBreaks_plain {cr lf : α → Bool} {c : α} (s : List α) (plain : lf c = false)
    (alone : cr c = true → ∀ d rest, s = d :: rest → lf d = false) :
    splitBreaks cr lf (c :: s) = consHead c (splitBreaks cr lf s) := by
  rw [splitBreaks.eq_def]
  by_cases carriage : cr c = true
  · cases s with
    | nil => simp [plain, carriage, splitBreaks, consHead]
    | cons d rest => simp [plain, carriage, alone carriage d rest rfl]
  · simp [plain, carriage]

theorem splitBreaks_word {cr lf : β → Bool} {us : List β}
    (plain : ∀ u ∈ us, cr u = false ∧ lf u = false) (s : List β) :
    splitBreaks cr lf (us ++ s) = us.foldr consHead (splitBreaks cr lf s) := by
  induction us with
  | nil => rfl
  | cons u us ih =>
    rw [List.forall_mem_cons] at plain
    rw [List.cons_append, splitBreaks_plain _ plain.1.2 (by simp [plain.1.1]), ih plain.2]
    rfl

/-- Splitting at line breaks before or after writing the text in the code. -/
theorem splitBreaks_text {cr lf : α → Bool} {cr' lf' : β → Bool} (hcr : k.Marks cr cr')
    (hlf : k.Marks lf lf') (s : List α) :
    splitBreaks cr' lf' (k.text s) = (splitBreaks cr lf s).map k.text := by
  induction s using splitBreaks.induct cr lf with
  | case1 => rfl
  | case2 c s feed ih =>
    obtain ⟨u,e,hu⟩ := (hlf c).1 feed
    rw [splitBreaks_feed s feed, text_cons, e, List.singleton_append, splitBreaks_feed _ hu, ih]
    rfl
  | case3 c plain carriage =>
    obtain ⟨u,e,_⟩ := (hcr c).1 carriage
    have plain' : lf' u = false := (hlf c).2 (by simpa using plain) u (by simp [e])
    rw [splitBreaks_plain [] (by simpa using plain) (by simp), text_cons, e, text_nil,
      List.singleton_append, splitBreaks_plain [] plain' (by simp)]
    simp [splitBreaks, consHead, e]
  | case4 c plain carriage d s feed ih =>
    obtain ⟨u,e,hu⟩ := (hcr c).1 carriage
    obtain ⟨v,e',hv⟩ := (hlf d).1 feed
    have plain' : lf' u = false := (hlf c).2 (by simpa using plain) u (by simp [e])
    rw [splitBreaks_pair s (by simpa using plain) carriage feed, text_cons, text_cons, e, e',
      List.singleton_append, List.singleton_append, splitBreaks_pair _ plain' hu hv, ih]
    rfl
  | case5 c plain carriage d s apart ih =>
    obtain ⟨u,e,hu⟩ := (hcr c).1 carriage
    have plain' : lf' u = false := (hlf c).2 (by simpa using plain) u (by simp [e])
    obtain ⟨v,vs,e'⟩ := List.exists_cons_of_ne_nil (k.filled d)
    have apart' : lf' v = false := (hlf d).2 (by simpa using apart) v (by simp [e'])
    have head : ∀ x rest, k.text (d :: s) = x :: rest → lf' x = false := by
      intro x rest same
      rw [text_cons, e'] at same
      rw [← (List.cons.inj same).1]
      exact apart'
    rw [splitBreaks_plain (d :: s) (by simpa using plain) (by simp [apart]), text_cons k c, e,
      List.singleton_append, splitBreaks_plain _ plain' (fun _ => head), ih,
      ← modifyHead_text c (splitBreaks_ne_nil _ _ _), e]
    exact foldr_consHead [u] (by simp [splitBreaks_ne_nil])
  | case6 c s plain carriage ih =>
    have symbols : ∀ u ∈ k.word c, cr' u = false ∧ lf' u = false := fun u hu =>
      ⟨(hcr c).2 (by simpa using carriage) u hu,(hlf c).2 (by simpa using plain) u hu⟩
    rw [splitBreaks_plain s (by simpa using plain) (by simp [carriage]), text_cons,
      splitBreaks_word symbols, ih, foldr_consHead _ (by simp [splitBreaks_ne_nil]),
      modifyHead_text c (splitBreaks_ne_nil _ _ _)]

end Coded

end TextCode
