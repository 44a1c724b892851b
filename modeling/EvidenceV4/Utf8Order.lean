import EvidenceV4.Schema

/-!
# Order of encoded names

Names are compared by their encoded bytes. Two names joined by a separator that
is below every byte of the first one compare like the pair of names, so a sort
by pairs leaves the joined keys ascending.
-/

set_option autoImplicit false

namespace EvidenceV4

namespace Utf8Order

open Schema

section Separator

variable {α : Type*} [LT α] {z : α}

/-- A separator below every letter of the first part decides before the second part does. -/
theorem append_separator_lt {a b : List α} (s t : List α) (hb : ∀ x ∈ b, z < x) (h : a < b) :
    a ++ z :: s < b ++ z :: t := by
  induction a generalizing b with
  | nil =>
    cases b with
    | nil => exact absurd h (List.not_lt_nil _)
    | cons y b => exact List.cons_lt_cons_iff.mpr (Or.inl (hb y List.mem_cons_self))
  | cons x a ih =>
    cases b with
    | nil => exact absurd h (List.not_lt_nil _)
    | cons y b =>
      rcases List.cons_lt_cons_iff.mp h with first | ⟨same,later⟩
      · exact List.cons_lt_cons_iff.mpr (Or.inl first)
      · apply List.cons_lt_cons_iff.mpr
        exact Or.inr ⟨same,ih (fun x hx => hb x (List.mem_cons_of_mem _ hx)) later⟩

theorem append_separator_lt_same (a : List α) {s t : List α} (h : s < t) :
    a ++ z :: s < a ++ z :: t := by
  apply List.append_left_lt
  exact List.cons_lt_cons_iff.mpr (Or.inr ⟨rfl,h⟩)

end Separator

theorem utf8Bytes_append (a b : String) : utf8Bytes (a ++ b) = utf8Bytes a ++ utf8Bytes b := by
  simp [utf8Bytes, String.toUTF8]

theorem utf8Bytes_ofList (cs : List Char) :
    utf8Bytes (String.ofList cs) = cs.flatMap String.utf8EncodeChar := by
  simp [utf8Bytes, String.toUTF8, List.utf8Encode]

theorem utf8Bytes_eq (a : String) : utf8Bytes a = a.toList.flatMap String.utf8EncodeChar := by
  rw [← utf8Bytes_ofList, String.ofList_toList]

theorem utf8Bytes_injective : Function.Injective utf8Bytes := by
  intro a b h
  apply String.toByteArray_inj.mp
  apply ByteArray.ext
  exact Array.toList_inj.mp h

theorem utf8Bytes_trichotomy (a b : String) :
    utf8Bytes a < utf8Bytes b ∨ a = b ∨ utf8Bytes b < utf8Bytes a := by
  by_cases more : utf8Bytes b < utf8Bytes a
  · exact Or.inr (Or.inr more)
  · rcases List.le_iff_lt_or_eq.mp (List.not_lt.mp more) with less | same
    · exact Or.inl less
    · exact Or.inr (Or.inl (utf8Bytes_injective same))

theorem utf8Compare_eq {a b : String} : utf8Compare a b = .eq ↔ a = b := by
  unfold utf8Compare
  split_ifs with less same
  · simp only [false_iff]
    rintro rfl
    exact List.lt_irrefl _ less
  · simp [utf8Bytes_injective same]
  · simp only [false_iff]
    rintro rfl
    exact same rfl

theorem utf8Compare_gt {a b : String} : utf8Compare a b = .gt ↔ utf8Bytes b < utf8Bytes a := by
  unfold utf8Compare
  split_ifs with less same
  · simp [List.lt_asymm less]
  · simp [same, List.lt_irrefl]
  · rcases utf8Bytes_trichotomy a b with h | h | h
    · exact absurd h less
    · exact absurd (congrArg utf8Bytes h) same
    · simp [h]

theorem utf8Compare_ne_gt (a b : String) :
    (utf8Compare a b != .gt) = true ↔ utf8Bytes a ≤ utf8Bytes b := by
  rw [bne_iff_ne, ne_eq, utf8Compare_gt]
  exact List.not_lt

theorem utf8Bytes_antisymm {a b : String} (h₁ : utf8Bytes a ≤ utf8Bytes b)
    (h₂ : utf8Bytes b ≤ utf8Bytes a) : a = b :=
  utf8Bytes_injective (List.le_antisymm h₁ h₂)

theorem ascending_of_pairwise {keys : List String}
    (h : keys.Pairwise (fun a b => utf8Bytes a < utf8Bytes b)) : Ascending keys := by
  induction keys with
  | nil => trivial
  | cons a rest ih =>
    rw [List.pairwise_cons] at h
    cases rest with
    | nil => trivial
    | cons b rest => exact ⟨utf8Compare_lt.mpr (h.1 b List.mem_cons_self),ih h.2⟩

end Utf8Order

end EvidenceV4
