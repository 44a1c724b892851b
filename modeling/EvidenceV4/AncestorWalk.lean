import Mathlib.Data.List.Infix
import Mathlib.Data.List.Induction

/-!
# The nearest setting on the way up

A place is the list of the names that lead to it from the root. Some places
carry entries, some carry a mark. The walk starts at a place and goes up until
one carries either, and an entry wins over a mark of the same place. Nothing here
depends on what names, entries and marks are.
-/

set_option autoImplicit false

namespace AncestorWalk

variable {ν τ : Type} {entry : List ν → τ → Prop} {mark : List ν → Option τ}
  {p q d : List ν} {t : τ}

inductive Nearest (entry : List ν → τ → Prop) (mark : List ν → Option τ) : List ν → τ → Prop
  | entry {d : List ν} {t : τ} (here : entry d t) : Nearest entry mark d t
  | mark {d : List ν} {t : τ} (bare : ∀ u, ¬entry d u) (here : mark d = some t) :
      Nearest entry mark d t
  | up {d : List ν} {t : τ} (below : d ≠ []) (bare : ∀ u, ¬entry d u) (unmarked : mark d = none)
      (above : Nearest entry mark d.dropLast t) : Nearest entry mark d t

/-- No place strictly below `p` on the way down to `d` carries anything. -/
def Quiet (entry : List ν → τ → Prop) (mark : List ν → Option τ) (p d : List ν) : Prop :=
  ∀ x, p <+: x → x <+: d → x ≠ p → (∀ u, ¬entry x u) ∧ mark x = none

theorem nearest_entry (found : ∃ u, entry d u) : Nearest entry mark d t ↔ entry d t := by
  constructor
  · intro walk
    cases walk with
    | entry here => exact here
    | mark bare _ => exact absurd found.choose_spec (bare _)
    | up _ bare _ _ => exact absurd found.choose_spec (bare _)
  · exact Nearest.entry

theorem nearest_mark (bare : ∀ u, ¬entry d u) {u : τ} (found : mark d = some u) :
    Nearest entry mark d t ↔ t = u := by
  constructor
  · intro walk
    cases walk with
    | entry here => exact absurd here (bare t)
    | mark _ here => exact Option.some.inj (here.symm.trans found)
    | up _ _ unmarked _ => exact absurd (unmarked.symm.trans found) (by simp)
  · intro same
    exact .mark bare (same ▸ found)

theorem nearest_up {n : ν} (bare : ∀ u, ¬entry (d ++ [n]) u) (unmarked : mark (d ++ [n]) = none) :
    Nearest entry mark (d ++ [n]) t ↔ Nearest entry mark d t := by
  constructor
  · intro walk
    generalize place : d ++ [n] = e at walk
    cases walk with
    | entry here => exact absurd (place ▸ here) (bare t)
    | mark _ here => exact absurd (unmarked.symm.trans (place ▸ here)) (by simp)
    | up _ _ _ above =>
      have parent : e.dropLast = d := by rw [← place, List.dropLast_concat]
      exact parent ▸ above
  · intro above
    refine .up (by simp) bare unmarked ?_
    rwa [List.dropLast_concat]

/-- The walk passes the places that carry nothing. -/
theorem nearest_quiet (within : p <+: d) (quiet : Quiet entry mark p d) :
    Nearest entry mark d t ↔ Nearest entry mark p t := by
  have ⟨tail,split⟩ := within
  subst split
  induction tail using List.reverseRecOn with
  | nil => rw [List.append_nil]
  | append_singleton tail n ih =>
    have last := quiet (p ++ (tail ++ [n])) (List.prefix_append _ _) List.prefix_rfl (by simp)
    have above : Quiet entry mark p (p ++ tail) := fun x low high apart =>
      quiet x low (high.trans ⟨[n],by simp⟩) apart
    rw [← List.append_assoc] at last ⊢
    rw [nearest_up last.1 last.2]
    exact ih (List.prefix_append _ _) above

/-- The lowest of some places on the way down to `d`. -/
theorem exists_lowest {held : List ν → Prop} (some_held : ∃ p, held p ∧ p <+: d) :
    ∃ p, held p ∧ p <+: d ∧ ∀ q, held q → q <+: d → q <+: p := by
  induction d using List.reverseRecOn with
  | nil =>
    have ⟨p,here,within⟩ := some_held
    exact ⟨p,here,within,fun q _ high => high.trans (List.nil_prefix)⟩
  | append_singleton d n ih =>
    by_cases here : held (d ++ [n])
    · exact ⟨d ++ [n],here,List.prefix_rfl,fun q _ high => high⟩
    · have above : ∀ q, held q → q <+: d ++ [n] → q <+: d := by
        intro q at_q high
        rcases List.prefix_concat_iff.mp high with same | high
        · exact absurd (same ▸ at_q) here
        · exact high
      have ⟨p,at_p,within⟩ := some_held
      have ⟨p,at_p,within,lowest⟩ := ih ⟨p,at_p,above p at_p within⟩
      exact ⟨p,at_p,within.trans (List.prefix_append _ _),fun q at_q high =>
        lowest q at_q (above q at_q high)⟩

end AncestorWalk
