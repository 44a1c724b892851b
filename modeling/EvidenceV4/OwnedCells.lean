import Mathlib.Logic.Function.Basic

/-!
# Cells with owners

An actor changes only cells that are free or its own, and leaves them free or its
own. What others own stays where it is, and what they own afterwards was there
before.
-/

set_option autoImplicit false

namespace OwnedCells

variable {κ α σ : Type} {owner : α → σ} {actor other : σ} {before middle after : κ → Option α}
  {cell : κ} {content : α}

def Acts (owner : α → σ) (actor : σ) (before after : κ → Option α) : Prop :=
  ∀ cell, after cell = before cell ∨
    (∀ c, before cell = some c → owner c = actor) ∧ ∀ c, after cell = some c → owner c = actor

theorem Acts.refl : Acts owner actor before before := fun _ => .inl rfl

theorem Acts.kept (acts : Acts owner actor before after) (held : before cell = some content)
    (foreign : owner content ≠ actor) : after cell = some content := by
  cases acts cell with
  | inl same => rw [same, held]
  | inr own => exact absurd (own.1 content held) foreign

theorem Acts.came (acts : Acts owner actor before after) (held : after cell = some content)
    (foreign : owner content ≠ actor) : before cell = some content := by
  cases acts cell with
  | inl same => rw [← same, held]
  | inr own => exact absurd (own.2 content held) foreign

theorem acts_update [DecidableEq κ] {value : Option α}
    (own : ∀ c, before cell = some c → owner c = actor) (left : ∀ c, value = some c → owner c = actor) :
    Acts owner actor before (Function.update before cell value) := by
  intro place
  by_cases same : place = cell
  · subst same
    rw [Function.update_self]
    exact .inr ⟨own,left⟩
  · exact .inl (Function.update_of_ne same _ _)

end OwnedCells
