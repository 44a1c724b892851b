import Mathlib.Data.List.Basic

/-!
# Runs of a labelled transition system

A step function takes a label to the next state, or refuses it. A run may be
asked to meet a condition at each step, on the state before it and on the
label. What holds at the start and is kept by every step that meets the
condition holds in every state that such a run reaches.
-/

set_option autoImplicit false

namespace TransitionRun

variable {σ ℓ : Type*}

/-- The states that runs from `init` reach when every step meets the condition. -/
inductive Reaches (step : σ → ℓ → Option σ) (allowed : σ → ℓ → Prop) (init : σ) : σ → Prop
  | start : Reaches step allowed init init
  | next {s s' : σ} (label : ℓ) : Reaches step allowed init s → allowed s label →
      step s label = some s' → Reaches step allowed init s'

/-- No condition on the steps. -/
def Free : σ → ℓ → Prop := fun _ _ => True

variable {step : σ → ℓ → Option σ} {allowed : σ → ℓ → Prop} {init : σ} {P : σ → Prop}

theorem Reaches.invariant {s : σ} (h : Reaches step allowed init s) (start : P init)
    (keeps : ∀ s label s', P s → allowed s label → step s label = some s' → P s') : P s := by
  induction h with
  | start => exact start
  | next label _ ok moved ih => exact keeps _ label _ ih ok moved

theorem Reaches.free {s : σ} (h : Reaches step allowed init s) : Reaches step Free init s := by
  induction h with
  | start => exact .start
  | next label _ _ moved ih => exact .next label ih trivial moved

/-- The state that a list of labels leads to. -/
def run (step : σ → ℓ → Option σ) : List ℓ → σ → Option σ
  | [], s => some s
  | label :: rest, s => (step s label).bind (run step rest)

/-- Every step of the run along the labels meets the condition. -/
def Meets (step : σ → ℓ → Option σ) (allowed : σ → ℓ → Prop) : List ℓ → σ → Prop
  | [], _ => True
  | label :: rest, s => allowed s label ∧ ∀ s' ∈ step s label, Meets step allowed rest s'

instance (step : σ → ℓ → Option σ) (allowed : σ → ℓ → Prop)
    [∀ s label, Decidable (allowed s label)] :
    (labels : List ℓ) → (s : σ) → Decidable (Meets step allowed labels s)
  | [], _ => inferInstanceAs (Decidable True)
  | label :: rest, s =>
    match found : step s label with
    | none => decidable_of_iff (allowed s label) (by simp [Meets, found])
    | some s' =>
      have := instDecidableMeets step allowed rest s'
      decidable_of_iff (allowed s label ∧ Meets step allowed rest s') (by simp [Meets, found])

theorem reaches_run {labels : List ℓ} {s s' : σ} (h : Reaches step allowed init s)
    (meets : Meets step allowed labels s) (ran : run step labels s = some s') :
    Reaches step allowed init s' := by
  induction labels generalizing s with
  | nil =>
    obtain rfl := Option.some.inj ran
    exact h
  | cons label rest ih =>
    obtain ⟨mid,moved,ran⟩ := Option.bind_eq_some_iff.mp ran
    exact ih (.next label h meets.1 moved) (meets.2 mid moved) ran

theorem meets_free (labels : List ℓ) (s : σ) : Meets step Free labels s := by
  induction labels generalizing s with
  | nil => trivial
  | cons label rest ih => exact ⟨trivial,fun s' _ => ih s'⟩

end TransitionRun
