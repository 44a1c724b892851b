import EvidenceV4.Raising

/-!
# Pre- and postconditions of computations that raise

A triple says what holds of the state behind a run, with one condition for a run
that succeeds and one for a run that raises. A loop carries an invariant about the
entries it has done.
-/

set_option autoImplicit false

namespace Raising

variable {ε σ α β ι : Type}

def Triple (before : σ → Prop) (x : Raising ε σ α) (after : α → σ → Prop) (raised : σ → Prop) : Prop :=
  ∀ s, before s → match x s with
    | (.ok a,s') => after a s'
    | (.error _,s') => raised s'

variable {before : σ → Prop} {x : Raising ε σ α} {after : α → σ → Prop} {raised : σ → Prop}

theorem triple_ok (triple : Triple before x after raised) {s s' : σ} {a : α} (start : before s)
    (ran : x s = (.ok a,s')) : after a s' := by
  have result := triple s start
  rw [ran] at result
  exact result

theorem triple_error (triple : Triple before x after raised) {s s' : σ} {e : ε} (start : before s)
    (ran : x s = (.error e,s')) : raised s' := by
  have result := triple s start
  rw [ran] at result
  exact result

theorem triple_pure {a : α} (done : ∀ s, before s → after a s) :
    Triple before (pure a : Raising ε σ α) after raised := done

theorem triple_asking {read : σ → Except ε α}
    (done : ∀ s, before s → match read s with
      | .ok a => after a s
      | .error _ => raised s) : Triple before (asking read) after raised := by
  intro s start
  have result := done s start
  rw [asking]
  cases found : read s with
  | ok a =>
    rw [found] at result
    exact result
  | error e =>
    rw [found] at result
    exact result

theorem triple_bind {next : α → Raising ε σ β} {middle : α → σ → Prop} {after : β → σ → Prop}
    (first : Triple before x middle raised) (second : ∀ a, Triple (middle a) (next a) after raised) :
    Triple before (x >>= next) after raised := by
  intro s start
  rcases ran : x s with ⟨e | a,m⟩
  · rw [bind_of_error ran]
    exact triple_error first start ran
  · rw [bind_of_ok ran]
    exact second a m (triple_ok first start ran)

theorem triple_weaken {before' : σ → Prop} {after' : α → σ → Prop} {raised' : σ → Prop}
    (triple : Triple before x after raised) (start : ∀ s, before' s → before s)
    (done : ∀ a s, after a s → after' a s) (failed : ∀ s, raised s → raised' s) :
    Triple before' x after' raised' := by
  intro s holds
  rcases ran : x s with ⟨e | a,m⟩
  · exact failed m (triple_error triple (start s holds) ran)
  · exact done a m (triple_ok triple (start s holds) ran)

theorem triple_ite {c : Prop} [Decidable c] {y : Raising ε σ α}
    (yes : c → Triple before x after raised) (no : ¬c → Triple before y after raised) :
    Triple before (if c then x else y) after raised := by
  by_cases h : c
  · rw [if_pos h]
    exact yes h
  · rw [if_neg h]
    exact no h

/-- A loop keeps an invariant about the entries that are done. -/
theorem triple_forM {xs : List ι} {f : ι → Raising ε σ Unit} {invariant : List ι → σ → Prop}
    (step : ∀ done i rest, xs = done ++ i :: rest →
      Triple (invariant done) (f i) (fun _ => invariant (done ++ [i])) raised) :
    Triple (invariant []) (forM xs f) (fun _ => invariant xs) raised := by
  have all : ∀ done rest, xs = done ++ rest →
      Triple (invariant done) (forM rest f) (fun _ => invariant xs) raised := by
    intro done rest split
    induction rest generalizing done with
    | nil =>
      rw [List.append_nil] at split
      subst split
      exact triple_pure (fun _ holds => holds)
    | cons i rest ih =>
      rw [List.forM_cons]
      apply triple_bind (step done i rest split)
      intro _
      apply ih
      rw [split, List.append_assoc]
      rfl
  exact all [] xs rfl

end Raising
