import Mathlib.Data.List.Basic
import Mathlib.Data.List.Forall2

/-!
# Checked sequences of partial computations

A validator is a chain of checks that stops at the first failure. The rules
below turn acceptance of a chain into the conjunction of what it checked, so
that no later proof unfolds a monadic program. Nothing here depends on what is
being validated.
-/

set_option autoImplicit false

namespace CheckedExcept

universe u v
variable {ε : Type u} {α β : Type v}

/-- Continue when the condition holds, and fail with the message otherwise. -/
def check (condition : Prop) [Decidable condition] (message : ε) : Except ε PUnit.{v+1} :=
  if condition then .ok ⟨⟩ else .error message

@[simp] theorem check_ok (condition : Prop) [Decidable condition] (message : ε) (r : PUnit.{v+1}) :
    check condition message = .ok r ↔ condition := by
  unfold check
  split <;> simp_all

theorem check_of (condition : Prop) [Decidable condition] (message : ε) (h : condition) :
    check condition message = .ok PUnit.unit.{v+1} := by
  simp [h]

@[simp] theorem exists_unit {p : PUnit.{v+1} → Prop} : (∃ u, p u) ↔ p ⟨⟩ :=
  ⟨fun ⟨_,h⟩ => h,fun h => ⟨_,h⟩⟩

@[simp] theorem pure_ok (a b : α) : (pure a : Except ε α) = .ok b ↔ a = b := by
  simp [pure, Except.pure]

@[simp] theorem throw_ok (e : ε) (b : α) : (throw e : Except ε α) = .ok b ↔ False := by
  simp [throw, throwThe, MonadExceptOf.throw]

@[simp] theorem bind_ok (x : Except ε α) (f : α → Except ε β) (b : β) :
    (x >>= f) = .ok b ↔ ∃ a, x = .ok a ∧ f a = .ok b := by
  cases x <;> simp [bind, Except.bind]

@[simp] theorem map_ok (x : Except ε α) (f : α → β) (b : β) :
    (f <$> x) = .ok b ↔ ∃ a, x = .ok a ∧ f a = b := by
  cases x <;> simp [Functor.map, Except.map]

@[simp] theorem check_error (condition : Prop) [Decidable condition] (message e : ε) :
    (check condition message : Except ε PUnit.{v+1}) = .error e ↔ ¬ condition ∧ message = e := by
  unfold check
  split <;> simp_all

@[simp] theorem pure_error (a : α) (e : ε) : (pure a : Except ε α) = .error e ↔ False := by
  simp [pure, Except.pure]

@[simp] theorem throw_error (e e' : ε) : (throw e : Except ε α) = .error e' ↔ e = e' := by
  simp [throw, throwThe, MonadExceptOf.throw]

@[simp] theorem bind_error (x : Except ε α) (f : α → Except ε β) (e : ε) :
    (x >>= f) = .error e ↔ x = .error e ∨ ∃ a, x = .ok a ∧ f a = .error e := by
  cases x <;> simp [bind, Except.bind]

theorem bind_congr_ok {x y : Except ε α} {f g : α → Except ε β} (same : x = y)
    (later : ∀ a, x = .ok a → f a = g a) : x >>= f = y >>= g := by
  subst same
  cases x with
  | error e => rfl
  | ok a => exact later a rfl

/-- A loop of checks over a list accepts exactly when every element passes. -/
@[simp] theorem forM_ok (xs : List α) (f : α → Except ε PUnit.{v+1}) (r : PUnit.{v+1}) :
    forM xs f = .ok r ↔ ∀ x ∈ xs, f x = .ok ⟨⟩ := by
  induction xs with
  | nil => simp
  | cons x xs ih =>
    simp [List.forM_cons, ih]

/-- A loop of checks fails with the failure of its first element that fails. -/
theorem forM_error (xs : List α) (f : α → Except ε PUnit.{v+1}) (e : ε) :
    forM xs f = .error e ↔
      ∃ before x after, xs = before ++ x :: after ∧ (∀ y ∈ before, f y = .ok ⟨⟩) ∧
        f x = .error e := by
  induction xs with
  | nil => simp
  | cons x xs ih =>
    rw [List.forM_cons, bind_error, exists_unit, ih]
    constructor
    · rintro (first | ⟨passed,before,y,after,rfl,each,later⟩)
      · exact ⟨[],x,xs,rfl,nofun,first⟩
      · exact ⟨x :: before,y,after,rfl,List.forall_mem_cons.mpr ⟨passed,each⟩,later⟩
    · rintro ⟨before,y,after,split,each,fails⟩
      cases before with
      | nil =>
        obtain ⟨rfl,rfl⟩ := List.cons.inj split
        exact .inl fails
      | cons z before =>
        obtain ⟨rfl,rfl⟩ := List.cons.inj split
        have parts := List.forall_mem_cons.mp each
        exact .inr ⟨parts.1,before,y,after,rfl,parts.2,fails⟩

/-- A loop that carries a state is a chain of accepted steps. -/
theorem foldlM_invariant {σ : Type v} (P : σ → Prop) (f : σ → α → Except ε σ)
    (step : ∀ s x s', P s → f s x = .ok s' → P s')
    (xs : List α) (s s' : σ) (hs : P s) (h : xs.foldlM f s = .ok s') : P s' := by
  induction xs generalizing s with
  | nil =>
    simp only [List.foldlM_nil, pure_ok] at h
    exact h ▸ hs
  | cons x xs ih =>
    simp only [List.foldlM_cons, bind_ok] at h
    obtain ⟨m,hm,h⟩ := h
    exact ih m (step s x m hs hm) h

theorem foldlM_congr {σ : Type v} (P : σ → Prop) (f g : σ → α → Except ε σ) {xs : List α} {s : σ}
    (hs : P s) (same : ∀ s x, P s → f s x = g s x)
    (step : ∀ s x s', P s → g s x = .ok s' → P s') : xs.foldlM f s = xs.foldlM g s := by
  induction xs generalizing s with
  | nil => rfl
  | cons x xs ih =>
    rw [List.foldlM_cons, List.foldlM_cons]
    exact bind_congr_ok (same s x hs) (fun m hm => ih (step s x m hs ((same s x hs) ▸ hm)))

/-- A loop over the indices of a list is a loop over its elements. -/
theorem foldlM_range {γ σ : Type v} {f : σ → ℕ → Except ε σ} {g : σ → γ → Except ε σ} {xs : List γ}
    {s : σ} (same : ∀ s i (h : i < xs.length), f s i = g s xs[i]) :
    (List.range xs.length).foldlM f s = xs.foldlM g s := by
  induction xs generalizing f s with
  | nil => rfl
  | cons x xs ih =>
    rw [List.length_cons, List.range_succ_eq_map, List.foldlM_cons, List.foldlM_cons]
    apply bind_congr_ok (same s 0 (Nat.succ_pos _))
    intro s' _
    rw [List.foldlM_map]
    exact ih fun s i h => same s (i + 1) (Nat.succ_lt_succ h)

/-- A loop whose step gathers some entries gathers the entries of all its elements. -/
theorem foldlM_gathers {γ σ : Type v} {Adds : σ → List γ → σ → Prop} {R : α → List γ → Prop}
    {step : σ → α → Except ε σ} (none_added : ∀ {s s'}, Adds s [] s' ↔ s' = s)
    (split : ∀ {s first second s'}, Adds s (first ++ second) s' ↔
      ∃ m, Adds s first m ∧ Adds m second s')
    (gathers : ∀ s x s', step s x = .ok s' ↔ ∃ part, R x part ∧ Adds s part s')
    (xs : List α) (s s' : σ) :
    xs.foldlM step s = .ok s' ↔ ∃ parts, List.Forall₂ R xs parts ∧ Adds s parts.flatten s' := by
  induction xs generalizing s with
  | nil =>
    rw [List.foldlM_nil, pure_ok]
    constructor
    · rintro rfl
      exact ⟨[],.nil,none_added.mpr rfl⟩
    · rintro ⟨_,⟨⟩,same⟩
      exact (none_added.mp same).symm
  | cons x xs ih =>
    simp only [List.foldlM_cons, bind_ok, gathers, ih]
    constructor
    · rintro ⟨m,⟨part,now,added⟩,parts,later,rest⟩
      exact ⟨part :: parts,.cons now later,split.mpr ⟨m,added,rest⟩⟩
    · rintro ⟨_,⟨⟩,whole⟩
      rename_i part parts now later
      obtain ⟨m,added,rest⟩ := split.mp whole
      exact ⟨m,⟨part,now,added⟩,parts,later,rest⟩

/-- A mapped loop accepts exactly when each element maps, in order. -/
theorem mapM_ok (xs : List α) (f : α → Except ε β) (ys : List β) :
    xs.mapM f = .ok ys ↔ List.Forall₂ (fun x y => f x = .ok y) xs ys := by
  induction xs generalizing ys with
  | nil =>
    cases ys with
    | nil => simp
    | cons y ys => exact iff_of_false (by simp) nofun
  | cons x xs ih =>
    cases ys with
    | nil => exact iff_of_false (by simp) nofun
    | cons y ys => simp [ih]

/-- Every element maps to something exactly when the loop does. -/
theorem mapM_exists {xs : List α} {f : α → Except ε β} (h : ∀ x ∈ xs, ∃ y, f x = .ok y) :
    ∃ ys, xs.mapM f = .ok ys := by
  induction xs with
  | nil => exact ⟨[],rfl⟩
  | cons x xs ih =>
    obtain ⟨y,hy⟩ := h x List.mem_cons_self
    obtain ⟨ys,hys⟩ := ih (fun z hz => h z (List.mem_cons_of_mem _ hz))
    exact ⟨y :: ys,(mapM_ok _ _ _).mpr (.cons hy ((mapM_ok _ _ _).mp hys))⟩

/-- A relation between two lists reaches every entry of the second. -/
theorem forall₂_mem_right {P : α → β → Prop} {xs : List α} {ys : List β}
    (h : List.Forall₂ P xs ys) {y : β} (hy : y ∈ ys) : ∃ x ∈ xs, P x y := by
  induction h with
  | nil => simp at hy
  | cons head _ ih =>
    rcases List.mem_cons.mp hy with rfl | hy
    · exact ⟨_,List.mem_cons_self,head⟩
    · obtain ⟨x,hx,e⟩ := ih hy
      exact ⟨x,List.mem_cons_of_mem _ hx,e⟩

/-- A relation between two lists reaches every entry of the first. -/
theorem forall₂_mem_left {P : α → β → Prop} {xs : List α} {ys : List β}
    (h : List.Forall₂ P xs ys) {x : α} (hx : x ∈ xs) : ∃ y ∈ ys, P x y :=
  forall₂_mem_right h.flip hx

/-- Each element that a successful loop visits was mapped. -/
theorem mapM_mem {xs : List α} {f : α → Except ε β} {ys : List β} (h : xs.mapM f = .ok ys)
    {x : α} (hx : x ∈ xs) : ∃ y ∈ ys, f x = .ok y :=
  forall₂_mem_left ((mapM_ok _ _ _).mp h) hx

/-- Each result of a successful loop comes from an element. -/
theorem mapM_mem_right {xs : List α} {f : α → Except ε β} {ys : List β} (h : xs.mapM f = .ok ys)
    {y : β} (hy : y ∈ ys) : ∃ x ∈ xs, f x = .ok y :=
  forall₂_mem_right ((mapM_ok _ _ _).mp h) hy

theorem mapM_congr {xs : List α} {f g : α → Except ε β} (h : ∀ x ∈ xs, f x = g x) :
    xs.mapM f = xs.mapM g := by
  induction xs with
  | nil => rfl
  | cons x xs ih =>
    rw [List.mapM_cons, List.mapM_cons, h x List.mem_cons_self,
      ih (fun y hy => h y (List.mem_cons_of_mem _ hy))]

section Readers

variable {σ : Type*} {ι : Type v} (R : σ → σ → Prop)

/-- What a reader returns from a state it returns from every related later state. -/
def Stable (read : σ → Except ε α) : Prop :=
  ∀ s s' a, R s s' → read s = .ok a → read s' = .ok a

variable {R}

theorem stable_const (x : Except ε α) : Stable R (fun _ => x) := fun _ _ _ _ h => h

theorem stable_bind {read : σ → Except ε α} {next : σ → α → Except ε β}
    (hr : Stable R read) (hn : ∀ a, Stable R (fun s => next s a)) :
    Stable R (fun s => read s >>= next s) := by
  intro s s' b related h
  obtain ⟨a,ha,hb⟩ := (bind_ok _ _ b).mp h
  exact (bind_ok _ _ b).mpr ⟨a,hr s s' a related ha,hn a s s' b related hb⟩

theorem stable_forM {xs : List ι} {f : σ → ι → Except ε PUnit.{v+1}}
    (hf : ∀ x ∈ xs, Stable R (fun s => f s x)) : Stable R (fun s => forM xs (f s)) := by
  intro s s' r related h
  rw [forM_ok] at h ⊢
  exact fun x hx => hf x hx s s' _ related (h x hx)

end Readers

section Failures

variable {kind : ε → Prop} {x : Except ε α}

/-- Every failure of the computation is of the kind. -/
def FailsIn (kind : ε → Prop) (x : Except ε α) : Prop := ∀ e, x = .error e → kind e

theorem failsIn_pure (a : α) : FailsIn kind (pure a : Except ε α) :=
  fun e h => absurd ((pure_error a e).mp h) not_false

theorem failsIn_throw {e : ε} (h : kind e) : FailsIn kind (throw e : Except ε α) :=
  fun e' same => (throw_error e e').mp same ▸ h

theorem failsIn_check {condition : Prop} [Decidable condition] {message : ε} (h : kind message) :
    FailsIn kind (check condition message : Except ε PUnit.{v+1}) :=
  fun e same => ((check_error condition message e).mp same).2 ▸ h

theorem failsIn_bind {f : α → Except ε β} (first : FailsIn kind x)
    (second : ∀ a, x = .ok a → FailsIn kind (f a)) : FailsIn kind (x >>= f) := by
  intro e h
  rcases (bind_error x f e).mp h with failed | ⟨a,passed,failed⟩
  · exact first e failed
  · exact second a passed e failed

theorem failsIn_forM {xs : List α} {f : α → Except ε PUnit.{v+1}}
    (h : ∀ a ∈ xs, FailsIn kind (f a)) : FailsIn kind (forM xs f) := by
  intro e failed
  obtain ⟨before,a,after,rfl,_,failed⟩ := (forM_error xs f e).mp failed
  exact h a (List.mem_append_right _ List.mem_cons_self) e failed

theorem failsIn_foldlM_invariant {σ : Type v} (P : σ → Prop) {f : σ → α → Except ε σ}
    {xs : List α} {s : σ} (hs : P s)
    (step : ∀ s, ∀ a ∈ xs, ∀ s', P s → f s a = .ok s' → P s')
    (h : ∀ s, P s → ∀ a ∈ xs, FailsIn kind (f s a)) : FailsIn kind (xs.foldlM f s) := by
  induction xs generalizing s with
  | nil => exact failsIn_pure s
  | cons a xs ih =>
    rw [List.foldlM_cons]
    apply failsIn_bind (h s hs a List.mem_cons_self)
    intro next passed
    exact ih (step s a List.mem_cons_self next hs passed)
      (fun s b member => step s b (List.mem_cons_of_mem _ member))
      (fun s hs b member => h s hs b (List.mem_cons_of_mem _ member))

theorem failsIn_foldlM {σ : Type v} {f : σ → α → Except ε σ} {xs : List α} {s : σ}
    (h : ∀ s, ∀ a ∈ xs, FailsIn kind (f s a)) : FailsIn kind (xs.foldlM f s) :=
  failsIn_foldlM_invariant (fun _ => True) trivial (fun _ _ _ _ _ _ => trivial) (fun s _ => h s)

theorem failsIn_mapM {xs : List α} {f : α → Except ε β} (h : ∀ a ∈ xs, FailsIn kind (f a)) :
    FailsIn kind (xs.mapM f) := by
  induction xs with
  | nil => exact failsIn_pure _
  | cons a xs ih =>
    rw [List.mapM_cons]
    apply failsIn_bind (h a List.mem_cons_self)
    intro b _
    apply failsIn_bind (ih (fun c member => h c (List.mem_cons_of_mem _ member)))
    exact fun _ _ => failsIn_pure _

end Failures

section Fuel

variable {stop : ε} {x y : Except ε α}

/-- The first computation is stopped, or it is the second one. -/
def Within (stop : ε) (x y : Except ε α) : Prop := x = .error stop ∨ x = y

theorem within_refl : Within stop x x := .inr rfl

theorem Within.result (within : Within stop x y) (ends : x ≠ .error stop) : x = y :=
  within.resolve_left ends

theorem within_bind {f g : α → Except ε β} (first : Within stop x y)
    (second : ∀ a, Within stop (f a) (g a)) : Within stop (x >>= f) (y >>= g) := by
  rcases first with stopped | same
  · exact .inl ((bind_error x f stop).mpr (.inl stopped))
  · subst same
    cases x with
    | error e => exact .inr rfl
    | ok a => exact second a

theorem within_foldlM {σ : Type v} {f g : σ → α → Except ε σ} {xs : List α} {s : σ}
    (each : ∀ s a, Within stop (f s a) (g s a)) : Within stop (xs.foldlM f s) (xs.foldlM g s) := by
  induction xs generalizing s with
  | nil => exact within_refl
  | cons a xs ih =>
    rw [List.foldlM_cons, List.foldlM_cons]
    exact within_bind (each s a) (fun _ => ih)

end Fuel

end CheckedExcept
