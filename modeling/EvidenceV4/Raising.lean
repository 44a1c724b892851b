import EvidenceV4.CheckedExcept
import Mathlib.Data.List.Forall2

/-!
# Computations that raise failures of several classes

A computation changes a state and may raise a failure; what it wrote before
stays written. A handler catches some failures and lets the others pass. A
successful run is taken apart along the program text, and an invariant is kept
whether the computation succeeds or raises. Nothing here depends on what the
state or the failures are.
-/

set_option autoImplicit false

def Raising (ε σ α : Type) : Type := σ → Except ε α × σ

namespace Raising

variable {ε σ τ ρ α β ι : Type}

instance : Monad (Raising ε σ) where
  pure a := fun s => (.ok a,s)
  bind x f := fun s =>
    match x s with
    | (.ok a,s') => f a s'
    | (.error e,s') => (.error e,s')

/-- A computation that only reads. -/
def asking (read : σ → Except ε α) : Raising ε σ α := fun s => (read s,s)

def lift (x : Except ε α) : Raising ε σ α := asking (fun _ => x)

def modify (change : σ → σ) : Raising ε σ Unit := fun s => (.ok (),change s)

/-- Handle the failures that are caught, and pass on the others. -/
def catching (caught : ε → Bool) (x : Raising ε σ Unit) (handler : ε → Raising ε σ Unit) :
    Raising ε σ Unit := fun s =>
  match x s with
  | (.ok u,s') => (.ok u,s')
  | (.error e,s') => if caught e then handler e s' else (.error e,s')

/-- Run over one component of the state. -/
def within (get : σ → τ) (set : σ → τ → σ) (x : Raising ε τ α) : Raising ε σ α := fun s =>
  ((x (get s)).1,set s (x (get s)).2)

/-- Run once for each entry of a list that is part of the state, and write each entry back. -/
def entries (body : Raising ε (τ × ρ) Unit) : Raising ε (List τ × ρ) Unit
  | ([],r) => (.ok (),([],r))
  | (x :: xs,r) =>
    match body (x,r) with
    | (.ok _,(x',r')) => ((entries body (xs,r')).1,
        (x' :: (entries body (xs,r')).2.1,(entries body (xs,r')).2.2))
    | (.error e,(x',r')) => (.error e,(x' :: xs,r'))

section Running

variable {x : Raising ε σ α} {s s' : σ} {a : α} {b : β}

@[simp] theorem pure_ran {a' : α} : (pure a : Raising ε σ α) s = (.ok a',s') ↔ a = a' ∧ s = s' := by
  show (Except.ok a,s) = (Except.ok a',s') ↔ _
  simp

@[simp] theorem bind_ran {next : α → Raising ε σ β} : (x >>= next) s = (.ok b,s') ↔
    ∃ a m, x s = (.ok a,m) ∧ next a m = (.ok b,s') := by
  show (match x s with
    | (.ok a,m) => next a m
    | (.error e,m) => (.error e,m)) = _ ↔ _
  rcases x s with ⟨_ | _,_⟩ <;> simp

@[simp] theorem asking_ran {read : σ → Except ε α} : asking read s = (.ok a,s') ↔
    read s = .ok a ∧ s = s' := by
  simp [asking]

@[simp] theorem lift_ran {r : Except ε α} : (lift r : Raising ε σ α) s = (.ok a,s') ↔
    r = .ok a ∧ s = s' := by
  simp [lift]

@[simp] theorem modify_ran {change : σ → σ} {u : Unit} :
    (modify change : Raising ε σ Unit) s = (.ok u,s') ↔ change s = s' := by
  simp [modify]

theorem bind_of_ok {next : α → Raising ε σ β} (h : x s = (.ok a,s')) :
    (x >>= next) s = next a s' := by
  show (match x s with
    | (.ok a,m) => next a m
    | (.error e,m) => (.error e,m)) = _
  rw [h]

theorem bind_of_error {e : ε} {next : α → Raising ε σ β} (h : x s = (.error e,s')) :
    (x >>= next) s = (.error e,s') := by
  show (match x s with
    | (.ok a,m) => next a m
    | (.error e,m) => (.error e,m)) = _
  rw [h]

theorem catching_ran {caught : ε → Bool} {y : Raising ε σ Unit} {handler : ε → Raising ε σ Unit}
    {u : Unit} : catching caught y handler s = (.ok u,s') ↔ y s = (.ok u,s') ∨
      ∃ e m, y s = (.error e,m) ∧ caught e ∧ handler e m = (.ok u,s') := by
  unfold catching
  rcases y s with ⟨e | v,m⟩
  · by_cases h : caught e <;> simp [h]
  · simp

@[simp] theorem within_ran {get : σ → τ} {set : σ → τ → σ} {y : Raising ε τ α} :
    within get set y s = (.ok a,s') ↔ ∃ t, y (get s) = (.ok a,t) ∧ set s t = s' := by
  unfold within
  rcases y (get s) with ⟨r,t⟩
  simp [and_comm]

/-- A loop over entries that succeeds relates each entry to what became of it. -/
theorem entries_ran {body : Raising ε (τ × ρ) Unit} {R : τ → τ → Prop} {ys ys' : List τ}
    {r r' : ρ} (step : ∀ y ∈ ys, ∀ r y' r', body (y,r) = (.ok (),(y',r')) → R y y')
    (run : entries body (ys,r) = (.ok (),(ys',r'))) : List.Forall₂ R ys ys' := by
  induction ys generalizing ys' r with
  | nil =>
    simp only [entries, Prod.mk.injEq, true_and] at run
    obtain ⟨rfl,rfl⟩ := run
    exact .nil
  | cons y ys ih =>
    rw [entries] at run
    rcases h : body (y,r) with ⟨e | u,y₁,r₁⟩
    · rw [h] at run
      simp at run
    · rw [h] at run
      simp only [Prod.mk.injEq] at run
      obtain ⟨done,rfl,rfl⟩ := run
      apply List.Forall₂.cons (step y List.mem_cons_self r y₁ r₁ h)
      apply ih (fun z member => step z (List.mem_cons_of_mem _ member)) (r := r₁)
      exact Prod.ext done rfl

theorem forM_ran {xs : List ι} {f : ι → Raising ε σ Unit} {u : Unit}
    (ran : forM xs f s = (.ok u,s')) : ∀ i ∈ xs, ∃ m m', f i m = (.ok (),m') := by
  induction xs generalizing s with
  | nil => exact nofun
  | cons i xs ih =>
    rw [List.forM_cons, bind_ran] at ran
    obtain ⟨_,m,first,rest⟩ := ran
    intro j member
    rcases List.mem_cons.mp member with rfl | member
    · exact ⟨s,m,first⟩
    · exact ih rest j member

theorem forM_total {xs : List ι} {f : ι → Raising ε σ Unit}
    (h : ∀ i ∈ xs, ∀ m, ∃ m', f i m = (.ok (),m')) (s : σ) : ∃ s', forM xs f s = (.ok (),s') := by
  induction xs generalizing s with
  | nil => exact ⟨s,rfl⟩
  | cons i xs ih =>
    obtain ⟨m,first⟩ := h i List.mem_cons_self s
    obtain ⟨s',rest⟩ := ih (fun j member => h j (List.mem_cons_of_mem _ member)) m
    apply Exists.intro s'
    rw [List.forM_cons, bind_ran]
    exact ⟨(),m,first,rest⟩

end Running

/-- The computation keeps the invariant, whether it succeeds or raises. -/
def Keeps (invariant : σ → Prop) (x : Raising ε σ α) : Prop :=
  ∀ s, invariant s → invariant (x s).2

section Invariants

variable {invariant : σ → Prop} {x : Raising ε σ α}

theorem keeps_pure (a : α) : Keeps invariant (pure a : Raising ε σ α) := fun _ h => h

theorem keeps_asking (read : σ → Except ε α) : Keeps invariant (asking read) := fun _ h => h

theorem keeps_lift (r : Except ε α) : Keeps invariant (lift r : Raising ε σ α) := fun _ h => h

theorem keeps_modify {change : σ → σ} (h : ∀ s, invariant s → invariant (change s)) :
    Keeps invariant (modify change : Raising ε σ Unit) :=
  h

theorem keeps_bind {next : α → Raising ε σ β} (first : Keeps invariant x)
    (second : ∀ a, Keeps invariant (next a)) : Keeps invariant (x >>= next) := by
  intro s hs
  have kept := first s hs
  show invariant (match x s with
    | (.ok a,m) => next a m
    | (.error e,m) => (.error e,m)).2
  rcases h : x s with ⟨e | a,m⟩
  · rw [h] at kept
    exact kept
  · rw [h] at kept
    exact second a m kept

theorem keeps_lift_bind {r : Except ε α} {next : α → Raising ε σ β}
    (h : ∀ a, r = .ok a → Keeps invariant (next a)) : Keeps invariant (lift r >>= next) := by
  cases r with
  | error e => exact fun _ hs => hs
  | ok a => exact h a rfl

theorem keeps_ite {c : Prop} [Decidable c] {x y : Raising ε σ α} (yes : Keeps invariant x)
    (no : Keeps invariant y) : Keeps invariant (if c then x else y) := by
  split
  · exact yes
  · exact no

theorem keeps_catching {caught : ε → Bool} {y : Raising ε σ Unit}
    {handler : ε → Raising ε σ Unit} (body : Keeps invariant y)
    (handled : ∀ e, Keeps invariant (handler e)) : Keeps invariant (catching caught y handler) := by
  intro s hs
  have kept := body s hs
  unfold catching
  rcases h : y s with ⟨e | a,m⟩
  · rw [h] at kept
    by_cases c : caught e
    · simpa only [c, if_true] using handled e m kept
    · simpa only [c, if_false, Bool.false_eq_true] using kept
  · rw [h] at kept
    exact kept

theorem keeps_forM {xs : List ι} {f : ι → Raising ε σ Unit} (h : ∀ i ∈ xs, Keeps invariant (f i)) :
    Keeps invariant (forM xs f) := by
  induction xs with
  | nil => exact keeps_pure _
  | cons i xs ih =>
    rw [List.forM_cons]
    exact keeps_bind (h i List.mem_cons_self)
      (fun _ => ih (fun j hj => h j (List.mem_cons_of_mem _ hj)))

/-- What each entry keeps of the shared state, the loop keeps. -/
theorem keeps_entries {body : Raising ε (τ × ρ) Unit} {shared : ρ → Prop}
    (h : Keeps (fun s => shared s.2) body) : Keeps (fun s => shared s.2) (entries body) := by
  rintro ⟨ys,r⟩ hr
  induction ys generalizing r with
  | nil =>
    rw [entries]
    exact hr
  | cons y ys ih =>
    have kept := h (y,r) hr
    rw [entries]
    rcases ran : body (y,r) with ⟨e | u,y',r'⟩
    · rw [ran] at kept
      exact kept
    · rw [ran] at kept
      exact ih r' kept

end Invariants

/-- The computation raises a failure of the kind. -/
def Raises (kind : ε → Prop) (x : Raising ε σ α) (s : σ) : Prop := ∃ e, (x s).1 = .error e ∧ kind e

section Failing

variable {kind : ε → Prop} {x : Raising ε σ α} {s : σ}

@[simp] theorem raises_pure {a : α} : Raises kind (pure a : Raising ε σ α) s ↔ False :=
  ⟨fun ⟨_,h,_⟩ => (nomatch h),False.elim⟩

@[simp] theorem raises_asking {read : σ → Except ε α} :
    Raises kind (asking read) s ↔ ∃ e, read s = .error e ∧ kind e :=
  Iff.rfl

@[simp] theorem raises_lift {r : Except ε α} :
    Raises kind (lift r : Raising ε σ α) s ↔ ∃ e, r = .error e ∧ kind e :=
  Iff.rfl

@[simp] theorem raises_modify {change : σ → σ} :
    Raises kind (modify change : Raising ε σ Unit) s ↔ False :=
  ⟨fun ⟨_,h,_⟩ => (nomatch h),False.elim⟩

@[simp] theorem raises_bind {next : α → Raising ε σ β} : Raises kind (x >>= next) s ↔
    Raises kind x s ∨ ∃ a m, x s = (.ok a,m) ∧ Raises kind (next a) m := by
  unfold Raises
  rcases ran : x s with ⟨e | a,m⟩
  · rw [bind_of_error ran]
    simp
  · rw [bind_of_ok ran]
    simp

/-- A kind that is not caught passes a handler that raises nothing of the kind. -/
theorem raises_catching {caught : ε → Bool} {y : Raising ε σ Unit}
    {handler : ε → Raising ε σ Unit} (passes : ∀ e, kind e → caught e = false)
    (quiet : ∀ e m, ¬ Raises kind (handler e) m) :
    Raises kind (catching caught y handler) s ↔ Raises kind y s := by
  unfold Raises catching
  rcases y s with ⟨e | a,m⟩
  · by_cases c : caught e = true
    · simp only [c, if_true]
      constructor
      · exact fun raised => absurd raised (quiet e m)
      · intro ⟨e',same,of⟩
        obtain rfl := Except.error.inj same
        rw [passes e of] at c
        cases c
    · simp only [c, if_false, Bool.false_eq_true]
  · simp

/-- Behind a handler that never raises, only failures that are not caught get out. -/
theorem catching_raised {caught : ε → Bool} {y : Raising ε σ Unit}
    {handler : ε → Raising ε σ Unit} (quiet : ∀ e m e', (handler e m).1 ≠ .error e') {e : ε}
    (h : (catching caught y handler s).1 = .error e) : caught e = false := by
  unfold catching at h
  rcases ran : y s with ⟨e' | a,m⟩ <;> rw [ran] at h
  · by_cases c : caught e' = true
    · simp only [c, if_true] at h
      exact absurd h (quiet e' m e)
    · simp only [c, if_false, Bool.false_eq_true] at h
      rw [← Except.error.inj h]
      exact Bool.not_eq_true _ ▸ c
  · cases h

@[simp] theorem raises_within {get : σ → τ} {set : σ → τ → σ} {y : Raising ε τ α} :
    Raises kind (within get set y) s ↔ Raises kind y (get s) :=
  Iff.rfl

theorem raises_forM {xs : List ι} {f : ι → Raising ε σ Unit} (h : Raises kind (forM xs f) s) :
    ∃ i ∈ xs, ∃ m, Raises kind (f i) m := by
  induction xs generalizing s with
  | nil => exact absurd (raises_pure.mp h) not_false
  | cons i xs ih =>
    rw [List.forM_cons, raises_bind] at h
    rcases h with first | ⟨_,m,_,later⟩
    · exact ⟨i,List.mem_cons_self,s,first⟩
    · obtain ⟨j,member,found⟩ := ih later
      exact ⟨j,List.mem_cons_of_mem _ member,found⟩

/-- A loop over entries raises a failure of the kind when one of its entries does, and every entry
before it would go on. -/
theorem raises_entries {body : Raising ε (τ × ρ) Unit} {shared : ρ → Prop} {goesOn bad : τ → Prop}
    (keeps : Keeps (fun s => shared s.2) body)
    (done : ∀ y r y' r', shared r → body (y,r) = (.ok (),(y',r')) → goesOn y)
    (goes : ∀ y r e, shared r → goesOn y → (body (y,r)).1 = .error e → kind e)
    (raises : ∀ y r, shared r → (Raises kind body (y,r) ↔ bad y)) {ys : List τ} {r : ρ}
    (start : shared r) : Raises kind (entries body) (ys,r) ↔
      ∃ before y after, ys = before ++ y :: after ∧ (∀ z ∈ before, goesOn z) ∧ bad y := by
  induction ys generalizing r with
  | nil => simp [Raises, entries]
  | cons y ys ih =>
    have kept := keeps (y,r) start
    rcases ran : body (y,r) with ⟨e | u,y',r'⟩
    · have whole : (entries body (y :: ys,r)).1 = .error e := by
        rw [entries, ran]
      have here : (body (y,r)).1 = .error e := by
        rw [ran]
      constructor
      · intro ⟨e',raised,of⟩
        obtain rfl := Except.error.inj (whole.symm.trans raised)
        exact ⟨[],y,ys,rfl,nofun,(raises y r start).mp ⟨e,here,of⟩⟩
      · intro ⟨before,z,after,split,earlier,ill⟩
        apply Exists.intro e
        apply And.intro whole
        cases before with
        | nil =>
          obtain ⟨rfl,rfl⟩ := List.cons.inj split
          obtain ⟨e',raised,of⟩ := (raises y r start).mpr ill
          exact Except.error.inj (here.symm.trans raised) ▸ of
        | cons w before =>
          obtain ⟨rfl,rfl⟩ := List.cons.inj split
          exact goes y r e start (earlier y List.mem_cons_self) here
    · rw [ran] at kept
      have whole : (entries body (y :: ys,r)).1 = (entries body (ys,r')).1 := by
        rw [entries, ran]
      have rest : Raises kind (entries body) (y :: ys,r) ↔ Raises kind (entries body) (ys,r') := by
        rw [Raises, Raises, whole]
      rw [rest, ih kept]
      constructor
      · intro ⟨before,z,after,split,earlier,ill⟩
        refine ⟨y :: before,z,after,by rw [split, List.cons_append],?_,ill⟩
        exact List.forall_mem_cons.mpr ⟨done y r y' r' start ran,earlier⟩
      · intro ⟨before,z,after,split,earlier,ill⟩
        cases before with
        | nil =>
          obtain ⟨rfl,rfl⟩ := List.cons.inj split
          obtain ⟨e,raised,_⟩ := (raises y r start).mpr ill
          rw [ran] at raised
          cases raised
        | cons w before =>
          obtain ⟨rfl,rfl⟩ := List.cons.inj split
          exact ⟨before,z,after,rfl,(List.forall_mem_cons.mp earlier).2,ill⟩

/-- A loop over entries that raises does so at one of them. -/
theorem entries_raised {body : Raising ε (τ × ρ) Unit} {shared : ρ → Prop}
    (keeps : Keeps (fun s => shared s.2) body) {ys : List τ} {r : ρ} {e : ε} (start : shared r)
    (h : (entries body (ys,r)).1 = .error e) : ∃ y ∈ ys, ∃ m, shared m ∧ (body (y,m)).1 = .error e := by
  induction ys generalizing r with
  | nil =>
    rw [entries] at h
    cases h
  | cons y ys ih =>
    have kept := keeps (y,r) start
    rcases ran : body (y,r) with ⟨e' | u,y',r'⟩
    · rw [entries, ran] at h
      exact ⟨y,List.mem_cons_self,r,start,by rw [ran]; exact h⟩
    · rw [entries, ran] at h
      rw [ran] at kept
      obtain ⟨z,member,found⟩ := ih kept h
      exact ⟨z,List.mem_cons_of_mem _ member,found⟩

end Failing

end Raising
