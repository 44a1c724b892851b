import EvidenceV4.CheckedExcept

/-!
# Validators that collect their findings

Instead of stopping at the first defect, a validator may return the list of all
it finds, stop between two stages, and carry a state over the elements of a
list. An input is clean when the list is empty. The rules below say what a clean
result says of every stage and of every element, and what survives an exception.
-/

set_option autoImplicit false

namespace Findings

open CheckedExcept

universe u v
variable {ε : Type u} {δ σ α : Type v}

/-- The message, unless the condition holds. -/
def finding (condition : Prop) [Decidable condition] (message : δ) : List δ :=
  if condition then [] else [message]

@[simp] theorem finding_nil {condition : Prop} [Decidable condition] {message : δ} :
    finding condition message = [] ↔ condition := by
  unfold finding
  split <;> simp_all

/-- Later stages run on what the first stage leaves clean. -/
def settle (first : List δ) (rest : Except ε (List δ)) : Except ε (List δ) :=
  match first with
  | [] => rest
  | _ :: _ => pure first

@[simp] theorem settle_nil {first : List δ} {rest : Except ε (List δ)} :
    settle first rest = .ok [] ↔ first = [] ∧ rest = .ok [] := by
  cases first with
  | nil => simp [settle]
  | cons d ds => simp [settle]

theorem settle_error {first : List δ} {rest : Except ε (List δ)} {e : ε} :
    settle first rest = .error e ↔ first = [] ∧ rest = .error e := by
  cases first with
  | nil => simp [settle]
  | cons d ds => simp [settle]

/-- The findings about the elements of a list, in order, under a state. -/
def gather (step : σ → α → Except ε (List δ × σ)) : σ → List α → Except ε (List δ × σ)
  | s, [] => pure ([],s)
  | s, x :: xs => do
    let (found,m) ← step s x
    let (later,last) ← gather step m xs
    pure (found ++ later,last)

/-- The elements are visited in order, and each step is clean. -/
inductive Visits (step : σ → α → Except ε (List δ × σ)) : σ → List α → σ → Prop where
  | done (s : σ) : Visits step s [] s
  | next {s m last : σ} {x : α} {xs : List α} (clean : step s x = .ok ([],m))
      (later : Visits step m xs last) : Visits step s (x :: xs) last

variable {step : σ → α → Except ε (List δ × σ)} {s last : σ} {xs : List α}

theorem gather_clean : gather step s xs = .ok ([],last) ↔ Visits step s xs last := by
  induction xs generalizing s with
  | nil =>
    constructor
    · intro h
      simp only [gather, pure_ok, Prod.mk.injEq, true_and] at h
      exact h ▸ .done s
    · intro h
      cases h
      rfl
  | cons x xs ih =>
    simp only [gather, bind_ok, pure_ok, Prod.mk.injEq, List.append_eq_nil_iff]
    constructor
    · rintro ⟨⟨found,m⟩,now,⟨later,end'⟩,rest,⟨rfl,rfl⟩,rfl⟩
      exact .next now (ih.mp rest)
    · intro h
      cases h with
      | next clean later => exact ⟨_,clean,_,ih.mpr later,⟨rfl,rfl⟩,rfl⟩

/-- What every clean step preserves holds whenever an element is visited. -/
theorem Visits.holds {P : σ → Prop} (visits : Visits step s xs last)
    (keeps : ∀ s x m, P s → step s x = .ok ([],m) → P m) (start : P s) : P last := by
  induction visits with
  | done => exact start
  | next clean _ ih => exact ih (keeps _ _ _ start clean)

/-- Each element is met by a clean step, in a state that the property reached. -/
theorem Visits.each_holds {P : σ → Prop} (visits : Visits step s xs last)
    (keeps : ∀ s x m, P s → step s x = .ok ([],m) → P m) (start : P s) :
    ∀ x ∈ xs, ∃ s m, P s ∧ step s x = .ok ([],m) := by
  induction visits with
  | done => exact fun _ member => absurd member List.not_mem_nil
  | @next s m last x xs clean _ ih =>
    intro y member
    rcases List.mem_cons.mp member with rfl | member
    · exact ⟨s,m,start,clean⟩
    · exact ih (keeps _ _ _ start clean) y member

theorem Visits.each (visits : Visits step s xs last) :
    ∀ x ∈ xs, ∃ s m, step s x = .ok ([],m) := by
  intro x member
  have anything : ∀ s x m, True → step s x = .ok ([],m) → True := fun _ _ _ _ _ => trivial
  obtain ⟨s,m,_,clean⟩ := visits.each_holds anything trivial x member
  exact ⟨s,m,clean⟩

/-- A step that is clean wherever another one is visits the same states. -/
theorem Visits.imp {step' : σ → α → Except ε (List δ × σ)} (visits : Visits step s xs last)
    (clean : ∀ s x m, x ∈ xs → step s x = .ok ([],m) → step' s x = .ok ([],m)) :
    Visits step' s xs last := by
  induction visits with
  | done => exact .done _
  | next now _ ih =>
    apply Visits.next (clean _ _ _ List.mem_cons_self now)
    apply ih
    intro s x m member
    exact clean s x m (List.mem_cons_of_mem _ member)

theorem mem_zipIdx_of_mem {xs : List α} {x : α} (member : x ∈ xs) : ∃ i, (x,i) ∈ xs.zipIdx := by
  obtain ⟨i,inside,rfl⟩ := List.mem_iff_getElem.mp member
  exact ⟨i,List.mk_mem_zipIdx_iff_getElem?.mpr (List.getElem?_eq_getElem inside)⟩

/-- Two elements in order: the state that the first leaves is carried to the second. -/
theorem Visits.pairwise {R : α → α → Prop} {Q : α → σ → Prop} (visits : Visits step s xs last)
    (leaves : ∀ s x m, step s x = .ok ([],m) → Q x m)
    (carries : ∀ x s y m, Q x s → step s y = .ok ([],m) → R x y ∧ Q x m) :
    xs.Pairwise R := by
  induction visits with
  | done => exact .nil
  | @next s m last x xs clean later ih =>
    apply List.Pairwise.cons _ ih
    intro y member
    have kept := later.each_holds (fun s y m held step => (carries x s y m held step).2)
      (leaves s x m clean)
    obtain ⟨s',m',held,step⟩ := kept y member
    exact (carries x s' y m' held step).1

end Findings
