import EvidenceV4.CheckedExcept

/-!
# Computations that fail and leave their writes behind

A transaction reads and changes a state and may fail; what it wrote before it
failed stays written. A contract names what holds before, after a result and
after a failure. The rules compose contracts along the program text. Nothing
here depends on what the state is.
-/

set_option autoImplicit false

/-- A computation over a state that may fail without undoing what it did. -/
def Transaction (σ α : Type) : Type := σ → Except String α × σ

namespace Transaction

variable {σ τ α β ι : Type}

instance : Monad (Transaction σ) where
  pure a := fun s => (.ok a,s)
  bind x f := fun s =>
    match x s with
    | (.ok a,s') => f a s'
    | (.error message,s') => (.error message,s')

instance : LawfulMonad (Transaction σ) := by
  refine LawfulMonad.mk' _ ?_ ?_ ?_
  · intro α x
    funext s
    change (match x s with
      | (.ok a,s') => (.ok a,s')
      | (.error message,s') => (.error message,s')) = x s
    rcases x s with ⟨_ | _,_⟩ <;> rfl
  · intro α β a f
    rfl
  · intro α β γ x f g
    funext s
    change (match (match x s with
        | (.ok a,s') => f a s'
        | (.error message,s') => (.error message,s')) with
      | (.ok b,s') => g b s'
      | (.error message,s') => (.error message,s')) = match x s with
      | (.ok a,s') => (f a >>= g) s'
      | (.error message,s') => (.error message,s')
    rcases x s with ⟨_ | _,_⟩ <;> rfl

/-- Fail with a message. -/
def fail (message : String) : Transaction σ α := fun s => (.error message,s)

/-- Read from the state, and fail when the reader does. -/
def reading (read : σ → Except String α) : Transaction σ α := fun s => (read s,s)

def modify (change : σ → σ) : Transaction σ Unit := fun s => (.ok (),change s)

/-- Run a computation; when it fails, change the state and fail with its message. -/
def onFailure (x : Transaction σ α) (change : σ → σ) : Transaction σ α := fun s =>
  match x s with
  | (.ok a,s') => (.ok a,s')
  | (.error message,s') => (.error message,change s')

/-- A computation over one component of the state. -/
def within (get : σ → τ) (set : σ → τ → σ) (x : Transaction τ α) : Transaction σ α := fun s =>
  ((x (get s)).1,set s (x (get s)).2)

section Running

variable {x : Transaction σ α} {s s' : σ} {a : α} {message : String}

theorem bind_of_ok {next : α → Transaction σ β} (h : x s = (.ok a,s')) :
    (x >>= next) s = next a s' := by
  change (match x s with
    | (.ok a,s') => next a s'
    | (.error message,s') => (.error message,s')) = _
  rw [h]

theorem bind_of_error {next : α → Transaction σ β} (h : x s = (.error message,s')) :
    (x >>= next) s = (.error message,s') := by
  change (match x s with
    | (.ok a,s') => next a s'
    | (.error message,s') => (.error message,s')) = _
  rw [h]

theorem reading_of {read : σ → Except String α} {r : Except String α} (h : read s = r) :
    reading read s = (r,s) := by
  rw [reading, h]

theorem onFailure_of_ok {change : σ → σ} (h : x s = (.ok a,s')) :
    onFailure x change s = (.ok a,s') := by
  rw [onFailure, h]

theorem onFailure_of_error {change : σ → σ} (h : x s = (.error message,s')) :
    onFailure x change s = (.error message,change s') := by
  rw [onFailure, h]

/-- Two computations that run alike from two states go on alike. -/
theorem bind_congr_run {next : α → Transaction σ β} {t : σ} (h : x s = x t) :
    (x >>= next) s = (x >>= next) t := by
  rcases run : x t with ⟨_ | _,_⟩
  · rw [bind_of_error run, bind_of_error (h.trans run)]
  · rw [bind_of_ok run, bind_of_ok (h.trans run)]

end Running

/-- From every state with `pre` the computation reaches `post` with its result, or fails and
leaves a state with `abort`. -/
def Contract (pre : σ → Prop) (x : Transaction σ α) (post : α → σ → Prop) (abort : σ → Prop) :
    Prop :=
  ∀ s, pre s → (∀ a, (x s).1 = .ok a → post a (x s).2) ∧
    (∀ message, (x s).1 = .error message → abort (x s).2)

/-- The computation keeps the invariant, whether it fails or not. -/
def Keeps (invariant : σ → Prop) (x : Transaction σ α) : Prop :=
  ∀ s, invariant s → invariant (x s).2

variable {pre : σ → Prop} {post : α → σ → Prop} {abort invariant : σ → Prop}
  {x : Transaction σ α}

theorem Contract.keeps (h : Contract invariant x (fun _ => invariant) invariant) :
    Keeps invariant x := by
  intro s hs
  cases r : (x s).1 with
  | ok a => exact (h s hs).1 a r
  | error message => exact (h s hs).2 message r

theorem Keeps.contract (h : Keeps invariant x) :
    Contract invariant x (fun _ => invariant) invariant :=
  fun s hs => ⟨fun _ _ => h s hs,fun _ _ => h s hs⟩

theorem contract_pure (a : α) (h : ∀ s, pre s → post a s) :
    Contract pre (pure a : Transaction σ α) post abort :=
  fun s hs => ⟨fun _ e => Except.ok.inj e ▸ h s hs,nofun⟩

theorem contract_reading {read : σ → Except String α}
    (h : ∀ s a, pre s → read s = .ok a → post a s) (failed : ∀ s, pre s → abort s) :
    Contract pre (reading read) post abort :=
  fun s hs => ⟨fun a e => h s a hs e,fun _ _ => failed s hs⟩

theorem contract_bind {m : α → σ → Prop} {next : α → Transaction σ β}
    {post : β → σ → Prop} (first : Contract pre x m abort)
    (second : ∀ a, Contract (m a) (next a) post abort) :
    Contract pre (x >>= next) post abort := by
  intro s hs
  obtain ⟨done,failed⟩ := first s hs
  rcases r : x s with ⟨message | a,s'⟩
  · rw [bind_of_error r]
    refine ⟨nofun,fun _ _ => ?_⟩
    simpa [r] using failed message (by rw [r])
  · rw [bind_of_ok r]
    refine second a s' ?_
    simpa [r] using done a (by rw [r])

theorem contract_onFailure {change : σ → σ} {failure : σ → Prop}
    (h : Contract pre x post failure) (recover : ∀ s, failure s → abort (change s)) :
    Contract pre (onFailure x change) post abort := by
  intro s hs
  obtain ⟨done,failed⟩ := h s hs
  rcases r : x s with ⟨message | a,s'⟩
  · rw [onFailure_of_error r]
    refine ⟨nofun,fun _ _ => recover s' ?_⟩
    simpa [r] using failed message (by rw [r])
  · rw [onFailure_of_ok r]
    refine ⟨fun b e => ?_,nofun⟩
    obtain rfl := Except.ok.inj e
    simpa [r] using done a (by rw [r])

theorem contract_weaken {pre' : σ → Prop} {post' : α → σ → Prop} {abort' : σ → Prop}
    (h : Contract pre' x post' abort') (before : ∀ s, pre s → pre' s)
    (after : ∀ a s, post' a s → post a s) (failed : ∀ s, abort' s → abort s) :
    Contract pre x post abort :=
  fun s hs => ⟨fun a e => after a _ ((h s (before s hs)).1 a e),
    fun message e => failed _ ((h s (before s hs)).2 message e)⟩

theorem keeps_pure (a : α) : Keeps invariant (pure a : Transaction σ α) := fun _ h => h

theorem keeps_reading (read : σ → Except String α) : Keeps invariant (reading read) :=
  fun _ h => h

theorem keeps_bind {next : α → Transaction σ β} (first : Keeps invariant x)
    (second : ∀ a, Keeps invariant (next a)) : Keeps invariant (x >>= next) :=
  (contract_bind first.contract (fun a => (second a).contract)).keeps

/-- What follows a reader may use what was read. -/
theorem keeps_bind_reading {read : σ → Except String α} {next : α → Transaction σ β}
    (h : ∀ a s, read s = .ok a → invariant s → invariant (next a s).2) :
    Keeps invariant (reading read >>= next) := by
  intro s hs
  cases r : read s with
  | error message =>
    rw [bind_of_error (reading_of r)]
    exact hs
  | ok a =>
    rw [bind_of_ok (reading_of r)]
    exact h a s r hs

theorem keeps_fail (message : String) : Keeps invariant (fail message : Transaction σ α) :=
  fun _ h => h

theorem keeps_modify {change : σ → σ} (h : ∀ s, invariant s → invariant (change s)) :
    Keeps invariant (modify change) :=
  h

theorem keeps_onFailure {change : σ → σ} (first : Keeps invariant x)
    (recover : ∀ s, invariant s → invariant (change s)) : Keeps invariant (onFailure x change) :=
  (contract_onFailure first.contract recover).keeps

/-- A loop keeps what each round keeps. -/
theorem keeps_mapM {xs : List ι} {f : ι → Transaction σ α}
    (h : ∀ i ∈ xs, Keeps invariant (f i)) : Keeps invariant (xs.mapM f) := by
  induction xs with
  | nil => exact keeps_pure _
  | cons i xs ih =>
    rw [List.mapM_cons]
    exact keeps_bind (h i List.mem_cons_self) (fun _ =>
      keeps_bind (ih (fun j hj => h j (List.mem_cons_of_mem _ hj))) (fun _ => keeps_pure _))

end Transaction
