import EvidenceV4.PolicyExpansion
import EvidenceV4.TransitionRun

/-!
# The scheduler loop

One loop admits physical executions from a queue while their tasks run. It gives
up control when it acquires resources, races its tasks or sleeps; between two
such points nothing else runs. Tasks raise and lower the observation barrier,
release their resources, halt the invocation and settle, in any order. The
session's lock table decides whether resources are free, and another session
can hold them too.
-/

set_option autoImplicit false

namespace EvidenceV4

/-- What the loop is given: recipes by position, the selected positions, and the bound. -/
structure Schedule where
  jobs : ℕ
  recipe : ℕ → Recipe
  queue : List ℕ
  distinct : queue.Nodup
  checkerResources : List String

namespace Scheduler

/-- A running execution: whether it holds its resources, has raised the observation barrier, and
has reached its final cleanup. -/
structure Task where
  slot : ℕ
  holding : Bool
  raised : Bool
  closing : Bool
  deriving DecidableEq

inductive Holder where
  | recipe (slot : ℕ)
  | checker (slot : ℕ)
  deriving DecidableEq

/-- Where the loop gave up control; an index is a position in the queue. -/
inductive Phase where
  | top
  | acquiring (index : ℕ)
  | granted (index : ℕ)
  | denied (index : ℕ)
  | releasing (index : ℕ)
  | racing (waiting : List ℕ)
  | sleeping
  | draining
  | ended
  deriving DecidableEq

/-- The flags at the moment in which a slot was taken off the queue and started. -/
structure Start where
  slot : ℕ
  barrier : ℕ
  halted : Bool
  cancelled : Bool
  deriving DecidableEq

inductive Mark where
  | haltedBeforeDispatch | cancelledBeforeDispatch
  deriving DecidableEq

structure State where
  phase : Phase
  queue : List ℕ
  active : List Task
  exclusive : Bool
  halted : Bool
  cancelled : Bool
  observationBarrier : ℕ
  admitted : Bool
  locks : List (String × Holder)
  started : List Start
  marked : List (ℕ × Mark)
  deriving DecidableEq

inductive Label where
  | enter | grant | deny | acquisitionFails | resume | released (failed : Bool) | wake | finish
  | raise (slot : ℕ) | release (slot : ℕ) | lower (slot : ℕ) | settle (slot : ℕ)
  | drop (slot : ℕ) (resource : String) | checkerGrant (slot : ℕ)
  | checkerDrop (slot : ℕ) (resource : String) | halt | cancel
  deriving DecidableEq

def initial (cfg : Schedule) : State where
  phase := .top
  queue := cfg.queue
  active := []
  exclusive := false
  halted := false
  cancelled := false
  observationBarrier := 0
  admitted := false
  locks := []
  started := []
  marked := []

section Loop

variable (cfg : Schedule)

/-- The next queue position at or after the index that the scan tries to take. -/
def nextIndex (s : State) (index : ℕ) : Option ℕ :=
  if s.active.length < cfg.jobs then
    (List.range s.queue.length).find? (fun i => decide (index ≤ i) &&
      !((cfg.recipe (s.queue.getD i 0)).exclusive && decide (s.active ≠ [])))
  else none

/-- The end of a round: race the tasks, sleep, leave the loop, or start the next round. -/
def bottom (s : State) : State :=
  if s.active ≠ [] then { s with phase := .racing (s.active.map Task.slot) }
  else if s.queue ≠ [] ∧ s.halted = false ∧ s.admitted = false then { s with phase := .sleeping }
  else if s.halted then { s with phase := .draining }
  else { s with phase := .top }

def scanFrom (s : State) (index : ℕ) : State :=
  match nextIndex cfg s index with
  | some i => { s with phase := .acquiring i }
  | none => bottom s

/-- From the head of the loop to the next point at which it gives up control. -/
def enterLoop (s : State) : State :=
  if s.queue = [] ∧ s.active = [] then { s with phase := .draining }
  else
    let s := { s with halted := s.halted || s.cancelled, admitted := false }
    if s.halted = false ∧ s.exclusive = false ∧ s.observationBarrier = 0 then scanFrom cfg s 0
    else bottom s

def started (s : State) (index slot : ℕ) : State :=
  { s with
    queue := s.queue.eraseIdx index
    admitted := true
    exclusive := s.exclusive || (cfg.recipe slot).exclusive
    active := s.active ++ [⟨slot,true,false,false⟩]
    started := s.started ++ [⟨slot,s.observationBarrier,s.halted,s.cancelled⟩] }

/-- The continuation of an admission whose resources were granted. -/
def admitSlot (s : State) (index slot : ℕ) : State :=
  if s.halted ∨ s.cancelled then { s with phase := .releasing index }
  else
    let s' := started cfg s index slot
    if s'.exclusive ∨ s'.halted ∨ s'.observationBarrier ≠ 0 then bottom s'
    else scanFrom cfg s' index

def finish (s : State) : State :=
  { s with
    phase := .ended
    marked := s.queue.map (fun slot =>
      (slot,if s.cancelled then .cancelledBeforeDispatch else .haltedBeforeDispatch)) }

end Loop

/-- All files are acquired, or none is. -/
def Free (s : State) (resources : List String) : Prop :=
  resources.Nodup ∧ ∀ r ∈ resources, r ∉ s.locks.map Prod.fst

instance (s : State) (resources : List String) : Decidable (Free s resources) :=
  inferInstanceAs (Decidable (_ ∧ _))

def acquire (s : State) (holder : Holder) (resources : List String) : State :=
  { s with locks := s.locks ++ resources.map (fun r => (r,holder)) }

def unlock (s : State) (entry : String × Holder) : State :=
  { s with locks := s.locks.filter (fun other => other ≠ entry) }

def taskOf (s : State) (slot : ℕ) : Option Task := s.active.find? (fun task => task.slot = slot)

def updateTask (s : State) (slot : ℕ) (change : Task → Task) : State :=
  { s with active := s.active.map (fun task => if task.slot = slot then change task else task) }

/-- A release removes the lock entries one by one: of a task that has begun its release, or of an
admission that the loop gives back. -/
def MayDrop (s : State) (slot : ℕ) : Prop :=
  (∃ task ∈ s.active, task.slot = slot ∧ task.holding = false) ∨
    match s.phase with
    | .releasing index => s.queue[index]? = some slot
    | _ => False

instance (s : State) (slot : ℕ) : Decidable (MayDrop s slot) :=
  match found : s.phase with
  | .releasing index => decidable_of_iff ((∃ task ∈ s.active, task.slot = slot ∧
      task.holding = false) ∨ s.queue[index]? = some slot) (by simp [MayDrop, found])
  | .top | .acquiring _ | .granted _ | .denied _ | .racing _ | .sleeping | .draining | .ended =>
    decidable_of_iff (∃ task ∈ s.active, task.slot = slot ∧ task.holding = false)
      (by simp [MayDrop, found])

variable (cfg : Schedule)

/-- A step of the task that runs the slot, where the task allows it. -/
def taskStep (s : State) (slot : ℕ) (allowed : Task → Bool) (next : Task → State) : Option State :=
  (taskOf s slot).bind (fun task => if allowed task then some (next task) else none)

def step (s : State) : Label → Option State
  | .enter => if s.phase = .top then some (enterLoop cfg s) else none
  | .grant =>
    match s.phase with
    | .acquiring index => (s.queue[index]?).bind (fun slot =>
      if Free s (cfg.recipe slot).resources then
        some { acquire s (.recipe slot) (cfg.recipe slot).resources with phase := .granted index }
      else none)
    | _ => none
  | .deny =>
    match s.phase with
    | .acquiring index => some { s with phase := .denied index }
    | _ => none
  | .acquisitionFails =>
    match s.phase with
    | .acquiring _ => some { s with phase := .draining, halted := true }
    | _ => none
  | .resume =>
    match s.phase with
    | .granted index => (s.queue[index]?).map (admitSlot cfg s index)
    | .denied index => some (scanFrom cfg s (index+1))
    | _ => none
  | .released failed =>
    match s.phase with
    | .releasing index => (s.queue[index]?).bind (fun slot =>
      if failed then some { s with phase := .draining, halted := true }
      else if ∀ r ∈ (cfg.recipe slot).resources, (r,Holder.recipe slot) ∉ s.locks then
        some (bottom { s with halted := true })
      else none)
    | _ => none
  | .wake =>
    match s.phase with
    | .racing waiting =>
      if ∃ slot ∈ waiting, slot ∉ s.active.map Task.slot then some { s with phase := .top }
      else none
    | .sleeping => some { s with phase := .top }
    | _ => none
  | .finish => if s.phase = .draining ∧ s.active = [] then some (finish s) else none
  | .raise slot => taskStep s slot (fun task => !task.raised && !task.closing) (fun _ =>
    { updateTask s slot (fun task => { task with raised := true }) with
      observationBarrier := s.observationBarrier+1 })
  | .release slot => taskStep s slot Task.holding (fun _ =>
    updateTask s slot (fun task => { task with holding := false }))
  | .lower slot => taskStep s slot (fun task => !task.closing) (fun task =>
    { updateTask s slot (fun task => { task with closing := true }) with
      observationBarrier := if task.raised then s.observationBarrier-1 else s.observationBarrier })
  | .settle slot => taskStep s slot Task.closing (fun _ =>
    { s with
      active := s.active.filter (fun task => task.slot ≠ slot)
      exclusive := if (cfg.recipe slot).exclusive then false else s.exclusive })
  | .drop slot resource =>
    if MayDrop s slot then some (unlock s (resource,.recipe slot)) else none
  | .checkerGrant slot => taskStep s slot (fun task => task.raised && !task.closing &&
      decide (Free s cfg.checkerResources)) (fun _ =>
    acquire s (.checker slot) cfg.checkerResources)
  | .checkerDrop slot resource => taskStep s slot Task.raised (fun _ =>
    unlock s (resource,.checker slot))
  | .halt => some { s with halted := true }
  | .cancel => some { s with cancelled := true }

end Scheduler

end EvidenceV4
