import EvidenceV4.Scheduler

/-!
# What every run of the scheduler keeps

The loop alone adds tasks, so what it tested before it gave up control still
holds when it resumes: fewer tasks than the bound, no exclusive task, and no
task at all when the next recipe is exclusive. The observation barrier is the
one flag that tasks raise meanwhile and that the loop does not test again.
-/

set_option autoImplicit false

namespace EvidenceV4

namespace Scheduler

open TransitionRun

variable {cfg : Schedule} {s s' : State} {slot index : ℕ}

/-- The task counts in the observation barrier. -/
def Observing (task : Task) : Bool := task.raised && !task.closing

/-- What holds of the queue, the tasks, the flags and the locks. -/
structure Core (cfg : Schedule) (s : State) : Prop where
  placed : (s.started.map Start.slot ++ s.queue).Perm cfg.queue
  tasks : (s.active.map Task.slot).Nodup
  running : ∀ t ∈ s.active, t.slot ∈ s.started.map Start.slot
  bound : s.active.length ≤ cfg.jobs
  flag : s.exclusive = true ↔ ∃ t ∈ s.active, (cfg.recipe t.slot).exclusive = true
  alone : ∀ t ∈ s.active, (cfg.recipe t.slot).exclusive = true → s.active.length = 1
  keys : (s.locks.map Prod.fst).Nodup
  holding : ∀ t ∈ s.active, t.holding = true → ∀ r ∈ (cfg.recipe t.slot).resources,
    (r,Holder.recipe t.slot) ∈ s.locks
  barrier : s.observationBarrier = s.active.countP Observing

/-- What the loop tested before it gave up control for this slot still holds. -/
structure Awaiting (cfg : Schedule) (s : State) (index slot : ℕ) : Prop where
  next : s.queue[index]? = some slot
  shared : s.exclusive = false
  room : s.active.length < cfg.jobs
  alone : (cfg.recipe slot).exclusive = true → s.active = []

/-- What holds at the point where the loop stands. -/
def PhaseHolds (cfg : Schedule) (s : State) : Prop :=
  match s.phase with
  | .acquiring index => ∃ slot, Awaiting cfg s index slot
  | .denied index => ∃ slot, Awaiting cfg s index slot
  | .granted index => ∃ slot, Awaiting cfg s index slot ∧
      ∀ r ∈ (cfg.recipe slot).resources, (r,Holder.recipe slot) ∈ s.locks
  | .ended => s.active = [] ∧ s.marked.map Prod.fst = s.queue
  | _ => True

/-- The two states differ in the position and the private flags of the loop only. -/
structure SameCore (s s' : State) : Prop where
  queue : s'.queue = s.queue
  active : s'.active = s.active
  exclusive : s'.exclusive = s.exclusive
  barrier : s'.observationBarrier = s.observationBarrier
  locks : s'.locks = s.locks
  started : s'.started = s.started

theorem Core.moved (h : Core cfg s) (same : SameCore s s') : Core cfg s' := by
  obtain ⟨placed,tasks,running,bound,flag,alone,keys,holding,barrier⟩ := h
  refine ⟨?_,?_,?_,?_,?_,?_,?_,?_,?_⟩
  · rwa [same.started, same.queue]
  · rwa [same.active]
  · rwa [same.active, same.started]
  · rwa [same.active]
  · rwa [same.exclusive, same.active]
  · rwa [same.active]
  · rwa [same.locks]
  · rwa [same.active, same.locks]
  · rwa [same.barrier, same.active]

theorem Awaiting.moved (h : Awaiting cfg s index slot) (same : SameCore s s') :
    Awaiting cfg s' index slot := by
  refine ⟨?_,?_,?_,?_⟩
  · rw [same.queue, h.next]
  · rw [same.exclusive, h.shared]
  · rw [same.active]
    exact h.room
  · rw [same.active]
    exact h.alone

section Loop

theorem bottom_same (s : State) : SameCore s (bottom s) := by
  unfold bottom
  split
  · exact ⟨rfl,rfl,rfl,rfl,rfl,rfl⟩
  · split
    · exact ⟨rfl,rfl,rfl,rfl,rfl,rfl⟩
    · split <;> exact ⟨rfl,rfl,rfl,rfl,rfl,rfl⟩

theorem bottom_phase (s : State) : PhaseHolds cfg (bottom s) := by
  unfold bottom
  split
  · exact trivial
  · split
    · exact trivial
    · split <;> exact trivial

theorem scanFrom_same (s : State) (index : ℕ) : SameCore s (scanFrom cfg s index) := by
  unfold scanFrom
  split
  · exact ⟨rfl,rfl,rfl,rfl,rfl,rfl⟩
  · exact bottom_same s

theorem nextIndex_some {i : ℕ} (h : nextIndex cfg s index = some i) :
    s.active.length < cfg.jobs ∧ ∃ slot, s.queue[i]? = some slot ∧
      ((cfg.recipe slot).exclusive = true → s.active = []) := by
  unfold nextIndex at h
  split at h
  · next room =>
    have inside : i < s.queue.length := List.mem_range.mp (List.mem_of_find?_eq_some h)
    have admissible := List.find?_some h
    have next : s.queue[i]? = some s.queue[i] := List.getElem?_eq_getElem inside
    refine ⟨room,s.queue[i],next,fun exclusive => ?_⟩
    simp [List.getD, next, exclusive] at admissible
    exact admissible.2
  · simp at h

theorem scanFrom_phase (shared : s.exclusive = false) : PhaseHolds cfg (scanFrom cfg s index) := by
  unfold scanFrom
  cases found : nextIndex cfg s index with
  | none => exact bottom_phase s
  | some i =>
    obtain ⟨room,slot,next,alone⟩ := nextIndex_some found
    exact ⟨slot,next,shared,room,alone⟩

theorem enterLoop_same (s : State) : SameCore s (enterLoop cfg s) := by
  unfold enterLoop
  split
  · exact ⟨rfl,rfl,rfl,rfl,rfl,rfl⟩
  · dsimp only
    split
    · obtain ⟨a,b,c,d,e,f⟩ := @scanFrom_same cfg
        { s with halted := s.halted || s.cancelled, admitted := false } 0
      exact ⟨a,b,c,d,e,f⟩
    · obtain ⟨a,b,c,d,e,f⟩ := bottom_same
        { s with halted := s.halted || s.cancelled, admitted := false }
      exact ⟨a,b,c,d,e,f⟩

theorem enterLoop_phase (s : State) : PhaseHolds cfg (enterLoop cfg s) := by
  unfold enterLoop
  split
  · exact trivial
  · dsimp only
    split
    · next tested => exact scanFrom_phase tested.2.1
    · exact bottom_phase _

end Loop

section Tasks

theorem Core.distinct (h : Core cfg s) : (s.started.map Start.slot ++ s.queue).Nodup :=
  h.placed.nodup_iff.mpr cfg.distinct

/-- A running task is not in the queue. -/
theorem Core.apart (h : Core cfg s) {t : Task} (ht : t ∈ s.active) (hq : slot ∈ s.queue) :
    t.slot ≠ slot := by
  intro e
  exact (List.nodup_append.mp h.distinct).2.2 _ (h.running t ht) slot hq e

theorem taskStep_some {allowed : Task → Bool} {next : Task → State}
    (h : taskStep s slot allowed next = some s') :
    ∃ task ∈ s.active, task.slot = slot ∧ allowed task = true ∧ s' = next task := by
  obtain ⟨task,found,moved⟩ := Option.bind_eq_some_iff.mp h
  split at moved
  · next ok =>
    refine ⟨task,List.mem_of_find?_eq_some found,by simpa using List.find?_some found,ok,?_⟩
    exact (Option.some.inj moved).symm
  · simp at moved

/-- One task among the others. -/
theorem tasks_split {tasks : List Task} (distinct : (tasks.map Task.slot).Nodup) {task : Task}
    (ht : task ∈ tasks) : ∃ before after, tasks = before ++ task :: after ∧
      ∀ t ∈ before ++ after, t.slot ≠ task.slot := by
  obtain ⟨before,after,rfl⟩ := List.append_of_mem ht
  refine ⟨before,after,rfl,fun t hm e => ?_⟩
  rw [List.map_append, List.map_cons, List.nodup_middle, List.nodup_cons, ← List.map_append]
    at distinct
  exact distinct.1 (e ▸ List.mem_map_of_mem hm)

theorem update_split {before after : List Task} {task : Task}
    (others : ∀ t ∈ before ++ after, t.slot ≠ task.slot) (change : Task → Task) :
    (before ++ task :: after).map (fun t => if t.slot = task.slot then change t else t) =
      before ++ change task :: after := by
  have same : ∀ part : List Task, (∀ t ∈ part, t ∈ before ++ after) →
      part.map (fun t => if t.slot = task.slot then change t else t) = part := by
    intro part inside
    refine (List.map_congr_left (fun t ht => ?_)).trans (List.map_id part)
    rw [if_neg (others t (inside t ht)), id]
  rw [List.map_append, List.map_cons, if_pos rfl, same before (by simp +contextual),
    same after (by simp +contextual)]

theorem filter_split {before after : List Task} {task : Task}
    (others : ∀ t ∈ before ++ after, t.slot ≠ task.slot) :
    (before ++ task :: after).filter (fun t => t.slot ≠ task.slot) = before ++ after := by
  have same : ∀ part : List Task, (∀ t ∈ part, t ∈ before ++ after) →
      part.filter (fun t => t.slot ≠ task.slot) = part := by
    intro part inside
    exact List.filter_eq_self.mpr (fun t ht => by simpa using others t (inside t ht))
  rw [List.filter_append, List.filter_cons_of_neg (by simp), same before (by simp +contextual),
    same after (by simp +contextual)]

/-- A task that changes its own record keeps the bounds, and changes the barrier by its own part. -/
theorem Core.updated (h : Core cfg s) {task : Task} (ht : task ∈ s.active) {change : Task → Task}
    (slots : ∀ t, (change t).slot = t.slot) (holds : ∀ t, (change t).holding = true →
      t.holding = true) {barrier : ℕ}
    (counted : barrier + (Observing task).toNat =
      s.observationBarrier + (Observing (change task)).toNat) :
    Core cfg { updateTask s task.slot change with observationBarrier := barrier } := by
  obtain ⟨placed,tasks,running,bound,flag,alone,keys,holding,count⟩ := h
  obtain ⟨before,after,shape,others⟩ := tasks_split tasks ht
  have updated := update_split others change
  rw [← shape] at updated
  have mapped : (s.active.map (fun t => if t.slot = task.slot then change t else t)).map Task.slot =
      s.active.map Task.slot := by
    rw [List.map_map]
    refine List.map_congr_left (fun t _ => ?_)
    simp only [Function.comp_apply]
    split
    · exact slots t
    · rfl
  have from_ : ∀ t ∈ s.active.map (fun t => if t.slot = task.slot then change t else t),
      ∃ t₀ ∈ s.active, t.slot = t₀.slot ∧ (t.holding = true → t₀.holding = true) := by
    intro t hm
    obtain ⟨t₀,h₀,rfl⟩ := List.mem_map.mp hm
    refine ⟨t₀,h₀,?_⟩
    split
    · exact ⟨slots t₀,holds t₀⟩
    · exact ⟨rfl,id⟩
  refine ⟨placed,?_,?_,?_,?_,?_,keys,?_,?_⟩
  · exact mapped ▸ tasks
  · intro t hm
    obtain ⟨t₀,h₀,e,_⟩ := from_ t hm
    exact e ▸ running t₀ h₀
  · simpa [updateTask] using bound
  · have slotsOf : ∀ list : List Task, (∃ t ∈ list, (cfg.recipe t.slot).exclusive = true) ↔
        ∃ slot ∈ list.map Task.slot, (cfg.recipe slot).exclusive = true := by simp
    change s.exclusive = true ↔ ∃ t ∈ s.active.map (fun t =>
      if t.slot = task.slot then change t else t), (cfg.recipe t.slot).exclusive = true
    rw [flag, slotsOf, slotsOf, mapped]
  · intro t hm exclusive
    obtain ⟨t₀,h₀,e,_⟩ := from_ t hm
    simpa [updateTask] using alone t₀ h₀ (e ▸ exclusive)
  · intro t hm held
    obtain ⟨t₀,h₀,e,back⟩ := from_ t hm
    exact e ▸ holding t₀ h₀ (back held)
  · have parts := counted
    rw [count, shape, List.countP_append, List.countP_cons] at parts
    change barrier = (s.active.map (fun t => if t.slot = task.slot then change t else t)).countP
      Observing
    rw [updated, List.countP_append, List.countP_cons]
    cases ob : Observing task <;> cases oc : Observing (change task) <;>
      simp [ob, oc] at parts ⊢ <;> omega

theorem Core.unlocked (h : Core cfg s) {entry : String × Holder}
    (free : ∀ t ∈ s.active, t.holding = true → entry.2 ≠ .recipe t.slot) :
    Core cfg (unlock s entry) := by
  obtain ⟨placed,tasks,running,bound,flag,alone,keys,holding,count⟩ := h
  refine ⟨placed,tasks,running,bound,flag,alone,?_,?_,count⟩
  · exact keys.sublist (List.filter_sublist.map Prod.fst)
  · intro t ht held r hr
    refine List.mem_filter.mpr ⟨holding t ht held r hr,?_⟩
    have other : (r,Holder.recipe t.slot) ≠ entry := fun e => free t ht held (e ▸ rfl)
    simpa using other

theorem Core.acquired (h : Core cfg s) {holder : Holder} {resources : List String}
    (free : Free s resources) : Core cfg (acquire s holder resources) := by
  obtain ⟨placed,tasks,running,bound,flag,alone,keys,holding,count⟩ := h
  refine ⟨placed,tasks,running,bound,flag,alone,?_,?_,count⟩
  · have added : (resources.map (fun r => (r,holder))).map Prod.fst = resources := by
      rw [List.map_map]
      exact List.map_id resources
    change ((s.locks ++ resources.map (fun r => (r,holder))).map Prod.fst).Nodup
    rw [List.map_append, added, List.nodup_append]
    exact ⟨keys,free.1,fun a ha b hb e => free.2 b hb (e ▸ ha)⟩
  · intro t ht held r hr
    exact List.mem_append_left _ (holding t ht held r hr)

theorem Core.settled (h : Core cfg s) {task : Task} (ht : task ∈ s.active)
    (closing : task.closing = true) :
    Core cfg { s with
      active := s.active.filter (fun t => t.slot ≠ task.slot)
      exclusive := if (cfg.recipe task.slot).exclusive then false else s.exclusive } := by
  obtain ⟨placed,tasks,running,bound,flag,alone,keys,holding,count⟩ := h
  obtain ⟨before,after,shape,others⟩ := tasks_split tasks ht
  have kept := filter_split others
  rw [← shape] at kept
  have inside : ∀ t ∈ s.active.filter (fun t => t.slot ≠ task.slot), t ∈ s.active :=
    fun t hm => (List.mem_filter.mp hm).1
  refine ⟨placed,?_,?_,?_,?_,?_,keys,?_,?_⟩
  · exact tasks.sublist (List.filter_sublist.map Task.slot)
  · exact fun t hm => running t (inside t hm)
  · exact (List.length_filter_le _ _).trans bound
  · by_cases exclusive : (cfg.recipe task.slot).exclusive = true
    · have one := alone task ht exclusive
      rw [shape, List.length_append, List.length_cons] at one
      have none : before ++ after = [] := List.eq_nil_of_length_eq_zero (by rw [List.length_append]; omega)
      simp only [exclusive, kept, none]
      simp
    · simp only [exclusive, kept]
      rw [shape] at flag
      simp only [Bool.false_eq_true, ite_false, flag, List.mem_append, List.mem_cons]
      constructor
      · rintro ⟨t,ht | rfl | ht,e⟩
        · exact ⟨t,Or.inl ht,e⟩
        · exact absurd e exclusive
        · exact ⟨t,Or.inr ht,e⟩
      · rintro ⟨t,ht | ht,e⟩
        · exact ⟨t,Or.inl ht,e⟩
        · exact ⟨t,Or.inr (Or.inr ht),e⟩
  · intro t hm exclusive
    have one := alone t (inside t hm) exclusive
    rw [shape, List.length_append, List.length_cons] at one
    have none : before ++ after = [] := List.eq_nil_of_length_eq_zero (by rw [List.length_append]; omega)
    rw [kept, none] at hm
    simp at hm
  · exact fun t hm => holding t (inside t hm)
  · rw [kept, count, shape, List.countP_append, List.countP_append, List.countP_cons]
    simp [Observing, closing]

end Tasks

section Admission

theorem queue_split {queue : List ℕ} (next : queue[index]? = some slot) :
    queue.Perm (slot :: queue.eraseIdx index) := by
  obtain ⟨inside,rfl⟩ := List.getElem?_eq_some_iff.mp next
  exact (List.getElem_cons_eraseIdx_perm inside).symm

/-- Taking the slot off the queue and starting it keeps the bounds. -/
theorem Core.dispatched (h : Core cfg s) (ready : Awaiting cfg s index slot)
    (locked : ∀ r ∈ (cfg.recipe slot).resources, (r,Holder.recipe slot) ∈ s.locks) :
    Core cfg (started cfg s index slot) := by
  have queued : slot ∈ s.queue := List.mem_of_getElem? ready.next
  have apart : ∀ t ∈ s.active, t.slot ≠ slot := fun t ht => h.apart ht queued
  obtain ⟨placed,tasks,running,bound,flag,alone,keys,holding,count⟩ := h
  refine ⟨?_,?_,?_,?_,?_,?_,keys,?_,?_⟩
  · simp only [started, List.map_append, List.map_cons, List.map_nil, List.append_assoc,
      List.singleton_append]
    exact ((queue_split ready.next).symm.append_left _).trans placed
  · simp only [started, List.map_append, List.map_cons, List.map_nil, List.nodup_append]
    refine ⟨tasks,by simp,?_⟩
    intro a ha b hb e
    obtain ⟨t,ht,rfl⟩ := List.mem_map.mp ha
    exact apart t ht (e.trans (List.mem_singleton.mp hb))
  · intro t hm
    simp only [started, List.map_append, List.map_cons, List.map_nil, List.mem_append,
      List.mem_singleton] at hm ⊢
    rcases hm with ht | rfl
    · exact Or.inl (running t ht)
    · exact Or.inr rfl
  · simpa [started] using Nat.succ_le_of_lt ready.room
  · simp only [started, ready.shared, Bool.false_or, List.mem_append, List.mem_singleton]
    constructor
    · exact fun exclusive => ⟨_,Or.inr rfl,exclusive⟩
    · rintro ⟨t,ht | rfl,exclusive⟩
      · exact absurd (flag.mpr ⟨t,ht,exclusive⟩) (by simp [ready.shared])
      · exact exclusive
  · intro t hm exclusive
    simp only [started, List.mem_append, List.mem_singleton] at hm ⊢
    rcases hm with ht | rfl
    · exact absurd (flag.mpr ⟨t,ht,exclusive⟩) (by simp [ready.shared])
    · simp [ready.alone exclusive]
  · intro t hm held r hr
    simp only [started, List.mem_append, List.mem_singleton] at hm ⊢
    rcases hm with ht | rfl
    · exact holding t ht held r hr
    · exact locked r hr
  · simp [started, count, Observing]

theorem admitSlot_core (h : Core cfg s) (ready : Awaiting cfg s index slot)
    (locked : ∀ r ∈ (cfg.recipe slot).resources, (r,Holder.recipe slot) ∈ s.locks) :
    Core cfg (admitSlot cfg s index slot) := by
  unfold admitSlot
  split
  · exact h.moved ⟨rfl,rfl,rfl,rfl,rfl,rfl⟩
  · dsimp only
    split
    · exact (h.dispatched ready locked).moved (bottom_same _)
    · exact (h.dispatched ready locked).moved (scanFrom_same _ _)

theorem admitSlot_phase (s : State) (index slot : ℕ) : PhaseHolds cfg (admitSlot cfg s index slot) := by
  unfold admitSlot
  split
  · exact trivial
  · dsimp only
    split
    · exact bottom_phase _
    · next continued =>
      refine scanFrom_phase ?_
      simpa using fun e => continued (Or.inl e)

end Admission

section Steps

/-- A step of a task or of another party leaves what the loop waits for. -/
theorem PhaseHolds.kept (h : PhaseHolds cfg s) (phase : s'.phase = s.phase)
    (queue : s'.queue = s.queue) (marked : s'.marked = s.marked)
    (shared : s.exclusive = false → s'.exclusive = false)
    (fewer : s'.active.length ≤ s.active.length)
    (locks : ∀ index, s.phase = .granted index → ∀ slot ∈ s.queue, ∀ r,
      (r,Holder.recipe slot) ∈ s.locks → (r,Holder.recipe slot) ∈ s'.locks) :
    PhaseHolds cfg s' := by
  have nothing : s.active = [] → s'.active = [] := by
    intro e
    rw [e] at fewer
    exact List.eq_nil_of_length_eq_zero (Nat.le_zero.mp fewer)
  have ready : ∀ index slot, Awaiting cfg s index slot → Awaiting cfg s' index slot :=
    fun index slot h => ⟨queue ▸ h.next,shared h.shared,fewer.trans_lt h.room,
      fun exclusive => nothing (h.alone exclusive)⟩
  unfold PhaseHolds at h ⊢
  rw [phase]
  cases at_ : s.phase with
  | acquiring index =>
    obtain ⟨slot,h⟩ := at_ ▸ h
    exact ⟨slot,ready index slot h⟩
  | denied index =>
    obtain ⟨slot,h⟩ := at_ ▸ h
    exact ⟨slot,ready index slot h⟩
  | granted index =>
    obtain ⟨slot,h,locked⟩ := at_ ▸ h
    exact ⟨slot,ready index slot h,fun r hr =>
      locks index at_ slot (List.mem_of_getElem? h.next) r (locked r hr)⟩
  | ended =>
    obtain ⟨none,listed⟩ := at_ ▸ h
    exact ⟨nothing none,by rw [marked, queue, listed]⟩
  | top | releasing | racing | sleeping | draining => exact trivial

/-- What one step of the loop, of a task or of the environment keeps. -/
theorem step_keeps {label : Label} (h : Core cfg s) (p : PhaseHolds cfg s)
    (moved : step cfg s label = some s') : Core cfg s' ∧ PhaseHolds cfg s' := by
  cases label with
  | enter =>
    simp only [step, Option.ite_none_right_eq_some] at moved
    obtain ⟨_,moved⟩ := moved
    obtain rfl := Option.some.inj moved
    exact ⟨h.moved (enterLoop_same s),enterLoop_phase s⟩
  | grant =>
    simp only [step] at moved
    split at moved
    · next index at_ =>
      obtain ⟨slot,next,moved⟩ := Option.bind_eq_some_iff.mp moved
      split at moved
      · next free =>
        obtain rfl := Option.some.inj moved
        unfold PhaseHolds at p
        rw [at_] at p
        obtain ⟨slot',ready⟩ := p
        obtain rfl : slot = slot' := Option.some.inj (next.symm.trans ready.next)
        refine ⟨(h.acquired free).moved ⟨rfl,rfl,rfl,rfl,rfl,rfl⟩,slot,
          ⟨ready.next,ready.shared,ready.room,ready.alone⟩,fun r hr => ?_⟩
        exact List.mem_append_right _ (List.mem_map_of_mem hr)
      · simp at moved
    · simp at moved
  | deny =>
    simp only [step] at moved
    split at moved
    · next index at_ =>
      obtain rfl := Option.some.inj moved
      unfold PhaseHolds at p
      rw [at_] at p
      obtain ⟨slot,ready⟩ := p
      exact ⟨h.moved ⟨rfl,rfl,rfl,rfl,rfl,rfl⟩,slot,
        ⟨ready.next,ready.shared,ready.room,ready.alone⟩⟩
    · simp at moved
  | acquisitionFails =>
    simp only [step] at moved
    split at moved
    · obtain rfl := Option.some.inj moved
      exact ⟨h.moved ⟨rfl,rfl,rfl,rfl,rfl,rfl⟩,trivial⟩
    · simp at moved
  | resume =>
    simp only [step] at moved
    split at moved
    · next index at_ =>
      obtain ⟨slot,next,rfl⟩ := Option.map_eq_some_iff.mp moved
      unfold PhaseHolds at p
      rw [at_] at p
      obtain ⟨slot',ready,locked⟩ := p
      obtain rfl : slot = slot' := Option.some.inj (next.symm.trans ready.next)
      exact ⟨admitSlot_core h ready locked,admitSlot_phase s index slot⟩
    · next index at_ =>
      obtain rfl := Option.some.inj moved
      unfold PhaseHolds at p
      rw [at_] at p
      obtain ⟨slot,ready⟩ := p
      exact ⟨h.moved (scanFrom_same s _),scanFrom_phase ready.shared⟩
    · simp at moved
  | released failed =>
    simp only [step] at moved
    split at moved
    · obtain ⟨slot,_,moved⟩ := Option.bind_eq_some_iff.mp moved
      split at moved
      · obtain rfl := Option.some.inj moved
        exact ⟨h.moved ⟨rfl,rfl,rfl,rfl,rfl,rfl⟩,trivial⟩
      · split at moved
        · obtain rfl := Option.some.inj moved
          have halted : Core cfg { s with halted := true } :=
            h.moved ⟨rfl,rfl,rfl,rfl,rfl,rfl⟩
          exact ⟨halted.moved (bottom_same _),bottom_phase _⟩
        · simp at moved
    · simp at moved
  | wake =>
    simp only [step] at moved
    split at moved
    · simp only [Option.ite_none_right_eq_some] at moved
      obtain ⟨_,moved⟩ := moved
      obtain rfl := Option.some.inj moved
      exact ⟨h.moved ⟨rfl,rfl,rfl,rfl,rfl,rfl⟩,trivial⟩
    · obtain rfl := Option.some.inj moved
      exact ⟨h.moved ⟨rfl,rfl,rfl,rfl,rfl,rfl⟩,trivial⟩
    · simp at moved
  | finish =>
    simp only [step, Option.ite_none_right_eq_some] at moved
    obtain ⟨⟨_,none⟩,moved⟩ := moved
    obtain rfl := Option.some.inj moved
    refine ⟨h.moved ⟨rfl,rfl,rfl,rfl,rfl,rfl⟩,none,?_⟩
    simp [finish, Function.comp_def]
  | raise slot =>
    obtain ⟨task,ht,rfl,allowed,rfl⟩ := taskStep_some moved
    simp only [Bool.and_eq_true, Bool.not_eq_true'] at allowed
    refine ⟨h.updated ht ?_ ?_ ?_,
      p.kept rfl rfl rfl id (by simp [updateTask]) (fun _ _ _ _ _ => id)⟩
    · exact fun _ => rfl
    · exact fun _ => id
    · simp [Observing, allowed]
  | release slot =>
    obtain ⟨task,ht,rfl,_,rfl⟩ := taskStep_some moved
    refine ⟨h.updated ht ?_ ?_ ?_,
      p.kept rfl rfl rfl id (by simp [updateTask]) (fun _ _ _ _ _ => id)⟩
    · exact fun _ => rfl
    · simp
    · rfl
  | lower slot =>
    obtain ⟨task,ht,rfl,allowed,rfl⟩ := taskStep_some moved
    simp only [Bool.not_eq_true'] at allowed
    refine ⟨h.updated ht ?_ ?_ ?_,
      p.kept rfl rfl rfl id (by simp [updateTask]) (fun _ _ _ _ _ => id)⟩
    · exact fun _ => rfl
    · exact fun _ => id
    · cases raised : task.raised with
      | false => simp [Observing, raised]
      | true =>
        have counted : 0 < s.observationBarrier := by
          rw [h.barrier]
          exact List.countP_pos_iff.mpr ⟨task,ht,by simp [Observing, raised, allowed]⟩
        simp [Observing, raised, allowed]
        omega
  | settle slot =>
    obtain ⟨task,ht,rfl,closing,rfl⟩ := taskStep_some moved
    refine ⟨h.settled ht closing,p.kept rfl rfl rfl ?_ (List.length_filter_le _ _)
      (fun _ _ _ _ _ => id)⟩
    intro shared
    simp [shared]
  | drop slot resource =>
    simp only [step, Option.ite_none_right_eq_some] at moved
    obtain ⟨may,moved⟩ := moved
    obtain rfl := Option.some.inj moved
    refine ⟨h.unlocked (fun t ht held e => ?_),
      p.kept rfl rfl rfl id le_rfl (fun index at_ other hq r hr => ?_)⟩
    · have same : slot = t.slot := by simpa using e
      rcases may with ⟨task,hm,e,released⟩ | waiting
      · have one : t = task := List.inj_on_of_nodup_map h.tasks ht hm (same ▸ e.symm)
        rw [one, released] at held
        simp at held
      · split at waiting
        · exact h.apart ht (List.mem_of_getElem? waiting) same.symm
        · exact waiting
    · refine List.mem_filter.mpr ⟨hr,?_⟩
      suffices other ≠ slot by simp [this]
      rcases may with ⟨task,hm,rfl,_⟩ | waiting
      · exact (h.apart hm hq).symm
      · rw [at_] at waiting
        exact waiting.elim
  | checkerGrant slot =>
    obtain ⟨task,ht,rfl,allowed,rfl⟩ := taskStep_some moved
    simp only [Bool.and_eq_true, decide_eq_true_eq] at allowed
    exact ⟨h.acquired allowed.2,p.kept rfl rfl rfl id le_rfl
      (fun _ _ _ _ _ => List.mem_append_left _)⟩
  | checkerDrop slot resource =>
    obtain ⟨task,ht,rfl,_,rfl⟩ := taskStep_some moved
    refine ⟨h.unlocked (by simp),p.kept rfl rfl rfl id le_rfl (fun _ _ _ _ _ held => ?_)⟩
    exact List.mem_filter.mpr ⟨held,by simp⟩
  | halt =>
    obtain rfl := Option.some.inj moved
    exact ⟨h.moved ⟨rfl,rfl,rfl,rfl,rfl,rfl⟩,p.kept rfl rfl rfl id le_rfl
      (fun _ _ _ _ _ => id)⟩
  | cancel =>
    obtain rfl := Option.some.inj moved
    exact ⟨h.moved ⟨rfl,rfl,rfl,rfl,rfl,rfl⟩,p.kept rfl rfl rfl id le_rfl
      (fun _ _ _ _ _ => id)⟩

theorem initial_keeps (cfg : Schedule) : Core cfg (initial cfg) ∧ PhaseHolds cfg (initial cfg) :=
  ⟨⟨List.Perm.refl _,List.nodup_nil,by simp [initial],Nat.zero_le _,by simp [initial],
    by simp [initial],List.nodup_nil,by simp [initial],rfl⟩,trivial⟩

theorem reaches_keeps {allowed : State → Label → Prop}
    (h : Reaches (step cfg) allowed (initial cfg) s) : Core cfg s ∧ PhaseHolds cfg s :=
  h.invariant (P := fun s => Core cfg s ∧ PhaseHolds cfg s) (initial_keeps cfg)
    (fun _ _ _ h _ moved => step_keeps h.1 h.2 moved)

end Steps

section Safety

/-- The resources that the lock table gives to the task. -/
def held (s : State) (task : Task) : List String :=
  (s.locks.filter (fun entry => entry.2 = .recipe task.slot)).map Prod.fst

theorem held_disjoint (h : Core cfg s) {t u : Task} (different : t.slot ≠ u.slot) :
    (held s t).Disjoint (held s u) := by
  intro r ht hu
  simp only [held, List.mem_map, List.mem_filter, decide_eq_true_eq] at ht hu
  obtain ⟨a,⟨ha,ofT⟩,ra⟩ := ht
  obtain ⟨b,⟨hb,ofU⟩,rb⟩ := hu
  have same : a = b := List.inj_on_of_nodup_map h.keys ha hb (ra.trans rb.symm)
  rw [same, ofU] at ofT
  exact different (Holder.recipe.inj ofT).symm

theorem held_all (h : Core cfg s) {t : Task} (ht : t ∈ s.active) (holds : t.holding = true) :
    (cfg.recipe t.slot).resources ⊆ held s t := by
  intro r hr
  refine List.mem_map.mpr ⟨_,List.mem_filter.mpr ⟨h.holding t ht holds r hr,?_⟩,rfl⟩
  simp

theorem Core.exclusive_alone (h : Core cfg s) {t : Task} (ht : t ∈ s.active)
    (exclusive : (cfg.recipe t.slot).exclusive = true) : s.active = [t] := by
  obtain ⟨only,one⟩ := List.length_eq_one_iff.mp (h.alone t ht exclusive)
  rw [one, List.mem_singleton] at ht
  rw [one, ht]

theorem started_once (h : Core cfg s) : (s.started.map Start.slot).Nodup :=
  (List.nodup_append.mp h.distinct).1

theorem ended_covers (h : Core cfg s) (p : PhaseHolds cfg s) (ended : s.phase = .ended) :
    ∀ slot ∈ cfg.queue, slot ∈ s.started.map Start.slot ∨ slot ∈ s.marked.map Prod.fst := by
  intro slot selected
  unfold PhaseHolds at p
  rw [ended] at p
  rw [p.2]
  exact List.mem_append.mp (h.placed.mem_iff.mpr selected)

/-- In every order of grants, refusals and completions: the bound on running executions, an
exclusive execution alone, disjoint resources, every slot started at most once, and at the end no
selected slot forgotten. -/
theorem schedule_safe (h : Reaches (step cfg) TransitionRun.Free (initial cfg) s) :
    s.active.length ≤ cfg.jobs ∧
    (∀ t ∈ s.active, (cfg.recipe t.slot).exclusive = true → s.active = [t]) ∧
    (∀ t ∈ s.active, t.holding = true → (cfg.recipe t.slot).resources ⊆ held s t) ∧
    s.active.Pairwise (fun t u => (held s t).Disjoint (held s u)) ∧
    (s.started.map Start.slot).Nodup ∧
    (s.phase = .ended →
      ∀ slot ∈ cfg.queue, slot ∈ s.started.map Start.slot ∨ slot ∈ s.marked.map Prod.fst) := by
  obtain ⟨core,phase⟩ := reaches_keeps h
  refine ⟨core.bound,fun t => core.exclusive_alone,fun t => held_all core,?_,
    started_once core,ended_covers core phase⟩
  have apart : s.active.Pairwise (fun t u => t.slot ≠ u.slot) := List.pairwise_map.mp core.tasks
  exact apart.imp (held_disjoint core)

/-- Two executions that share a resource, and a third one. -/
def sampleSchedule : Schedule where
  jobs := 2
  recipe := fun slot => { PolicyDocument.sampleRecipe "recipe" .fixed with
    resources := if slot = 2 then ["solver"] else ["server"] }
  queue := [0,1,2]
  distinct := by decide
  checkerResources := []

def sampleLabels : List Label :=
  [.enter,.grant,.resume,.deny,.resume,.grant,.resume,.raise 0,.release 0,.drop 0 "server",.halt,
    .lower 0,.settle 0,.wake,.enter,.release 2,.drop 2 "solver",.lower 2,.settle 2,.wake,.enter,
    .finish]

theorem schedule_safe_sample : ∃ s,
    run (step sampleSchedule) sampleLabels (initial sampleSchedule) = some s ∧
    s.active.length ≤ 2 ∧
    (s.started.map Start.slot).Nodup ∧
    (s.phase = .ended →
      ∀ slot ∈ [0,1,2], slot ∈ s.started.map Start.slot ∨ slot ∈ s.marked.map Prod.fst) := by
  have finished : (run (step sampleSchedule) sampleLabels (initial sampleSchedule)).isSome := by
    decide +kernel
  obtain ⟨s,ran⟩ := Option.isSome_iff_exists.mp finished
  obtain ⟨bound,_,_,_,once,covered⟩ :=
    schedule_safe (reaches_run .start (meets_free sampleLabels _) ran)
  exact ⟨s,ran,bound,once,covered⟩

example : (run (step sampleSchedule) sampleLabels (initial sampleSchedule)).map
    (fun s => (s.phase,s.started.map Start.slot,s.marked)) =
      some (.ended,[0,2],[(1,.haltedBeforeDispatch)]) := by decide +kernel

end Safety

section Barrier

/-- The execution is started while nothing is observed, halted or cancelled. -/
def Start.Clear (start : Start) : Prop :=
  start.barrier = 0 ∧ start.halted = false ∧ start.cancelled = false

instance (start : Start) : Decidable start.Clear := inferInstanceAs (Decidable (_ ∧ _))

def Acquiring (s : State) : Prop :=
  match s.phase with
  | .acquiring _ | .granted _ | .denied _ => True
  | _ => False

instance (s : State) : Decidable (Acquiring s) :=
  match found : s.phase with
  | .acquiring _ | .granted _ | .denied _ => isTrue (by simp [Acquiring, found])
  | .top | .releasing _ | .racing _ | .sleeping | .draining | .ended =>
    isFalse (by simp [Acquiring, found])

/-- No execution of a running invocation completes while the loop waits for resources. -/
def Quiet (s : State) (label : Label) : Prop :=
  match label with
  | .raise _ => Acquiring s → s.halted = true ∨ s.cancelled = true
  | _ => True

instance (s : State) (label : Label) : Decidable (Quiet s label) :=
  match label with
  | .raise _ => inferInstanceAs (Decidable (Acquiring s → _))
  | .enter | .grant | .deny | .acquisitionFails | .resume | .released _ | .wake | .finish
  | .release _ | .lower _ | .settle _ | .drop _ _ | .checkerGrant _ | .checkerDrop _ _
  | .halt | .cancel => inferInstanceAs (Decidable True)

/-- The invariant of the runs in which the barrier is raised between two scans only. -/
structure Unraised (s : State) : Prop where
  waiting : Acquiring s → s.halted = true ∨ s.cancelled = true ∨ s.observationBarrier = 0
  clear : ∀ start ∈ s.started, start.Clear

theorem Unraised.elsewhere (h : Unraised s) (idle : ¬Acquiring s')
    (started : s'.started = s.started) : Unraised s' :=
  ⟨fun at_ => absurd at_ idle,started ▸ h.clear⟩

theorem bottom_idle (s : State) : ¬Acquiring (bottom s) := by
  unfold bottom
  split
  · exact not_false
  · split
    · exact not_false
    · split <;> exact not_false

theorem scanFrom_unraised (clear : ∀ start ∈ s.started, start.Clear)
    (tested : s.halted = true ∨ s.cancelled = true ∨ s.observationBarrier = 0) :
    Unraised (scanFrom cfg s index) := by
  refine ⟨fun at_ => ?_,(scanFrom_same s index).started ▸ clear⟩
  unfold scanFrom at at_ ⊢
  split
  · exact tested
  · next found =>
    rw [found] at at_
    exact absurd at_ (bottom_idle s)

theorem enterLoop_unraised (h : Unraised s) : Unraised (enterLoop cfg s) := by
  unfold enterLoop
  split
  · exact h.elsewhere not_false rfl
  · dsimp only
    split
    · next tested => exact scanFrom_unraised h.clear (Or.inr (Or.inr tested.2.2))
    · exact h.elsewhere (bottom_idle _) (bottom_same _).started

/-- The admission starts the execution only when the invocation runs, and no barrier is up. -/
theorem admitSlot_unraised (h : Unraised s) (at_ : Acquiring s) :
    Unraised (admitSlot cfg s index slot) := by
  unfold admitSlot
  split
  · exact h.elsewhere not_false rfl
  · next runs =>
    have halted : s.halted = false := by simpa using fun e => runs (Or.inl e)
    have cancelled : s.cancelled = false := by simpa using fun e => runs (Or.inr e)
    have barrier : s.observationBarrier = 0 := by
      rcases h.waiting at_ with e | e | e
      · simp [halted] at e
      · simp [cancelled] at e
      · exact e
    have clear : ∀ start ∈ (started cfg s index slot).started, start.Clear := by
      intro start hm
      rcases List.mem_append.mp hm with hm | hm
      · exact h.clear start hm
      · rw [List.mem_singleton.mp hm]
        exact ⟨barrier,halted,cancelled⟩
    dsimp only
    split
    · refine ⟨fun at_ => absurd at_ (bottom_idle _),?_⟩
      rwa [(bottom_same (started cfg s index slot)).started]
    · exact scanFrom_unraised clear (Or.inr (Or.inr barrier))

/-- A step away from the loop keeps what was tested, when it does not raise the barrier. -/
theorem Unraised.kept (h : Unraised s) (phase : s'.phase = s.phase)
    (started : s'.started = s.started) (halted : s.halted = true → s'.halted = true)
    (cancelled : s.cancelled = true → s'.cancelled = true)
    (barrier : s.observationBarrier = 0 → s'.observationBarrier = 0) : Unraised s' := by
  refine ⟨fun at_ => ?_,started ▸ h.clear⟩
  have before : Acquiring s := by
    unfold Acquiring at at_ ⊢
    rwa [phase] at at_
  exact (h.waiting before).imp halted (Or.imp cancelled barrier)

theorem step_unraised {label : Label} (h : Unraised s) (quiet : Quiet s label)
    (moved : step cfg s label = some s') : Unraised s' := by
  cases label with
  | enter =>
    simp only [step, Option.ite_none_right_eq_some] at moved
    exact Option.some.inj moved.2 ▸ enterLoop_unraised h
  | grant =>
    simp only [step] at moved
    split at moved
    · next index at_ =>
      obtain ⟨slot,_,moved⟩ := Option.bind_eq_some_iff.mp moved
      split at moved
      · obtain rfl := Option.some.inj moved
        exact ⟨fun _ => h.waiting (by simp [Acquiring, at_]),h.clear⟩
      · simp at moved
    · simp at moved
  | deny =>
    simp only [step] at moved
    split at moved
    · next index at_ =>
      obtain rfl := Option.some.inj moved
      exact ⟨fun _ => h.waiting (by simp [Acquiring, at_]),h.clear⟩
    · simp at moved
  | acquisitionFails =>
    simp only [step] at moved
    split at moved
    · obtain rfl := Option.some.inj moved
      exact h.elsewhere not_false rfl
    · simp at moved
  | resume =>
    simp only [step] at moved
    split at moved
    · next index at_ =>
      obtain ⟨slot,_,rfl⟩ := Option.map_eq_some_iff.mp moved
      exact admitSlot_unraised h (by simp [Acquiring, at_])
    · next index at_ =>
      obtain rfl := Option.some.inj moved
      exact scanFrom_unraised h.clear (h.waiting (by simp [Acquiring, at_]))
    · simp at moved
  | released failed =>
    simp only [step] at moved
    split at moved
    · obtain ⟨slot,_,moved⟩ := Option.bind_eq_some_iff.mp moved
      split at moved
      · obtain rfl := Option.some.inj moved
        exact h.elsewhere not_false rfl
      · split at moved
        · obtain rfl := Option.some.inj moved
          exact h.elsewhere (bottom_idle _) (bottom_same _).started
        · simp at moved
    · simp at moved
  | wake =>
    simp only [step] at moved
    split at moved
    · simp only [Option.ite_none_right_eq_some] at moved
      exact Option.some.inj moved.2 ▸ h.elsewhere not_false rfl
    · exact Option.some.inj moved ▸ h.elsewhere not_false rfl
    · simp at moved
  | finish =>
    simp only [step, Option.ite_none_right_eq_some] at moved
    exact Option.some.inj moved.2 ▸ h.elsewhere not_false rfl
  | raise slot =>
    obtain ⟨task,_,_,_,rfl⟩ := taskStep_some moved
    refine ⟨fun at_ => ?_,h.clear⟩
    exact (quiet at_).imp_right Or.inl
  | lower slot =>
    obtain ⟨task,_,_,_,rfl⟩ := taskStep_some moved
    refine h.kept rfl rfl id id (fun zero => ?_)
    simp [zero]
  | release slot | settle slot | checkerGrant slot | checkerDrop slot resource =>
    obtain ⟨task,_,_,_,rfl⟩ := taskStep_some moved
    exact h.kept rfl rfl id id id
  | drop slot resource =>
    simp only [step, Option.ite_none_right_eq_some] at moved
    exact Option.some.inj moved.2 ▸ h.kept rfl rfl id id id
  | halt =>
    obtain rfl := Option.some.inj moved
    exact h.kept rfl rfl (fun _ => rfl) id id
  | cancel =>
    obtain rfl := Option.some.inj moved
    exact h.kept rfl rfl id (fun _ => rfl) id

/-- When no execution completes while the loop waits for resources, every execution is started
with the barrier down, before any halt and any cancellation. -/
theorem dispatch_clear (h : Reaches (step cfg) Quiet (initial cfg) s) :
    ∀ start ∈ s.started, start.Clear := by
  have start : Unraised (initial cfg) := ⟨fun at_ => at_.elim,by simp [initial]⟩
  exact (h.invariant start (fun _ _ _ h quiet moved => step_unraised h quiet moved)).clear

theorem dispatch_clear_sample : ∃ s,
    run (step sampleSchedule) sampleLabels (initial sampleSchedule) = some s ∧
    ∀ start ∈ s.started, start.Clear := by
  have finished : (run (step sampleSchedule) sampleLabels (initial sampleSchedule)).isSome := by
    decide +kernel
  obtain ⟨s,ran⟩ := Option.isSome_iff_exists.mp finished
  have meets : Meets (step sampleSchedule) Quiet sampleLabels (initial sampleSchedule) := by
    decide +kernel
  exact ⟨s,ran,dispatch_clear (reaches_run .start meets ran)⟩

/-- The first execution completes while the loop waits for the resources of the third. -/
def lateLabels : List Label := [.enter,.grant,.resume,.deny,.resume,.raise 0,.grant,.resume]

theorem dispatch_behind_completion :
    ¬∀ s, Reaches (step sampleSchedule) TransitionRun.Free (initial sampleSchedule) s →
      ∀ start ∈ s.started, start.Clear := by
  intro claimed
  have late : (run (step sampleSchedule) lateLabels (initial sampleSchedule)).map State.started =
      some [⟨0,0,false,false⟩,⟨2,1,false,false⟩] := by decide +kernel
  obtain ⟨s,ran,started⟩ := Option.map_eq_some_iff.mp late
  have clear : Start.Clear ⟨2,1,false,false⟩ :=
    claimed s (reaches_run .start (meets_free lateLabels _) ran) _ (by simp [started])
  exact absurd clear (by decide)

end Barrier

end Scheduler

end EvidenceV4
