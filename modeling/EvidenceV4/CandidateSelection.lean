import EvidenceV4.HistoryInvariant
import EvidenceV4.Supersession

/-!
# Selection of reusable evidence

For each member of a descriptor the store looks for the last passing execution
that stands after every failure barrier of the member and has a passing
observation of its own. The scan is the selection of the last eligible success
in a numbered log, so it is exact. Failures of an observation reach only the
member they name; failures of an execution reach every member they record.
-/

set_option autoImplicit false

namespace EvidenceV4

structure Candidate where
  execution : ExecutionRef
  artifact : ExecutionArtifact
  sequence : ℕ
  observation : FileRef
  deriving DecidableEq

structure CandidateSelection where
  member : Member
  candidate : Option Candidate
  blockingEvents : List HistoryRef
  state : SlotState
  deriving DecidableEq

namespace CandidateSelection

open CheckedExcept StoreDocument RetainedFiles ExecutionArchive RetainedHistory PrefixLog
open Supersession

variable (D : Digests)

def IsPassingExecution (key : Hash) (event : HistoryEvent) : Prop :=
  event.kind = .execution ∧ event.result = .pass ∧ event.executionKey = key

instance (key : Hash) (event : HistoryEvent) : Decidable (IsPassingExecution key event) :=
  inferInstanceAs (Decidable (_ ∧ _))

def IsPassingObservation (key : Hash) (attempt : UUID) (member : Member) (event : HistoryEvent) :
    Prop :=
  event.kind = .observation ∧ event.result = .pass ∧ event.executionKey = key ∧
    event.attemptId = attempt ∧ Selects event.toEventInput member

instance (key : Hash) (attempt : UUID) (member : Member) (event : HistoryEvent) :
    Decidable (IsPassingObservation key attempt member event) :=
  inferInstanceAs (Decidable (_ ∧ _))

def passingExecutions (key : Hash) (events : List HistoryEvent) :
    List (HistoryEvent × ExecutionRef) :=
  events.filterMap (fun event =>
    if IsPassingExecution key event then event.execution.map (fun ref => (event,ref)) else none)

/-- A passing execution event with its reference and its artifact. -/
structure PassingItem where
  event : HistoryEvent
  execution : ExecutionRef
  artifact : ExecutionArtifact

def readCandidate (s : Store) (descriptor : ExecutionDescriptor)
    (found : HistoryEvent × ExecutionRef) : Except String PassingItem := do
  let artifact ← readExecution D s found.2 none
  require (artifact.descriptor = descriptor) "candidate descriptor differs from current descriptor"
  pure ⟨found.1,found.2,artifact⟩

/-- The candidate that one passing execution gives, if it stands after the cutoff. -/
def offerCandidate (events : List HistoryEvent) (key : Hash) (member : Member) (barrier : ℕ)
    (item : PassingItem) : Option Candidate :=
  if item.event.sequence ≤ barrier then none
  else
    let observations := events.filter (fun event =>
      IsPassingObservation key item.event.attemptId member event ∧
        item.event.sequence < event.sequence)
    (observations.getLast?.bind (fun event => event.observation)).map
      (fun observation => ⟨item.execution,item.artifact,item.event.sequence,observation⟩)

def selectionState (candidate : Option Candidate) (blockers : List HistoryEvent) (barrier : ℕ) :
    SlotState :=
  if candidate.isSome then .pass
  else if blockers.any (fun event => event.result = .fail) then .fail
  else if barrier ≠ 0 then .error
  else .missing

def selectMember (descriptor : ExecutionDescriptor) (snapshot : HistorySnapshot) (key : Hash)
    (candidates : List PassingItem) (member : Member) : Except String CandidateSelection := do
  require (member ∈ descriptor.members) "selected member absent from full descriptor"
  let blockers := snapshot.events.filter (fun event => barrierApplies event member)
  let barrier := (blockers.getLast?.map (fun event => event.sequence)).getD 0
  let candidate := candidates.foldl (fun candidate item =>
    (offerCandidate snapshot.events key member barrier item).or candidate) none
  pure
    { member := member
      candidate := candidate
      blockingEvents := blockers.filterMap (fun event => snapshot.view.events[event.sequence-1]?)
      state := selectionState candidate blockers barrier }

def selectCandidates (s : Store) (descriptor : ExecutionDescriptor) (selectedMembers : List Member)
    (snapshot : HistorySnapshot) : Except String (List CandidateSelection) := do
  validateExecutionDescriptor D descriptor
  let key := D.executionKey descriptor
  let candidates ← (passingExecutions key snapshot.events).mapM (readCandidate D s descriptor)
  selectedMembers.mapM (selectMember descriptor snapshot key candidates)

/-- A passing observation of the execution for the member, recorded later. -/
structure Confirms (events : List HistoryEvent) (member : Member) (e o : HistoryEvent) : Prop where
  mem : o ∈ events
  passing : IsPassingObservation e.executionKey e.attemptId member o
  later : e.sequence < o.sequence

/-- A passing execution of the descriptor after every barrier of the member, with an observation. -/
structure EligibleExecution (descriptor : ExecutionDescriptor) (events : List HistoryEvent)
    (member : Member) (e : HistoryEvent) : Prop where
  mem : e ∈ events
  passing : IsPassingExecution (D.executionKey descriptor) e
  clear : ∀ b ∈ events, barrierApplies b member → b.sequence < e.sequence
  confirmed : ∃ o, Confirms events member e o

/-- The candidate is the greatest eligible execution with its latest observation. -/
structure ExactCandidate (s : Store) (descriptor : ExecutionDescriptor)
    (events : List HistoryEvent) (member : Member) (c : Candidate) (e o : HistoryEvent) :
    Prop where
  eligible : EligibleExecution D descriptor events member e
  greatest : ∀ e', EligibleExecution D descriptor events member e' → e'.sequence ≤ e.sequence
  sequence : c.sequence = e.sequence
  execution : e.execution = some c.execution
  artifact : readExecution D s c.execution none = .ok c.artifact
  same : c.artifact.descriptor = descriptor
  confirms : Confirms events member e o
  latest : ∀ o', Confirms events member e o' → o'.sequence ≤ o.sequence
  observation : o.observation = some c.observation

/-- What the selection of one member must be. -/
structure ExactSelection (s : Store) (descriptor : ExecutionDescriptor)
    (events : List HistoryEvent) (member : Member) (selection : CandidateSelection) : Prop where
  selected : selection.member = member
  candidate : selection.candidate.isSome ↔ ∃ e, EligibleExecution D descriptor events member e
  exact : ∀ c ∈ selection.candidate, ∃ e o, ExactCandidate D s descriptor events member c e o
  blocking : selection.blockingEvents =
    (events.filter (fun b => barrierApplies b member)).map (reference D s)
  pass : selection.candidate.isSome → selection.state = .pass
  fail : selection.candidate = none → (selection.state = .fail ↔
    ∃ b ∈ events, barrierApplies b member ∧ b.result = .fail)
  error : selection.candidate = none → (selection.state = .error ↔
    (∃ b ∈ events, barrierApplies b member) ∧
      ∀ b ∈ events, barrierApplies b member → b.result ≠ .fail)
  missing : selection.candidate = none → (selection.state = .missing ↔
    ∀ b ∈ events, barrierApplies b member = false)

/-- Every retained passing execution under the key carries the descriptor itself. -/
def KeyFaithful (s : Store) (descriptor : ExecutionDescriptor) (events : List HistoryEvent) :
    Prop :=
  ∀ e ∈ events, IsPassingExecution (D.executionKey descriptor) e → ∀ ref ∈ e.execution,
    ∀ artifact, readExecution D s ref none = .ok artifact → artifact.descriptor = descriptor

section Rules

/-- Selection for a member as a selection in the log. -/
def memberRules (key : Hash) (member : Member) : Rules HistoryEvent where
  seq e := e.sequence
  success e := decide (IsPassingExecution key e ∧ e.execution.isSome)
  barrier b := barrierApplies b member
  confirms e o := decide (IsPassingObservation key e.attemptId member o)

variable {D} {s : Store} {events : List HistoryEvent} {descriptor : ExecutionDescriptor}
  {member : Member} {key : Hash}

theorem chain_observed (chain : Chain D s events) {o : HistoryEvent} (hm : o ∈ events)
    (k : o.kind = .observation) (pass : o.result = .pass) : o.observation.isSome := by
  obtain ⟨_,_,_,accepted⟩ := chain_mem chain hm
  exact (accepted_observation accepted k).passing pass

theorem chain_executed (chain : Chain D s events) {e : HistoryEvent} (hm : e ∈ events)
    (k : e.kind = .execution) (pass : e.result = .pass) : e.execution.isSome := by
  obtain ⟨_,_,_,accepted⟩ := chain_mem chain hm
  exact (accepted_execution accepted k).passing pass

theorem memberRules_confirms {e o : HistoryEvent} (hk : e.executionKey = key) :
    (o ∈ events ∧ (memberRules key member).confirms e o ∧
      (memberRules key member).seq e < (memberRules key member).seq o) ↔
    Confirms events member e o := by
  simp only [memberRules, decide_eq_true_eq]
  exact ⟨fun h => ⟨h.1,hk ▸ h.2.1,h.2.2⟩,fun h => ⟨h.mem,hk ▸ h.passing,h.later⟩⟩

/-- Eligibility in the log is eligibility of the execution. -/
theorem memberRules_eligible (chain : Chain D s events) (e : HistoryEvent) :
    Eligible (memberRules (D.executionKey descriptor) member) events e ↔
      EligibleExecution D descriptor events member e := by
  constructor
  · rintro ⟨hm,hs,clear,o,ho,hc,hlt⟩
    simp only [memberRules, decide_eq_true_eq] at hs
    exact ⟨hm,hs.1,clear,o,(memberRules_confirms hs.1.2.2).mp ⟨ho,hc,hlt⟩⟩
  · rintro ⟨hm,passing,clear,o,confirms⟩
    obtain ⟨ho,hc,hlt⟩ := (memberRules_confirms passing.2.2).mpr confirms
    refine ⟨hm,?_,clear,o,ho,hc,hlt⟩
    simpa [memberRules, passing] using chain_executed chain hm passing.1 passing.2.1

theorem passingExecutions_map (events : List HistoryEvent) :
    (passingExecutions key events).map Prod.fst = events.filter (memberRules key member).success := by
  rw [passingExecutions, List.map_filterMap, ← List.filterMap_eq_filter]
  refine List.filterMap_congr ?_
  intro e _
  by_cases passing : IsPassingExecution key e
  · cases ref : e.execution <;> simp [memberRules, Option.guard, passing, ref]
  · simp [memberRules, Option.guard, passing]

theorem mem_passingExecutions {found : HistoryEvent × ExecutionRef} :
    found ∈ passingExecutions key events ↔
      found.1 ∈ events ∧ IsPassingExecution key found.1 ∧ found.1.execution = some found.2 := by
  obtain ⟨e,ref⟩ := found
  simp only [passingExecutions, List.mem_filterMap, Option.ite_none_right_eq_some,
    Option.map_eq_some_iff, Prod.mk.injEq]
  constructor
  · rintro ⟨e',hm,passing,r,hr,rfl,rfl⟩
    exact ⟨hm,passing,hr⟩
  · rintro ⟨hm,passing,hr⟩
    exact ⟨e,hm,passing,ref,hr,rfl,rfl⟩

/-- Reading the candidates fails exactly when one of them carries another descriptor. -/
theorem readCandidates_ok (chain : Chain D s events) :
    (∃ items, (passingExecutions (D.executionKey descriptor) events).mapM
        (readCandidate D s descriptor) = .ok items) ↔ KeyFaithful D s descriptor events := by
  have readable : ∀ found ∈ passingExecutions (D.executionKey descriptor) events,
      ∃ artifact, readExecution D s found.2 none = .ok artifact := by
    intro found hf
    obtain ⟨hm,passing,href⟩ := mem_passingExecutions.mp hf
    obtain ⟨artifact,read,_⟩ := execution_artifact chain hm passing.1 href
    exact ⟨artifact,read⟩
  constructor
  · rintro ⟨items,h⟩ e hm passing ref href artifact read
    have hf : (e,ref) ∈ passingExecutions (D.executionKey descriptor) events :=
      mem_passingExecutions.mpr ⟨hm,passing,href⟩
    obtain ⟨item,_,hr⟩ := mapM_mem h hf
    simp only [readCandidate, bind_ok, exists_unit, require_ok, pure_ok] at hr
    obtain ⟨artifact',read',same,_⟩ := hr
    rw [read] at read'
    exact (Except.ok.inj read') ▸ same
  · intro faithful
    refine mapM_exists ?_
    intro found hf
    obtain ⟨artifact,read⟩ := readable found hf
    obtain ⟨hm,passing,href⟩ := mem_passingExecutions.mp hf
    refine ⟨⟨found.1,found.2,artifact⟩,?_⟩
    simp only [readCandidate, bind_ok, exists_unit, require_ok, pure_ok]
    exact ⟨artifact,read,faithful found.1 hm passing found.2 href artifact read,rfl⟩

end Rules

section Exactness

variable {D} {s : Store} {events : List HistoryEvent} {descriptor : ExecutionDescriptor}
  {member : Member} {key : Hash} {items : List PassingItem}

theorem readCandidate_ok {found : HistoryEvent × ExecutionRef} {item : PassingItem}
    (h : readCandidate D s descriptor found = .ok item) :
    item.event = found.1 ∧ item.execution = found.2 ∧
      readExecution D s item.execution none = .ok item.artifact ∧
      item.artifact.descriptor = descriptor := by
  simp only [readCandidate, bind_ok, exists_unit, require_ok, pure_ok] at h
  obtain ⟨artifact,read,same,rfl⟩ := h
  exact ⟨rfl,rfl,read,same⟩

theorem readCandidates_events
    (h : (passingExecutions key events).mapM (readCandidate D s descriptor) = .ok items) :
    items.map PassingItem.event = (passingExecutions key events).map Prod.fst := by
  have related := (mapM_ok _ _ _).mp h
  clear h
  generalize passingExecutions key events = found at related ⊢
  induction related with
  | nil => rfl
  | cons head _ ih => rw [List.map_cons, List.map_cons, ih, (readCandidate_ok head).1]

/-- The items that were read are the passing executions of the key with their artifacts. -/
theorem readCandidates_mem {item : PassingItem}
    (h : (passingExecutions key events).mapM (readCandidate D s descriptor) = .ok items)
    (hi : item ∈ items) :
    item.event.execution = some item.execution ∧
      readExecution D s item.execution none = .ok item.artifact ∧
      item.artifact.descriptor = descriptor := by
  obtain ⟨found,hf,hr⟩ := mapM_mem_right h hi
  obtain ⟨he,hx,read,same⟩ := readCandidate_ok hr
  obtain ⟨_,_,href⟩ := mem_passingExecutions.mp hf
  exact ⟨by rw [he, hx, href],read,same⟩

/-- The candidate that a selected item and its confirmation stand for. -/
def toCandidate (p : PassingItem × HistoryEvent) : Option Candidate :=
  p.2.observation.map
    (fun observation => ⟨p.1.execution,p.1.artifact,p.1.event.sequence,observation⟩)

theorem offerCandidate_eq (item : PassingItem) :
    offerCandidate events key member
        (cutoff (fun e => e.sequence) (fun e => barrierApplies e member) events) item =
      ((offer (memberRules key member) events item.event).map (fun o => (item,o))).bind
        toCandidate := by
  have observed : confirmation (memberRules key member) events item.event =
      (events.filter (fun event => IsPassingObservation key item.event.attemptId member event ∧
        item.event.sequence < event.sequence)).getLast? := by
    simp only [confirmation, latest, memberRules, Bool.decide_and]
  have offered : offer (memberRules key member) events item.event =
      if item.event.sequence ≤
          cutoff (fun e => e.sequence) (fun e => barrierApplies e member) events then none
      else confirmation (memberRules key member) events item.event := rfl
  rw [offerCandidate, offered, observed]
  by_cases le : item.event.sequence ≤
      cutoff (fun e => e.sequence) (fun e => barrierApplies e member) events
  · rw [if_pos le, if_pos le, Option.map_none, Option.bind_none]
  · rw [if_neg le, if_neg le]
    dsimp only
    generalize (events.filter (fun event =>
      decide (IsPassingObservation key item.event.attemptId member event ∧
        item.event.sequence < event.sequence))).getLast? = found
    cases found <;> rfl

/-- The loop of the selection is the selection of an item in the log. -/
theorem candidate_loop (chain : Chain D s events) :
    items.foldl (fun candidate item => (offerCandidate events key member
        (cutoff (fun e => e.sequence) (fun e => barrierApplies e member) events) item).or
          candidate) none =
      (selectItem (memberRules key member) events PassingItem.event items).bind toCandidate := by
  have fused : items.filterMap (offerCandidate events key member
      (cutoff (fun e => e.sequence) (fun e => barrierApplies e member) events)) =
      (items.filterMap (fun item =>
        (offer (memberRules key member) events item.event).map (fun o => (item,o)))).filterMap
        toCandidate := by
    rw [List.filterMap_filterMap]
    exact List.filterMap_congr (fun item _ => offerCandidate_eq item)
  rw [foldl_last, Option.or_none, fused, getLast?_filterMap_of_isSome, selectItem, foldl_last,
    Option.or_none]
  intro p hp
  obtain ⟨item,_,hp⟩ := List.mem_filterMap.mp hp
  obtain ⟨o,ho,rfl⟩ := Option.map_eq_some_iff.mp hp
  have confirmed : confirmation (memberRules key member) events item.event = some o := by
    unfold offer at ho
    split at ho
    · contradiction
    · exact ho
  obtain ⟨hm,hc,_⟩ := confirmation_some confirmed
  simp only [memberRules, decide_eq_true_eq] at hc
  simpa [toCandidate] using chain_observed chain hm hc.1 hc.2.1

theorem blocking_references (chain : Chain D s events) (p : HistoryEvent → Bool) :
    (events.filter p).filterMap
        (fun event => (snapshotOf D s events).view.events[event.sequence-1]?) =
      (events.filter p).map (reference D s) := by
  rw [← List.filterMap_eq_map]
  refine List.filterMap_congr ?_
  intro event hm
  exact snapshotOf_view chain (List.mem_filter.mp hm).1

theorem barrier_zero (chain : Chain D s events) :
    cutoff (fun e : HistoryEvent => e.sequence) (fun e => barrierApplies e member) events = 0 ↔
      ∀ b ∈ events, barrierApplies b member = false :=
  cutoff_eq_zero (chain_numbered chain)

theorem selectionState_none (barrier : ℕ) (blockers : List HistoryEvent) :
    (selectionState none blockers barrier = .fail ↔ ∃ b ∈ blockers, b.result = .fail) ∧
      (selectionState none blockers barrier = .error ↔
        barrier ≠ 0 ∧ ∀ b ∈ blockers, b.result ≠ .fail) ∧
      (selectionState none blockers barrier = .missing ↔
        barrier = 0 ∧ ∀ b ∈ blockers, b.result ≠ .fail) := by
  by_cases failed : ∃ b ∈ blockers, b.result = .fail
  · obtain ⟨b,hb,hf⟩ := failed
    have any : blockers.any (fun event => decide (event.result = .fail)) = true :=
      List.any_eq_true.mpr ⟨b,hb,by simpa using hf⟩
    have state : selectionState none blockers barrier = .fail := by
      rw [selectionState, any]
      simp
    rw [state]
    exact ⟨iff_of_true rfl ⟨b,hb,hf⟩,iff_of_false (by simp) (fun h => h.2 b hb hf),
      iff_of_false (by simp) (fun h => h.2 b hb hf)⟩
  · have clean : ∀ b ∈ blockers, b.result ≠ .fail := fun b hb hf => failed ⟨b,hb,hf⟩
    have any : blockers.any (fun event => decide (event.result = .fail)) = false := by
      simpa using clean
    have state : selectionState none blockers barrier =
        if barrier ≠ 0 then .error else .missing := by
      rw [selectionState, any]
      simp
    rw [state]
    split
    · next h =>
      exact ⟨iff_of_false (by simp) failed,iff_of_true rfl ⟨h,clean⟩,
        iff_of_false (by simp) (fun h' => h h'.1)⟩
    · next h =>
      exact ⟨iff_of_false (by simp) failed,iff_of_false (by simp) (fun h' => h h'.1),
        iff_of_true rfl ⟨not_not.mp h,clean⟩⟩

/-- The selection of a member of the descriptor is exact. -/
theorem selectMember_exact (chain : Chain D s events) {selection : CandidateSelection}
    (h : (passingExecutions (D.executionKey descriptor) events).mapM
      (readCandidate D s descriptor) = .ok items)
    (hs : selectMember descriptor (snapshotOf D s events) (D.executionKey descriptor) items
      member = .ok selection) :
    ExactSelection D s descriptor events member selection := by
  have numbered : Numbered (memberRules (D.executionKey descriptor) member).seq events :=
    chain_numbered chain
  have entries : items.map PassingItem.event =
      events.filter (memberRules (D.executionKey descriptor) member).success :=
    (readCandidates_events h).trans (passingExecutions_map events)
  have selected := selectItem_entry (R := memberRules (D.executionKey descriptor) member) entries
  have eligible : ∀ e, Eligible (memberRules (D.executionKey descriptor) member) events e ↔
      EligibleExecution D descriptor events member e := memberRules_eligible chain
  have loop : items.foldl (fun candidate item =>
      (offerCandidate events (D.executionKey descriptor) member
        (cutoff (fun e => e.sequence) (fun e => barrierApplies e member) events) item).or
          candidate) none =
      (selectItem (memberRules (D.executionKey descriptor) member) events PassingItem.event
        items).bind toCandidate := candidate_loop chain
  simp only [selectMember, bind_ok, exists_unit, require_ok, pure_ok] at hs
  have selectedMember : selection.member = member := hs.2 ▸ rfl
  have candidate : selection.candidate = (selectItem (memberRules (D.executionKey descriptor)
      member) events PassingItem.event items).bind toCandidate := hs.2 ▸ loop
  have blocking : selection.blockingEvents =
      (events.filter (fun b => barrierApplies b member)).map (reference D s) :=
    hs.2 ▸ blocking_references chain _
  have state : selection.state = selectionState selection.candidate
      (events.filter (fun event => barrierApplies event member))
      (cutoff (fun e => e.sequence) (fun e => barrierApplies e member) events) := hs.2 ▸ rfl
  have exact : ∀ c ∈ selection.candidate,
      ∃ e o, ExactCandidate D s descriptor events member c e o := by
    intro c hc
    rw [candidate] at hc
    obtain ⟨⟨item,o⟩,hi,hc⟩ := Option.bind_eq_some_iff.mp hc
    obtain ⟨observation,ho,rfl⟩ := Option.map_eq_some_iff.mp hc
    rw [hi, Option.map_some] at selected
    obtain ⟨he,greatest,confirmed⟩ := select_some numbered selected.symm
    obtain ⟨hx,read,same⟩ := readCandidates_mem h (selectItem_mem hi)
    have hkey : item.event.executionKey = D.executionKey descriptor :=
      ((eligible _).mp he).passing.2.2
    refine ⟨item.event,o,(eligible _).mp he,fun e' he' => greatest e' ((eligible _).mpr he'),rfl,
      hx,read,same,(memberRules_confirms hkey).mp (confirmation_some confirmed),?_,ho⟩
    intro o' ho'
    obtain ⟨hm,hc,hlt⟩ := (memberRules_confirms hkey).mpr ho'
    exact confirmation_greatest numbered confirmed hm hc hlt
  have present : selection.candidate.isSome ↔
      ∃ e, EligibleExecution D descriptor events member e := by
    constructor
    · intro hc
      obtain ⟨c,hc⟩ := Option.isSome_iff_exists.mp hc
      obtain ⟨e,_,exact⟩ := exact c hc
      exact ⟨e,exact.eligible⟩
    · rintro ⟨e,he⟩
      have some : (select (memberRules (D.executionKey descriptor) member) events).isSome :=
        (select_isSome numbered).mpr ⟨e,(eligible e).mpr he⟩
      rw [← selected, Option.isSome_map] at some
      obtain ⟨⟨item,o⟩,hi⟩ := Option.isSome_iff_exists.mp some
      rw [hi, Option.map_some] at selected
      obtain ⟨hm,hc,_⟩ := confirmation_some (select_some numbered selected.symm).2.2
      simp only [memberRules, decide_eq_true_eq] at hc
      simpa [candidate, hi, toCandidate] using chain_observed chain hm hc.1 hc.2.1
  have states := selectionState_none
    (cutoff (fun e : HistoryEvent => e.sequence) (fun e => barrierApplies e member) events)
    (events.filter (fun event => barrierApplies event member))
  rw [Ne, barrier_zero chain] at states
  simp only [List.mem_filter] at states
  refine ⟨selectedMember,present,exact,blocking,?_,?_,?_,?_⟩
  · intro some
    rw [state, selectionState, if_pos some]
  · intro none
    rw [state, none, states.1]
    simp only [and_assoc]
  · intro none
    rw [state, none, states.2.1]
    simp
  · intro none
    rw [state, none, states.2.2]
    refine and_iff_left_of_imp (fun clear b hb => ?_)
    simp [clear b hb.1] at hb

/-- Every selection that is returned is exact for its member. -/
theorem selectCandidates_each (chain : Chain D s events) {selected : List Member}
    {selections : List CandidateSelection}
    (h : selectCandidates D s descriptor selected (snapshotOf D s events) = .ok selections) :
    List.Forall₂ (ExactSelection D s descriptor events) selected selections := by
  simp only [selectCandidates, bind_ok, exists_unit] at h
  obtain ⟨_,items,read,each⟩ := h
  exact ((mapM_ok _ _ _).mp each).imp (fun _ _ hs => selectMember_exact chain read hs)

/-- Selection accepts only members of the descriptor. -/
theorem selectCandidates_members {snapshot : HistorySnapshot} {selected : List Member}
    {selections : List CandidateSelection}
    (h : selectCandidates D s descriptor selected snapshot = .ok selections) :
    ∀ m ∈ selected, m ∈ descriptor.members := by
  intro m hm
  simp only [selectCandidates, bind_ok, exists_unit] at h
  obtain ⟨_,_,_,each⟩ := h
  obtain ⟨_,_,hs⟩ := mapM_mem each hm
  simp only [selectMember, bind_ok, exists_unit, require_ok] at hs
  exact hs.1

/-- Selection succeeds exactly when every passing execution under the key carries the descriptor. -/
theorem selectCandidates_returns {snapshot : HistorySnapshot} (chain : Chain D s snapshot.events)
    (valid : validateExecutionDescriptor D descriptor = .ok ()) {selected : List Member}
    (inside : ∀ m ∈ selected, m ∈ descriptor.members) :
    (∃ selections, selectCandidates D s descriptor selected snapshot = .ok selections) ↔
      KeyFaithful D s descriptor snapshot.events := by
  rw [← readCandidates_ok chain]
  simp only [selectCandidates, bind_ok, exists_unit, valid, true_and]
  constructor
  · rintro ⟨_,items,read,_⟩
    exact ⟨items,read⟩
  · rintro ⟨items,read⟩
    have eachMember : ∃ selections, selected.mapM (selectMember descriptor snapshot
        (D.executionKey descriptor) items) = .ok selections := by
      refine mapM_exists (fun m hm => ?_)
      simp only [selectMember, bind_ok, exists_unit, require_ok, pure_ok, exists_and_left,
        exists_eq', and_true]
      exact inside m hm
    obtain ⟨selections,hs⟩ := eachMember
    exact ⟨selections,items,read,hs⟩

/-- For every accepted history and descriptor: selection fails exactly when a retained passing
execution under the key carries another descriptor, and otherwise it is exact for each member. -/
theorem selectCandidates_exact (D : Digests) (s : Store) (captured : Option HistoryView)
    (allowUnaccounted : Bool) (snapshot : HistorySnapshot)
    (loaded : loadHistory D s captured allowUnaccounted = .ok snapshot)
    (descriptor : ExecutionDescriptor) (valid : validateExecutionDescriptor D descriptor = .ok ())
    (selected : List Member) (inside : ∀ m ∈ selected, m ∈ descriptor.members) :
    ((∃ selections, selectCandidates D s descriptor selected snapshot = .ok selections) ↔
      KeyFaithful D s descriptor snapshot.events) ∧
    ∀ selections, selectCandidates D s descriptor selected snapshot = .ok selections →
      List.Forall₂ (ExactSelection D s descriptor snapshot.events) selected selections := by
  obtain ⟨chain,shape⟩ := loadHistory_chain loaded
  exact ⟨selectCandidates_returns chain valid inside,
    fun selections h => selectCandidates_each chain (shape ▸ h)⟩

end Exactness

section Isolation

variable {D} {s s' : Store} {events : List HistoryEvent} {descriptor : ExecutionDescriptor}
  {M N : Member} {key : Hash} {event : HistoryEvent}

/-- The event judges the observation of one member and not the execution. -/
def ObservationLevel (event : HistoryEvent) : Prop :=
  event.kind = .observation ∨ event.kind = .indeterminate ∧ event.claimId.isSome

/-- The event reports a failed execution, or an execution of unknown outcome. -/
def ExecutionFailure (event : HistoryEvent) : Prop :=
  event.kind = .execution ∧ event.result = .fail ∨
    event.kind = .indeterminate ∧ event.claimId = none

theorem member_of_key {members : List Member} (distinct : (members.map memberKey).Nodup)
    {a b : Member} (ha : a ∈ members) (hb : b ∈ members) (claim : a.claimId = b.claimId)
    (slot : a.slotId = b.slotId) : a = b := by
  refine List.inj_on_of_nodup_map distinct ha hb ?_
  rw [memberKey, memberKey, claim, slot]

theorem descriptor_members (h : validateExecutionDescriptor D descriptor = .ok ()) :
    (descriptor.members.map memberKey).Nodup := by
  simp only [validateExecutionDescriptor, members, bind_ok, exists_unit, Schema.ensure_ok] at h
  exact h.1.2.nodup

theorem selects_unique (distinct : (event.members.map memberKey).Nodup) {item : Member}
    (hN : N ∈ event.members) (selects : Selects event.toEventInput N)
    (hi : item ∈ event.members) (selectsItem : Selects event.toEventInput item) : item = N := by
  refine member_of_key distinct hi hN ?_ ?_
  · exact Option.some.inj (selectsItem.1.symm.trans selects.1)
  · exact Option.some.inj (selectsItem.2.symm.trans selects.2)

/-- An observation-level event is a barrier for no other association than the one it selects. -/
theorem barrierApplies_other (distinct : (event.members.map memberKey).Nodup)
    (level : ObservationLevel event) (hN : N ∈ event.members)
    (selects : Selects event.toEventInput N) (differ : ¬ SameTool M N) :
    barrierApplies event M = false := by
  unfold barrierApplies
  split
  · rfl
  · rw [if_pos (by simpa [ObservationLevel] using level), List.any_eq_false]
    intro item hi
    simp only [decide_eq_true_eq, not_and]
    intro selectsItem same
    obtain rfl := selects_unique distinct hN selects hi selectsItem
    exact differ ⟨same.1.symm,same.2.symm⟩

/-- A failed execution is a barrier for each association it records. -/
theorem barrierApplies_execution (failure : ExecutionFailure event)
    (recorded : ∃ item ∈ event.members, SameTool item M) : barrierApplies event M = true := by
  obtain ⟨item,hi,same⟩ := recorded
  have any : event.members.any (fun item => decide (SameTool item M)) = true :=
    List.any_eq_true.mpr ⟨item,hi,by simpa using same⟩
  unfold barrierApplies
  rcases failure with ⟨k,failed⟩ | ⟨k,none⟩
  · simpa [k, failed] using any
  · simpa [k, none] using any

theorem passingExecutions_append (k : event.kind ≠ .execution) :
    passingExecutions key (events ++ [event]) = passingExecutions key events := by
  simp [passingExecutions, IsPassingExecution, k]

theorem observation_other (selects : Selects event.toEventInput N)
    (apart : M.claimId ≠ N.claimId ∨ M.slotId ≠ N.slotId) (attempt : UUID) :
    ¬ IsPassingObservation key attempt M event := by
  rintro ⟨_,_,_,_,selectsM⟩
  have claim : M.claimId = N.claimId := Option.some.inj (selectsM.1.symm.trans selects.1)
  have slot : M.slotId = N.slotId := Option.some.inj (selectsM.2.symm.trans selects.2)
  exact apart.elim (fun h => h claim) (fun h => h slot)

theorem offerCandidate_append (selects : Selects event.toEventInput N)
    (apart : M.claimId ≠ N.claimId ∨ M.slotId ≠ N.slotId) (barrier : ℕ) (item : PassingItem) :
    offerCandidate (events ++ [event]) key M barrier item =
      offerCandidate events key M barrier item := by
  have other : ¬IsPassingObservation key item.event.attemptId M event :=
    observation_other selects apart item.event.attemptId
  rw [offerCandidate, offerCandidate, filter_append_of_none]
  simp [other]

/-- Selection for a member ignores an event that selects another association. -/
theorem selectMember_append (chain : Chain D s events) (chain' : Chain D s' (events ++ [event]))
    (grows : Extends s s') (quiet : barrierApplies event M = false)
    (selects : Selects event.toEventInput N)
    (apart : M.claimId ≠ N.claimId ∨ M.slotId ≠ N.slotId) (items : List PassingItem) :
    selectMember descriptor (snapshotOf D s' (events ++ [event])) key items M =
      selectMember descriptor (snapshotOf D s events) key items M := by
  have blockers : (events ++ [event]).filter (fun b => barrierApplies b M) =
      events.filter (fun b => barrierApplies b M) := filter_append_of_none (by simpa using quiet)
  have references : (events.filter (fun b => barrierApplies b M)).map (reference D s') =
      (events.filter (fun b => barrierApplies b M)).map (reference D s) := by
    refine List.map_congr_left (fun b hb => ?_)
    obtain ⟨_,_,_,accepted⟩ := chain_mem chain (List.mem_filter.mp hb).1
    exact accepted_reference grows accepted
  have shown := blocking_references chain' (fun b => barrierApplies b M)
  rw [blockers, references, ← blocking_references chain] at shown
  have offers : ∀ barrier, offerCandidate (events ++ [event]) key M barrier =
      offerCandidate events key M barrier :=
    fun barrier => funext (offerCandidate_append selects apart barrier)
  have same : (snapshotOf D s' (events ++ [event])).events = events ++ [event] := rfl
  simp only [selectMember, same, blockers, shown, offers]
  rfl

theorem readCandidates_extends (chain : Chain D s events) (grows : Extends s s') :
    (passingExecutions key events).mapM (readCandidate D s' descriptor) =
      (passingExecutions key events).mapM (readCandidate D s descriptor) := by
  refine mapM_congr ?_
  intro found hf
  obtain ⟨hm,passing,href⟩ := mem_passingExecutions.mp hf
  obtain ⟨artifact,read,_⟩ := execution_artifact chain hm passing.1 href
  have read' : readExecution D s' found.2 none = .ok artifact :=
    readExecution_stable found.2 none s s' _ grows read
  rw [readCandidate, readCandidate, read, read']

/-- Observation failures stay with the member they select: an observation, or an observation-level
recovery, that selects another association leaves the selection of a member as it was. A failed
execution, or one of unknown outcome, that records the association retires every earlier candidate
of it, under every key and in every later history. -/
theorem memberIsolation (D : Digests) (s s' : Store) (grows : Extends s s')
    (captured captured' : Option HistoryView) (allow allow' : Bool)
    (snapshot snapshot' : HistorySnapshot) (event : HistoryEvent)
    (loaded : loadHistory D s captured allow = .ok snapshot)
    (loaded' : loadHistory D s' captured' allow' = .ok snapshot')
    (appended : snapshot'.events = snapshot.events ++ [event])
    (descriptor : ExecutionDescriptor) (M N : Member) (hM : M ∈ descriptor.members)
    (hN : N ∈ descriptor.members) (differ : ¬ SameTool M N) :
    (ObservationLevel event → N ∈ event.members → Selects event.toEventInput N →
      selectCandidates D s' descriptor [M] snapshot' =
        selectCandidates D s descriptor [M] snapshot) ∧
    (ExecutionFailure event → (∃ item ∈ event.members, SameTool item M) →
      ∀ (later : Store) (captured'' : Option HistoryView) (allow'' : Bool)
        (snapshot'' : HistorySnapshot) (more : List HistoryEvent),
        loadHistory D later captured'' allow'' = .ok snapshot'' →
        snapshot''.events = snapshot'.events ++ more →
        ∀ (descriptor'' : ExecutionDescriptor) (selections : List CandidateSelection),
          selectCandidates D later descriptor'' [M] snapshot'' = .ok selections →
          ∀ selection ∈ selections, ∀ c ∈ selection.candidate, event.sequence < c.sequence) := by
  obtain ⟨chain,shape⟩ := loadHistory_chain loaded
  obtain ⟨chain',shape'⟩ := loadHistory_chain loaded'
  rw [appended] at chain' shape'
  constructor
  · intro level recorded selects
    have accepted := (chain_concat.mp chain').2
    have quiet := barrierApplies_other (accepted_members accepted).2 level recorded selects differ
    have notExecution : event.kind ≠ .execution := by
      rcases level with k | ⟨k,_⟩ <;> simp [k]
    rw [shape, shape', selectCandidates, selectCandidates]
    cases valid : validateExecutionDescriptor D descriptor with
    | error message => rfl
    | ok _ =>
      have apart : M.claimId ≠ N.claimId ∨ M.slotId ≠ N.slotId := by
        by_contra same
        simp only [not_or, not_not] at same
        have e := member_of_key (descriptor_members valid) hM hN same.1 same.2
        exact differ (e ▸ ⟨rfl,rfl⟩)
      have members : ∀ items, selectMember descriptor (snapshotOf D s' (snapshot.events ++ [event]))
          (D.executionKey descriptor) items M =
            selectMember descriptor (snapshotOf D s snapshot.events) (D.executionKey descriptor)
              items M :=
        selectMember_append chain chain' grows quiet selects apart
      have candidates : (snapshotOf D s' (snapshot.events ++ [event])).events =
          snapshot.events ++ [event] := rfl
      have before : (snapshotOf D s snapshot.events).events = snapshot.events := rfl
      simp only [candidates, before, passingExecutions_append notExecution,
        readCandidates_extends chain grows, List.mapM_cons, List.mapM_nil, members]
  · intro failure recorded later captured'' allow'' snapshot'' more loaded'' extended descriptor''
      selections h selection hs c hc
    obtain ⟨chain'',shape''⟩ := loadHistory_chain loaded''
    have inside : event ∈ snapshot''.events := by simp [extended, appended]
    rw [shape''] at h
    obtain ⟨m,hm,exactSelection⟩ := forall₂_mem_right (selectCandidates_each chain'' h) hs
    obtain rfl := List.mem_singleton.mp hm
    obtain ⟨e,_,exactCandidate⟩ := exactSelection.exact c hc
    rw [exactCandidate.sequence]
    exact exactCandidate.eligible.clear event inside (barrierApplies_execution failure recorded)

end Isolation

section Samples

/-- Digests that tell the sample documents apart. -/
def sampleDigests : Digests where
  bytes b := match b.content with
    | .event e => "event-" ++ toString e.sequence
    | .execution a => "execution-" ++ a.attemptId
    | .owner o => "owner-" ++ o.ownerId
    | .request r => "request-" ++ r.requestId
    | .response r => "response-" ++ r.requestId
    | .check c => "check-" ++ c.startedAt
    | .claim c => "claim-" ++ c.claimId
    | .run r => "run-" ++ r.runId
    | .stream text => "stream-" ++ text
  size _ := 1
  historyEvent u := "event-" ++ toString u.sequence ++ "-" ++ u.attemptId
  executionKey d := "key-" ++ d.recipe.recipeId
  executionArtifact u := "artifact-" ++ u.attemptId
  claimRecord u := "record-" ++ u.runId ++ "-" ++ u.claimId
  inventory _ := "inventory"
  sourceSnapshot _ := "snapshot"
  sourceClosure _ := "closure"
  producerImplementation _ := "implementation"
  validToolIdentity _ := true
  validStreams _ _ _ _ := true

def sampleSource : InputState :=
  ⟨"inputs","inventory","snapshot",true,
    [⟨"intent.md","intent",1,false⟩,⟨"obligations.json","manifest",1,false⟩]⟩

def sampleCommon : CommonBindings :=
  ⟨"policy.json","policy","intent.md","intent","obligations.json","manifest",[],none,["claim"]⟩

def sampleProducer : ToolIdentity :=
  ⟨"fv-producer",[],true,[],[("implementation/run.ts","implementation")],""⟩

def sampleMember (slot tool : String) : Member := ⟨"claim",slot,tool⟩

def sampleMembers : List Member := [sampleMember "s1" "t1",sampleMember "s2" "t2"]

def sampleDescriptor : ExecutionDescriptor :=
  { common := sampleCommon, recipe := PolicyDocument.sampleRecipe "recipe" .fixed
    members := sampleMembers, distinctSlot := none, verifiedInputsPolicyHash := "inputs"
    inventoryHash := "inventory"
    closure := ⟨⟨.verifiedInputs,[],[],sampleSource.files⟩,"closure"⟩
    environment := ⟨"linux-x64",[]⟩, toolchain := [sampleProducer], buildCache := none }

def sampleKey : Hash := sampleDigests.executionKey sampleDescriptor

def streamFile (path : Path) (text : String) : File := ⟨path,canonical (.stream text),1⟩

def sampleTermination : Termination := ⟨some 0,none,false,false⟩

def sampleArtifact (attempt : UUID) (result : Result) : ExecutionArtifact :=
  { executionKey := sampleKey, attemptId := attempt, implementationHash := "implementation"
    descriptor := sampleDescriptor, startedAt := "1", finishedAt := "4"
    sourceBefore := sampleSource, sourceAfter := some sampleSource
    toolchainAfter := some [sampleProducer], environmentAfter := some ⟨"linux-x64",[]⟩
    stdout := canonicalRef sampleDigests (.execution sampleKey attempt ["stdout.bin"]) (.stream "out")
    stderr := canonicalRef sampleDigests (.execution sampleKey attempt ["stderr.bin"]) (.stream "err")
    rawOutput := canonicalRef sampleDigests (.execution sampleKey attempt ["raw.log"]) (.stream "raw")
    attachments := []
    ownership := ⟨"owner",[⟨"window","2",some "3","process"⟩],
      [⟨"window",some sampleKey,some attempt,.closed,""⟩],none⟩
    buildCacheAfter := none, termination := sampleTermination, markerMatched := true
    result := result, reason := none, artifactId := "artifact-" ++ attempt }

def sampleExecutionFiles (attempt : UUID) (result : Result) : List File :=
  [⟨executionPath sampleKey attempt,canonical (.execution (sampleArtifact attempt result)),1⟩,
    streamFile (.execution sampleKey attempt ["stdout.bin"]) "out",
    streamFile (.execution sampleKey attempt ["stderr.bin"]) "err",
    streamFile (.execution sampleKey attempt ["raw.log"]) "raw"]

def sampleExecution (attempt : UUID) : ExecutionRef :=
  ⟨sampleKey,"artifact-" ++ attempt,executionPath sampleKey attempt,"execution-" ++ attempt⟩

def sampleRequest (request : UUID) (attempt : UUID) (slots : List String) : ObservationRequest :=
  { requestId := request, policyPath := "policy.json", policyHash := "policy"
    common := sampleCommon, claimId := "claim", createdAt := "5"
    slots := slots.map (fun slot => ⟨slot,"t" ++ String.ofList (slot.toList.drop 1),"recipe",
      sampleExecution attempt,⟨"report.json",""⟩⟩) }

def sampleResponse (request : UUID) (answers : List (String × Result)) : ObservationResponse :=
  ⟨request,"request-" ++ request,"claim","6","7",answers.map (fun a => ⟨a.1,a.2,none,""⟩)⟩

def observationPath (request : UUID) (name : String) : Path :=
  .observation "run" "claim" request name

def sampleCheck (request : UUID) (attempt : UUID) (answers : List (String × Result))
    (result : Result) : ObservationCheck :=
  { request := canonicalRef sampleDigests (observationPath request "request.json")
      (.request (sampleRequest request attempt (answers.map Prod.fst)))
    response := some (canonicalRef sampleDigests (observationPath request "response.json")
      (.response (sampleResponse request answers)))
    startedAt := "5" ++ request, finishedAt := "8", termination := sampleTermination
    stdout := canonicalRef sampleDigests (observationPath request "stdout.bin") (.stream "out")
    stderr := canonicalRef sampleDigests (observationPath request "stderr.bin") (.stream "err")
    sourceBefore := sampleSource, sourceAfter := some sampleSource, toolchain := [sampleProducer]
    result := result, reason := none }

def sampleObservationFiles (request : UUID) (attempt : UUID) (answers : List (String × Result))
    (result : Result) : List File :=
  [⟨observationPath request "request.json",
      canonical (.request (sampleRequest request attempt (answers.map Prod.fst))),1⟩,
    ⟨observationPath request "response.json",canonical (.response (sampleResponse request answers)),1⟩,
    streamFile (observationPath request "stdout.bin") "out",
    streamFile (observationPath request "stderr.bin") "err",
    ⟨observationPath request "check.json",
      canonical (.check (sampleCheck request attempt answers result)),1⟩]

def executionInput (attempt : UUID) (result : Result) : EventInput :=
  { kind := .execution, executionKey := sampleKey, attemptId := attempt, members := sampleMembers
    execution := some (sampleExecution attempt), claimId := none, slotId := none
    observation := none, indeterminateOwner := none, result := result }

def observationInput (request : UUID) (attempt : UUID) (slot : String) (result : Result) :
    EventInput :=
  { kind := .observation, executionKey := sampleKey, attemptId := attempt
    members := sampleMembers, execution := some (sampleExecution attempt), claimId := some "claim"
    slotId := some slot
    observation := some ⟨observationPath request "check.json","check-5" ++ request,1⟩
    indeterminateOwner := none, result := result }

/-- The events that a sequence of appends of these inputs retains. -/
def retain (inputs : List EventInput) : List HistoryEvent :=
  inputs.foldl (fun events input =>
    let unsigned : UnsignedEvent :=
      { input with
        sequence := events.length+1
        previous := events.getLast?.map (fun e => ⟨e.sequence,e.eventId,.history e.sequence,
          sampleDigests.bytes (canonical (.event e))⟩) }
    events ++ [{ unsigned with eventId := sampleDigests.historyEvent unsigned }]) []

def historyFiles (events : List HistoryEvent) : List File :=
  events.map (fun e => ⟨.history e.sequence,canonical (.event e),1⟩)

/-- One attempt that passed, with a passing observation of its first member. -/
def sampleInputs : List EventInput := [executionInput "a1" .pass,observationInput "r1" "a1" "s1" .pass]

def sampleFiles : List File :=
  sampleExecutionFiles "a1" .pass ++ sampleObservationFiles "r1" "a1" [("s1",.pass)] .pass

def sampleStore : Store where
  files := sampleFiles ++ historyFiles (retain sampleInputs)
  distinct := by decide +kernel

/-- The same history with a failed observation of the second member. -/
def failedInputs : List EventInput := sampleInputs ++ [observationInput "r2" "a1" "s2" .fail]

def failedStore : Store where
  files := sampleFiles ++ historyFiles (retain sampleInputs) ++
    sampleObservationFiles "r2" "a1" [("s2",.fail)] .fail ++ (historyFiles (retain failedInputs)).drop 2
  distinct := by decide +kernel

def sampleHistory (s : Store) (inputs : List EventInput) : HistorySnapshot :=
  snapshotOf sampleDigests s (retain inputs)

theorem selectCandidates_exact_sample :
    ((∃ selections, selectCandidates sampleDigests sampleStore sampleDescriptor sampleMembers
        (sampleHistory sampleStore sampleInputs) = .ok selections) ↔
      KeyFaithful sampleDigests sampleStore sampleDescriptor (retain sampleInputs)) ∧
    ∀ selections, selectCandidates sampleDigests sampleStore sampleDescriptor sampleMembers
        (sampleHistory sampleStore sampleInputs) = .ok selections →
      List.Forall₂ (ExactSelection sampleDigests sampleStore sampleDescriptor (retain sampleInputs))
        sampleMembers selections :=
  selectCandidates_exact sampleDigests sampleStore none false _ (by decide +kernel) sampleDescriptor
    (by decide +kernel) sampleMembers (by decide +kernel)

theorem memberIsolation_sample :
    let event := (retain failedInputs)[2]
    (ObservationLevel event → sampleMember "s2" "t2" ∈ event.members →
      Selects event.toEventInput (sampleMember "s2" "t2") →
      selectCandidates sampleDigests failedStore sampleDescriptor [sampleMember "s1" "t1"]
        (sampleHistory failedStore failedInputs) =
      selectCandidates sampleDigests sampleStore sampleDescriptor [sampleMember "s1" "t1"]
        (sampleHistory sampleStore sampleInputs)) ∧
    (ExecutionFailure event → (∃ item ∈ event.members, SameTool item (sampleMember "s1" "t1")) →
      ∀ (later : Store) (captured : Option HistoryView) (allow : Bool)
        (snapshot : HistorySnapshot) (more : List HistoryEvent),
        loadHistory sampleDigests later captured allow = .ok snapshot →
        snapshot.events = retain failedInputs ++ more →
        ∀ (descriptor : ExecutionDescriptor) (selections : List CandidateSelection),
          selectCandidates sampleDigests later descriptor [sampleMember "s1" "t1"] snapshot =
            .ok selections →
          ∀ selection ∈ selections, ∀ c ∈ selection.candidate, event.sequence < c.sequence) :=
  memberIsolation sampleDigests sampleStore failedStore
    (extends_append (show failedStore.files = sampleStore.files ++
      (sampleObservationFiles "r2" "a1" [("s2",.fail)] .fail ++
        (historyFiles (retain failedInputs)).drop 2) by decide +kernel) (by decide +kernel))
    none none false false _ _ _ (by decide +kernel) (by decide +kernel) (by decide +kernel)
    sampleDescriptor _ _ (by decide +kernel) (by decide +kernel) (by decide +kernel)

end Samples

end CandidateSelection

end EvidenceV4
