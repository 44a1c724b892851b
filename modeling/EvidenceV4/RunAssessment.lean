import EvidenceV4.Generation
import EvidenceV4.PolicyExpansion

/-!
# Assessment and composition of a run

During its work an invocation holds one assessment for each slot. At the end it
selects candidates in the full history, lets failure barriers and candidates
override what it holds, composes a claim record for each policy record and
leaves a claim incomplete whose dependencies did not pass. The records are then
judged by the rules of publication.
-/

set_option autoImplicit false

namespace EvidenceV4

open CheckedExcept

/-- One physical execution of the plan. Its descriptor is materialized from the expansion. -/
structure Physical (D : Digests) (common : CommonBindings) where
  expansion : ExpandedExecution
  descriptor : Option ExecutionDescriptor
  bound : ∀ d ∈ descriptor, d.common = common ∧ d.recipe = expansion.recipe ∧
    d.members = expansion.members ∧ StoreDocument.validateExecutionDescriptor D d = .ok ()

namespace RunAssessment

open StoreDocument RetainedFiles ExecutionArchive RetainedHistory CandidateSelection Generation
open PolicyExpansion

abbrev SlotKey := ID × ID

def slotKey (member : Member) : SlotKey := (member.claimId,member.slotId)

abbrev Assessments := SlotKey → ClaimSlot

variable (D : Digests)

def slotState : Result → SlotState
  | .pass => .pass
  | .fail => .fail
  | .error => .error
  | .cancelled => .cancelled

def observationRef (check : FileRef) (receipt : ObservationCheck) : SlotObservation :=
  ⟨check,receipt.response,receipt.result⟩

/-- The assessment that an invocation starts with. -/
def initialSlot (slot : ExpandedSlot) (reason : String) : ClaimSlot where
  slotId := slot.slotId
  tool := slot.tool
  recipeId := slot.recipeId
  evidenceClass := slot.recipe.evidenceClass
  execution := none
  state := .missing
  reason := some reason
  observationBinding := ((slot.record.executions.find? (fun entry =>
    entry.slotId = slot.slotId)).map PolicySlot.observationBinding).getD ⟨"",""⟩
  blockingEvents := []
  observation := none

section Work

variable (s : Store) (events : List HistoryEvent) (descriptor : Option ExecutionDescriptor)

/-- The invocation has retained this execution of the slot's own descriptor. -/
structure Retained (ref : ExecutionRef) (e : HistoryEvent) : Prop where
  mem : e ∈ events
  kind : e.kind = .execution
  reference : e.execution = some ref
  artifact : ∃ artifact, readExecution D s ref none = .ok artifact ∧
    descriptor = some artifact.descriptor

/-- What an invocation can hold for a slot after its work: the initial assessment, changed by the
assignments of `executePhysical` and `observe` in the order in which they are reached. -/
inductive Held (slot : ExpandedSlot) : ClaimSlot → Prop
  | initial (reason : String) : Held slot (initialSlot slot reason)
  | unretained {a : ClaimSlot} (result : Result) (reason : Option String) :
      Held slot a → a.execution = none → result ≠ .pass →
      Held slot { a with state := slotState result, reason := reason }
  | executed {a : ClaimSlot} (ref : ExecutionRef) (e : HistoryEvent) (reason : Option String) :
      Held slot a → a.observation = none → Retained D s events descriptor ref e →
      Held slot { a with execution := some ref
                         state := if e.result = .pass then .missing else slotState e.result
                         reason := reason }
  | observing {a : ClaimSlot} (ref : ExecutionRef) (e : HistoryEvent) :
      Held slot a → a.observation = none → a.state = .missing → Retained D s events descriptor ref e →
      Held slot { a with execution := some ref }
  | observed {a : ClaimSlot} (check : FileRef) (receipt : ObservationCheck) (bytes : Bytes)
      (o : HistoryEvent) (reason : Option String) :
      Held slot a → o ∈ events → o.kind = .observation → o.execution = a.execution →
      Selects o.toEventInput slot.member → o.observation = some check →
      readFileRef D s check = .ok bytes → asCheck bytes = .ok receipt →
      validateObservationCheck D receipt = .ok () → o.result = receipt.result →
      Held slot { a with state := slotState receipt.result, reason := reason
                         observation := some (observationRef check receipt) }
  | failed {a : ClaimSlot} (cancelled : Bool) (reason : String) :
      Held slot a →
      Held slot { a with state := if cancelled then .cancelled else .error, reason := some reason }

end Work

section Assessment

variable (s : Store) (history : HistorySnapshot)

def blockersOf (member : Member) : List HistoryEvent :=
  history.events.filter (fun event => barrierApplies event member)

def knownBarriers (member : Member) (assessment : ClaimSlot) : ClaimSlot :=
  let events := blockersOf history member
  let assessment := { assessment with
    blockingEvents := events.filterMap (fun event => history.view.events[event.sequence-1]?) }
  if events = [] then assessment
  else
    { assessment with
      state := if ∃ event ∈ events, event.result = .fail then .fail else .error
      reason := some "retained-barrier-without-current-eligibility" }

def retainKnownBarriers {common : CommonBindings} (physical : Physical D common)
    (assessments : Assessments) : Assessments :=
  physical.expansion.members.foldl (fun current member =>
    Function.update current (slotKey member)
      (knownBarriers history member (current (slotKey member)))) assessments

/-- The candidate's receipt, read again for the record. -/
def readCandidateReceipt (candidate : Candidate) : Except String ObservationCheck := do
  let bytes ← readFileRef D s candidate.observation
  let receipt ← asCheck bytes
  validateObservationCheck D receipt
  pure receipt

/-- One round of the loop over the selections; it fails when the receipt cannot be read. -/
def assessSelection (selection : CandidateSelection) (assessment : ClaimSlot) :
    Except String ClaimSlot :=
  let assessment := { assessment with blockingEvents := selection.blockingEvents }
  if selection.state = .fail ∨ selection.state = .error then
    pure { assessment with
      state := selection.state
      reason := some (if selection.state = .fail then "unsuperseded-retained-failure"
        else "indeterminate-retained-ownership") }
  else
    match selection.candidate with
    | none => pure assessment
    | some candidate =>
      if assessment.state = .missing ∨ assessment.state = .pass then do
        let receipt ← readCandidateReceipt D s candidate
        pure { assessment with
          execution := some candidate.execution
          state := .pass
          reason := none
          observation := some (observationRef candidate.observation receipt) }
      else pure assessment

/-- The loop over the selections of one physical execution, and whether it found corruption. -/
def assessSelections {common : CommonBindings} (physical : Physical D common) :
    List CandidateSelection → Assessments → Assessments × Bool
  | [], assessments => (assessments,false)
  | selection :: rest, assessments =>
    let key := slotKey selection.member
    match assessSelection D s selection (assessments key) with
    | .ok assessment => assessSelections physical rest (Function.update assessments key assessment)
    | .error message =>
      (retainKnownBarriers D history physical (Function.update assessments key
        { assessments key with
          blockingEvents := selection.blockingEvents
          state := .error
          reason := some message }),true)

def assessPhysical {common : CommonBindings} (current : Assessments × Bool)
    (physical : Physical D common) : Assessments × Bool :=
  match physical.descriptor with
  | none => (retainKnownBarriers D history physical current.1,current.2)
  | some descriptor =>
    if current.2 then (retainKnownBarriers D history physical current.1,true)
    else
      match selectCandidates D s descriptor physical.expansion.members history with
      | .ok selections => assessSelections D s history physical selections current.1
      | .error _ => (retainKnownBarriers D history physical current.1,true)

def assessFullHistory {common : CommonBindings} (physicals : List (Physical D common))
    (assessments : Assessments) : Assessments :=
  (physicals.foldl (assessPhysical D s history) (assessments,false)).1

end Assessment

section Publication

def slotsResult (executions : List ClaimSlot) : ClaimResult :=
  if ∃ slot ∈ executions, slot.state = .fail then .fail
  else if ∀ slot ∈ executions, slot.state = .pass then .pass
  else .incomplete

def composeClaim (run : UUID) (common : CommonBindings) (assessments : Assessments)
    (record : PolicyRecord) : UnsignedClaim :=
  let executions := record.executions.map (fun slot => assessments (record.claimId,slot.slotId))
  { runId := run, claimId := record.claimId, required := record.required
    evidenceClass := record.evidenceClass, scope := record.scope, common := common
    executions := executions, result := slotsResult executions }

/-- A dependency that is not among the claims has not passed. -/
def Passed (claims : List UnsignedClaim) (dependency : ID) : Prop :=
  (PolicyDocument.mapGet (claims.map (fun claim => (claim.claimId,claim))) dependency).map
    UnsignedClaim.result = some .pass

instance (claims : List UnsignedClaim) (dependency : ID) : Decidable (Passed claims dependency) :=
  inferInstanceAs (Decidable (_ = _))

/-- One round over the claims; it changes them in place, so later claims see earlier changes. -/
def demoteRound (dependencies : ID → List ID) :
    List UnsignedClaim → List UnsignedClaim → List UnsignedClaim × Bool
  | done, [] => (done,false)
  | done, claim :: rest =>
    if claim.result = .pass ∧
        ∃ dependency ∈ dependencies claim.claimId, ¬ Passed (done ++ claim :: rest) dependency then
      ((demoteRound dependencies (done ++ [{ claim with result := .incomplete }]) rest).1,true)
    else demoteRound dependencies (done ++ [claim]) rest

def demote (dependencies : ID → List ID) : ℕ → List UnsignedClaim → List UnsignedClaim
  | 0, claims => claims
  | remaining+1, claims =>
    let round := demoteRound dependencies [] claims
    if round.2 then demote dependencies remaining round.1 else round.1

def composeClaims (policy : Policy) (dependencies : ID → List ID) (run : UUID)
    (common : CommonBindings) (assessments : Assessments) : List UnsignedClaim :=
  let claims := policy.records.map (composeClaim run common assessments)
  demote dependencies claims.length claims

/-- The record that publication writes for a claim. -/
def recordOf (claim : UnsignedClaim) : ClaimRecord := { claim with recordId := D.claimRecord claim }

/-- The claim satisfies the document rules and every slot and claim rule of publication. -/
structure SatisfiesRules (s : Store) (history : HistorySnapshot) (claim : ClaimRecord) : Prop where
  document : validateClaimRecord D claim = .ok ()
  slots : ∀ slot ∈ claim.executions, validateSlot D s history claim slot = .ok ()
  result : ResultAgrees claim

end Publication

section Facts

variable {D} {s : Store} {events : List HistoryEvent} {descriptor : Option ExecutionDescriptor}
  {slot : ExpandedSlot} {f : ClaimSlot}

/-- A recorded observation is backed by a retained event and by the receipt it names. -/
structure ObservedBy (D : Digests) (s : Store) (events : List HistoryEvent) (member : Member)
    (f : ClaimSlot) (observation : SlotObservation) (o : HistoryEvent) : Prop where
  mem : o ∈ events
  kind : o.kind = .observation
  reference : o.observation = some observation.check
  selects : Selects o.toEventInput member
  result : o.result = observation.result
  execution : o.execution = f.execution
  receipt : ∃ bytes receipt, readFileRef D s observation.check = .ok bytes ∧
    asCheck bytes = .ok receipt ∧ validateObservationCheck D receipt = .ok () ∧
    observation = observationRef observation.check receipt

/-- What holds of an assessment at any time of the work. -/
structure HeldFacts (D : Digests) (s : Store) (events : List HistoryEvent)
    (descriptor : Option ExecutionDescriptor) (slot : ExpandedSlot) (f : ClaimSlot) : Prop where
  identity : f.slotId = slot.slotId ∧ f.tool = slot.tool ∧ f.recipeId = slot.recipeId ∧
    f.evidenceClass = slot.recipe.evidenceClass
  execution : ∀ ref ∈ f.execution, ∃ e, Retained D s events descriptor ref e
  observation : ∀ observation ∈ f.observation, ∃ o,
    ObservedBy D s events slot.member f observation o
  pass : f.state = .pass → ∃ observation ∈ f.observation, observation.result = .pass

theorem slotState_pass {result : Result} : slotState result = .pass ↔ result = .pass := by
  cases result <;> simp [slotState]

theorem held_facts (h : Held D s events descriptor slot f) :
    HeldFacts D s events descriptor slot f := by
  induction h with
  | initial reason => exact ⟨⟨rfl,rfl,rfl,rfl⟩,nofun,nofun,nofun⟩
  | unretained result reason _ none bad ih =>
    refine ⟨ih.identity,ih.execution,?_,?_⟩
    · intro observation ho
      obtain ⟨o,by_⟩ := ih.observation observation ho
      exact ⟨o,by_.mem,by_.kind,by_.reference,by_.selects,by_.result,by_.execution,by_.receipt⟩
    · exact fun pass => absurd (slotState_pass.mp pass) bad
  | executed ref e reason _ unobserved retained ih =>
    refine ⟨ih.identity,?_,by simp [unobserved],?_⟩
    · intro ref' href
      obtain rfl := Option.some.inj href
      exact ⟨e,retained⟩
    · intro pass
      dsimp only at pass
      split at pass
      · simp at pass
      · next bad => exact absurd (slotState_pass.mp pass) bad
  | observing ref e _ unobserved missing retained ih =>
    refine ⟨ih.identity,?_,by simp [unobserved],?_⟩
    · intro ref' href
      obtain rfl := Option.some.inj href
      exact ⟨e,retained⟩
    · intro pass
      simp [missing] at pass
  | observed check receipt bytes o reason _ mem kind execution selects reference read decode valid
      result ih =>
    refine ⟨ih.identity,ih.execution,?_,?_⟩
    · intro observation ho
      obtain rfl := Option.some.inj ho
      exact ⟨o,mem,kind,reference,selects,result,execution,bytes,receipt,read,decode,valid,rfl⟩
    · exact fun pass => ⟨_,rfl,slotState_pass.mp pass⟩
  | failed cancelled reason _ ih =>
    refine ⟨ih.identity,ih.execution,?_,?_⟩
    · intro observation ho
      obtain ⟨o,by_⟩ := ih.observation observation ho
      exact ⟨o,by_.mem,by_.kind,by_.reference,by_.selects,by_.result,by_.execution,by_.receipt⟩
    · intro pass
      cases cancelled <;> simp at pass

/-- Changing the state, the reason and the blocking events keeps the facts, unless it passes. -/
theorem HeldFacts.overridden (h : HeldFacts D s events descriptor slot f) {g : ClaimSlot}
    (identity : g.slotId = f.slotId ∧ g.tool = f.tool ∧ g.recipeId = f.recipeId ∧
      g.evidenceClass = f.evidenceClass)
    (execution : g.execution = f.execution) (observation : g.observation = f.observation)
    (pass : g.state = .pass → f.state = .pass) : HeldFacts D s events descriptor slot g where
  identity := by
    rw [identity.1, identity.2.1, identity.2.2.1, identity.2.2.2]
    exact h.identity
  execution := execution ▸ h.execution
  observation := by
    rw [observation]
    intro recorded hr
    obtain ⟨o,by_⟩ := h.observation recorded hr
    exact ⟨o,by_.mem,by_.kind,by_.reference,by_.selects,by_.result,
      by_.execution.trans execution.symm,by_.receipt⟩
  pass := fun passing => observation ▸ h.pass (pass passing)

/-- The state agrees with the failure barriers of the member. -/
structure Cleared (D : Digests) (s : Store) (events : List HistoryEvent) (member : Member)
    (f : ClaimSlot) : Prop where
  blocking : f.blockingEvents =
    (events.filter (fun event => barrierApplies event member)).map (reference D s)
  clear : f.state = .pass → ∀ e ∈ events, e.kind = .execution → e.execution = f.execution →
    ∀ b ∈ events, barrierApplies b member → b.sequence < e.sequence
  hidden : f.state ≠ .pass → (∃ b ∈ events, barrierApplies b member ∧ b.result = .fail) →
    f.state = .fail

/-- The expansion and the claim agree about the slot. -/
structure Composed (descriptor : Option ExecutionDescriptor) (slot : ExpandedSlot)
    (claim : ClaimRecord) : Prop where
  member : slot.member = ⟨claim.claimId,slot.slotId,slot.tool⟩
  recipe : slot.recipe.recipeId = slot.recipeId
  descriptor : ∀ d ∈ descriptor, d.common = claim.common ∧ d.recipe = slot.recipe ∧
    slot.member ∈ d.members

variable {claim : ClaimRecord}

/-- A passing slot is backed by a passing execution event and its own passing observation. -/
theorem HeldFacts.backed (chain : Chain D s events)
    (h : HeldFacts D s events descriptor slot f) (pass : f.state = .pass) :
    ∃ observation ∈ f.observation, observation.result = .pass ∧
      ∃ a ∈ events, isActual f a ∧ ∃ o ∈ events, a.sequence < o.sequence ∧
        o.kind = .observation ∧ o.result = .pass ∧ o.execution = f.execution ∧
        Selects o.toEventInput slot.member := by
  obtain ⟨observation,ho,passed⟩ := h.pass pass
  obtain ⟨o,by_⟩ := h.observation observation ho
  obtain ⟨a,ha,earlier,_,ka,pa,_,execution⟩ := observation_after_execution chain by_.mem by_.kind
  refine ⟨observation,ho,passed,a,ha,?_,o,by_.mem,earlier,by_.kind,by_.result.trans passed,
    by_.execution,by_.selects⟩
  simp [isActual, ka, pa, execution, by_.execution]

theorem slotMember_eq (facts : HeldFacts D s events descriptor slot f)
    (composed : Composed descriptor slot claim) : slotMember claim f = slot.member := by
  rw [slotMember, facts.identity.1, facts.identity.2.1, composed.member]

theorem validateBlocking_ok (chain : Chain D s events) (cleared : Cleared D s events slot.member f) :
    validateBlocking (snapshotOf D s events) f = .ok () := by
  simp only [validateBlocking, forM_ok, require_ok, cleared.blocking, List.mem_map,
    List.mem_filter]
  rintro _ ⟨event,⟨hm,_⟩,rfl⟩
  exact snapshotOf_view chain hm

theorem validateSlotExecution_ok (chain : Chain D s events)
    (facts : HeldFacts D s events descriptor slot f) (composed : Composed descriptor slot claim) :
    validateSlotExecution D s claim f = .ok () := by
  unfold validateSlotExecution
  cases found : f.execution with
  | none =>
    refine (require_ok _ _ _).mpr (fun pass => ?_)
    obtain ⟨_,_,_,a,ha,actual,_⟩ := facts.backed chain pass
    simp only [isActual, found, decide_eq_true_eq] at actual
    have some := chain_executed chain ha actual.1 actual.2.1
    simp [actual.2.2] at some
  | some ref =>
    obtain ⟨e,retained⟩ := facts.execution ref found
    obtain ⟨artifact,read,described⟩ := retained.artifact
    obtain ⟨common,recipe,member⟩ := composed.descriptor _ described
    simp only [bind_ok, exists_unit, require_ok]
    refine ⟨artifact,read,⟨common,?_,?_,?_⟩,?_⟩
    · rw [recipe, composed.recipe, facts.identity.2.2.1]
    · rw [recipe, facts.identity.2.2.2]
    · rwa [slotMember_eq facts composed]
    · intro pass
      obtain ⟨_,_,_,a,ha,actual,_⟩ := facts.backed chain pass
      simp only [isActual, found, decide_eq_true_eq] at actual
      obtain ⟨artifact',read',_,_,result,_⟩ := execution_artifact chain ha actual.1 actual.2.2
      obtain rfl := Except.ok.inj (read.symm.trans read')
      exact result.trans actual.2.1

theorem validateSlotObservation_ok (facts : HeldFacts D s events descriptor slot f)
    (composed : Composed descriptor slot claim) :
    validateSlotObservation D s (snapshotOf D s events) claim f = .ok () := by
  unfold validateSlotObservation
  cases found : f.observation with
  | none =>
    refine (require_ok _ _ _).mpr (fun pass => ?_)
    obtain ⟨_,ho,_⟩ := facts.pass pass
    simp [found] at ho
  | some observation =>
    obtain ⟨o,by_⟩ := facts.observation observation found
    obtain ⟨bytes,receipt,read,decode,valid,shape⟩ := by_.receipt
    have selects := by_.selects
    rw [composed.member] at selects
    simp only [bind_ok, exists_unit, require_ok]
    refine ⟨bytes,read,receipt,decode,valid,by rw [shape]; rfl,?_,o,by_.mem,by_.kind,by_.reference,
      selects.1,?_,by_.result,by_.execution⟩
    · intro pass
      obtain ⟨passed,hp,result⟩ := facts.pass pass
      obtain rfl := Option.some.inj (found.symm.trans hp)
      exact result
    · rw [selects.2, facts.identity.1]

theorem validateSlotState_ok (chain : Chain D s events)
    (facts : HeldFacts D s events descriptor slot f) (composed : Composed descriptor slot claim)
    (cleared : Cleared D s events slot.member f) :
    validateSlotState (snapshotOf D s events) claim f = .ok () := by
  have recorded : (snapshotOf D s events).events = events := rfl
  rw [validateSlotState, slotMember_eq facts composed, recorded]
  by_cases pass : f.state = .pass
  · rw [if_pos pass]
    obtain ⟨_,_,_,a,ha,actual,o,ho,later,ko,po,execution,selects⟩ := facts.backed chain pass
    have found : (events.find? (isActual f)).isSome := List.find?_isSome.mpr ⟨a,ha,actual⟩
    obtain ⟨b,hb⟩ := Option.isSome_iff_exists.mp found
    have isB := List.find?_some hb
    simp only [isActual, decide_eq_true_eq] at actual isB
    obtain ⟨ref,href⟩ := Option.isSome_iff_exists.mp (chain_executed chain ha actual.1 actual.2.1)
    have same : b = a := execution_of_reference chain (List.mem_of_find?_eq_some hb) ha isB.1
      actual.1 (isB.2.2.trans (actual.2.2.symm.trans href)) href
    subst same
    rw [composed.member] at selects
    simp only [hb, bind_ok, exists_unit, require_ok]
    refine ⟨?_,o,ho,ko,po,later,selects.1,?_,execution⟩
    · exact (PrefixLog.cutoff_lt_iff (p := fun event => barrierApplies event slot.member)
        (chain_increasing chain) (PrefixLog.numbered_pos (chain_numbered chain) ha)).mpr
        (cleared.clear pass b ha actual.1 actual.2.2)
    · rw [selects.2, facts.identity.1]
  · rw [if_neg pass]
    refine (require_ok _ _ _).mpr (fun failed => cleared.hidden pass ?_)
    obtain ⟨event,hm,fail⟩ := failed
    obtain ⟨hm,applies⟩ := List.mem_filter.mp hm
    exact ⟨event,hm,applies,fail⟩

/-- An assessment with these facts passes every rule of its slot. -/
theorem validateSlot_ok (chain : Chain D s events)
    (facts : HeldFacts D s events descriptor slot f) (composed : Composed descriptor slot claim)
    (cleared : Cleared D s events slot.member f) :
    validateSlot D s (snapshotOf D s events) claim f = .ok () := by
  simp only [validateSlot, bind_ok, exists_unit]
  exact ⟨validateBlocking_ok chain cleared,validateSlotExecution_ok chain facts composed,
    validateSlotObservation_ok facts composed,validateSlotState_ok chain facts composed cleared⟩

end Facts

section Outcomes

variable {D} {s s' : Store} {events : List HistoryEvent} {descriptor : Option ExecutionDescriptor}
  {slot : ExpandedSlot} {held : ClaimSlot} {claim : ClaimRecord} {d : ExecutionDescriptor}

/-- When some execution is eligible for the member: an invocation that holds nothing or a pass
finds a passing receipt, and one that holds an error or a cancellation has no failure to report. -/
def Publishable (D : Digests) (s : Store) (events : List HistoryEvent) (d : ExecutionDescriptor)
    (member : Member) (held : ClaimSlot) : Prop :=
  ∀ c e o, ExactCandidate D s d events member c e o →
    (held.state = .missing ∨ held.state = .pass → ∀ receipt,
      readCandidateReceipt D s c = .ok receipt → receipt.result = .pass) ∧
    (held.state = .error ∨ held.state = .cancelled →
      ∀ b ∈ events, barrierApplies b member → b.result ≠ .fail)

theorem knownBarriers_settled (chain : Chain D s events)
    (facts : HeldFacts D s events descriptor slot held) :
    HeldFacts D s events descriptor slot
        (knownBarriers (snapshotOf D s events) slot.member held) ∧
      Cleared D s events slot.member (knownBarriers (snapshotOf D s events) slot.member held) := by
  have references := blocking_references chain (fun event => barrierApplies event slot.member)
  have blockers : blockersOf (snapshotOf D s events) slot.member =
      events.filter (fun event => barrierApplies event slot.member) := rfl
  simp only [knownBarriers, blockers, references]
  by_cases empty : events.filter (fun event => barrierApplies event slot.member) = []
  · have free : ∀ b ∈ events, barrierApplies b slot.member = false := by
      simpa using List.filter_eq_nil_iff.mp empty
    rw [if_pos empty]
    refine ⟨facts.overridden ⟨rfl,rfl,rfl,rfl⟩ rfl rfl id,rfl,?_,?_⟩
    · intro _ e _ _ _ b hb applies
      simp [free b hb] at applies
    · rintro _ ⟨b,hb,applies,_⟩
      simp [free b hb] at applies
  · rw [if_neg empty]
    refine ⟨facts.overridden ⟨rfl,rfl,rfl,rfl⟩ rfl rfl ?_,rfl,?_,?_⟩
    · intro pass
      dsimp only at pass
      split at pass <;> simp at pass
    · intro pass
      dsimp only at pass
      split at pass <;> simp at pass
    · rintro _ ⟨b,hb,applies,fail⟩
      exact if_pos ⟨b,List.mem_filter.mpr ⟨hb,applies⟩,fail⟩

/-- The receipt of a retained observation can be read again. -/
theorem observation_receipt (chain : Chain D s events) {o : HistoryEvent} (ho : o ∈ events)
    (k : o.kind = .observation) {check : FileRef} (reference : o.observation = some check) :
    ∃ bytes receipt, readFileRef D s check = .ok bytes ∧ asCheck bytes = .ok receipt ∧
      validateObservationCheck D receipt = .ok () := by
  obtain ⟨_,_,_,accepted⟩ := chain_mem chain ho
  have judged := (accepted_observation accepted k).receipt
  unfold observationResult at judged
  rw [reference] at judged
  cases href : o.execution with
  | none => simp [href] at judged
  | some ref =>
    simp only [href, bind_ok] at judged
    obtain ⟨receipt,read,_⟩ := judged
    simp only [readReceipt, bind_ok, exists_unit] at read
    obtain ⟨bytes,hb,decoded,hd,valid,_⟩ := read
    exact ⟨bytes,decoded,hb,hd,valid⟩

theorem readCandidateReceipt_ok {c : Candidate} {receipt : ObservationCheck} :
    readCandidateReceipt D s c = .ok receipt ↔ ∃ bytes, readFileRef D s c.observation = .ok bytes ∧
      asCheck bytes = .ok receipt ∧ validateObservationCheck D receipt = .ok () := by
  simp only [readCandidateReceipt, bind_ok, exists_unit, pure_ok]
  constructor
  · rintro ⟨bytes,read,receipt,decode,valid,rfl⟩
    exact ⟨bytes,read,decode,valid⟩
  · rintro ⟨bytes,read,decode,valid⟩
    exact ⟨bytes,read,receipt,decode,valid,rfl⟩

/-- The execution and observation of a candidate are determined by the history. -/
theorem exactCandidate_unique (chain : Chain D s events) {member : Member} {c c' : Candidate}
    {e e' o o' : HistoryEvent} (h : ExactCandidate D s d events member c e o)
    (h' : ExactCandidate D s d events member c' e' o') :
    c.observation = c'.observation ∧ c.execution = c'.execution := by
  have numbered := chain_numbered chain
  obtain rfl : e = e' := PrefixLog.numbered_injective numbered h.eligible.mem h'.eligible.mem
    (Nat.le_antisymm (h'.greatest e h.eligible) (h.greatest e' h'.eligible))
  obtain rfl : o = o' := PrefixLog.numbered_injective numbered h.confirms.mem h'.confirms.mem
    (Nat.le_antisymm (h'.latest o h.confirms) (h.latest o' h'.confirms))
  exact ⟨Option.some.inj (h.observation.symm.trans h'.observation),
    Option.some.inj (h.execution.symm.trans h'.execution)⟩

/-- An adopted candidate whose receipt passes has the facts of a passing slot. -/
theorem adopted_settled (chain : Chain D s events)
    (facts : HeldFacts D s events (some d) slot held) {c : Candidate} {e o : HistoryEvent}
    (exact_ : ExactCandidate D s d events slot.member c e o) {receipt : ObservationCheck}
    (read : readCandidateReceipt D s c = .ok receipt) (pass : receipt.result = .pass)
    {g : ClaimSlot} (identity : g.slotId = held.slotId ∧ g.tool = held.tool ∧
      g.recipeId = held.recipeId ∧ g.evidenceClass = held.evidenceClass)
    (execution : g.execution = some c.execution) (state : g.state = .pass)
    (observation : g.observation = some (observationRef c.observation receipt))
    (blocking : g.blockingEvents =
      (events.filter (fun event => barrierApplies event slot.member)).map (reference D s)) :
    HeldFacts D s events (some d) slot g ∧ Cleared D s events slot.member g := by
  obtain ⟨bytes,hb,decode,valid⟩ := readCandidateReceipt_ok.mp read
  have ho := exact_.confirms.mem
  have passing := exact_.confirms.passing
  have he := exact_.eligible.mem
  have success := exact_.eligible.passing
  obtain ⟨a,ha,_,sameAttempt,ka,_,_,executed⟩ := observation_after_execution chain ho passing.1
  have isE : a = e := execution_unique chain ha he ka success.1
    ⟨passing.2.2.1.symm.trans sameAttempt.1.symm,passing.2.2.2.1.symm.trans sameAttempt.2.symm⟩
  subst isE
  refine ⟨⟨?_,?_,?_,?_⟩,blocking,?_,fun bad => absurd state bad⟩
  · rw [identity.1, identity.2.1, identity.2.2.1, identity.2.2.2]
    exact facts.identity
  · intro ref href
    obtain rfl := Option.some.inj (execution.symm.trans href)
    exact ⟨a,he,success.1,exact_.execution,c.artifact,exact_.artifact,by rw [exact_.same]⟩
  · intro recorded hr
    obtain rfl := Option.some.inj (observation.symm.trans hr)
    exact ⟨o,ho,passing.1,exact_.observation,passing.2.2.2.2,passing.2.1.trans pass.symm,
      executed.symm.trans (exact_.execution.trans execution.symm),bytes,receipt,hb,decode,valid,rfl⟩
  · exact fun _ => ⟨_,observation,pass⟩
  · intro _ b hbm kb hbe
    have eq : b = a := execution_of_reference chain hbm he kb success.1 (hbe.trans execution)
      exact_.execution
    exact eq ▸ exact_.eligible.clear

/-- The slot breaks a rule of publication: it passes on a receipt that does not pass, or it hides
a failure of the member. -/
structure Refused (events : List HistoryEvent) (slot : ExpandedSlot) (g : ClaimSlot) : Prop where
  identity : g.slotId = slot.slotId ∧ g.tool = slot.tool
  broken : (g.state = .pass ∧ ∃ observation ∈ g.observation, observation.result ≠ .pass) ∨
    (g.state ≠ .pass ∧ g.state ≠ .fail ∧
      ∃ b ∈ events, barrierApplies b slot.member ∧ b.result = .fail)

theorem validateSlot_refuses (refused : Refused events slot held)
    (member : slot.member = ⟨claim.claimId,slot.slotId,slot.tool⟩) :
    validateSlot D s (snapshotOf D s events) claim held ≠ .ok () := by
  intro accepted
  have same : slotMember claim held = slot.member := by
    rw [slotMember, refused.identity.1, refused.identity.2, member]
  simp only [validateSlot, bind_ok, exists_unit] at accepted
  obtain ⟨_,_,observation,state⟩ := accepted
  rcases refused.broken with ⟨pass,recorded,hr,bad⟩ | ⟨notPass,notFail,b,hb,applies,fail⟩
  · simp only [validateSlotObservation, Option.mem_def.mp hr, bind_ok, exists_unit, require_ok]
      at observation
    obtain ⟨_,_,_,_,_,_,passes,_⟩ := observation
    exact bad (passes pass)
  · rw [validateSlotState, if_neg notPass, require_ok, same] at state
    exact notFail (state ⟨b,List.mem_filter.mpr ⟨hb,applies⟩,fail⟩)

theorem assessSelection_none (facts : HeldFacts D s events descriptor slot held)
    {selection : CandidateSelection}
    (exact_ : ExactSelection D s d events slot.member selection) (none : selection.candidate = none) :
    ∃ g, assessSelection D s selection held = .ok g ∧ HeldFacts D s events descriptor slot g ∧
      Cleared D s events slot.member g := by
  by_cases barred : ∃ b ∈ events, barrierApplies b slot.member
  · have failing : selection.state = .fail ∨ selection.state = .error := by
      by_cases failed : ∃ b ∈ events, barrierApplies b slot.member ∧ b.result = .fail
      · exact Or.inl ((exact_.fail none).mpr failed)
      · exact Or.inr ((exact_.error none).mpr
          ⟨barred,fun b hb applies fail => failed ⟨b,hb,applies,fail⟩⟩)
    rw [assessSelection, if_pos failing]
    refine ⟨_,rfl,facts.overridden ⟨rfl,rfl,rfl,rfl⟩ rfl rfl ?_,exact_.blocking,?_,?_⟩
    · rintro pass
      rcases failing with state | state <;> simp [state] at pass
    · rintro pass
      rcases failing with state | state <;> simp [state] at pass
    · exact fun _ failed => (exact_.fail none).mpr failed
  · have free : ∀ b ∈ events, barrierApplies b slot.member = false := by simpa using barred
    have missing := (exact_.missing none).mpr free
    rw [assessSelection, if_neg (by simp [missing]), none]
    refine ⟨_,rfl,facts.overridden ⟨rfl,rfl,rfl,rfl⟩ rfl rfl id,exact_.blocking,?_,?_⟩
    · intro _ e _ _ _ b hb applies
      exact absurd ⟨b,hb,applies⟩ barred
    · rintro _ ⟨b,hb,applies,_⟩
      exact absurd ⟨b,hb,applies⟩ barred

theorem assessSelection_some (chain : Chain D s events)
    (facts : HeldFacts D s events (some d) slot held) {selection : CandidateSelection}
    (exact_ : ExactSelection D s d events slot.member selection) {c : Candidate}
    (found : selection.candidate = some c) {e o : HistoryEvent}
    (candidate : ExactCandidate D s d events slot.member c e o) :
    ∃ g, assessSelection D s selection held = .ok g ∧
      (Publishable D s events d slot.member held →
        HeldFacts D s events (some d) slot g ∧ Cleared D s events slot.member g) ∧
      (¬ Publishable D s events d slot.member held → Refused events slot g) := by
  have pass := exact_.pass (by simp [found])
  obtain ⟨bytes,receipt,read,decode,valid⟩ := observation_receipt chain candidate.confirms.mem
    candidate.confirms.passing.1 candidate.observation
  have readable := readCandidateReceipt_ok.mpr ⟨bytes,read,decode,valid⟩
  have sameReceipt : ∀ c' e' o', ExactCandidate D s d events slot.member c' e' o' →
      readCandidateReceipt D s c' = .ok receipt := by
    intro c' e' o' other
    rw [readCandidateReceipt, ← (exactCandidate_unique chain candidate other).1]
    exact readable
  rw [assessSelection, if_neg (by simp [pass]), found]
  by_cases open_ : held.state = .missing ∨ held.state = .pass
  · simp only [if_pos open_, readable]
    refine ⟨_,rfl,?_,?_⟩
    · intro publishable
      have passes := (publishable c e o candidate).1 open_ receipt readable
      exact adopted_settled chain facts candidate readable passes ⟨rfl,rfl,rfl,rfl⟩ rfl rfl rfl
        exact_.blocking
    · intro refused
      refine ⟨⟨facts.identity.1,facts.identity.2.1⟩,Or.inl ⟨rfl,_,rfl,fun passes => refused ?_⟩⟩
      intro c' e' o' other
      refine ⟨fun _ receipt' read' => ?_,?_⟩
      · obtain rfl := Except.ok.inj ((sameReceipt c' e' o' other).symm.trans read')
        exact passes
      · intro ended
        rcases open_ with state | state <;> simp [state] at ended
  · simp only [if_neg open_]
    have notMissing : held.state ≠ .missing := fun state => open_ (Or.inl state)
    have notPass : held.state ≠ .pass := fun state => open_ (Or.inr state)
    refine ⟨_,rfl,?_,?_⟩
    · intro publishable
      refine ⟨facts.overridden ⟨rfl,rfl,rfl,rfl⟩ rfl rfl id,exact_.blocking,
        fun state => absurd state notPass,?_⟩
      rintro _ ⟨b,hb,applies,fail⟩
      have clean := (publishable c e o candidate).2
      cases state : held.state with
      | fail => rfl
      | pass => exact absurd state notPass
      | missing => exact absurd state notMissing
      | error => exact absurd fail (clean (Or.inl state) b hb applies)
      | cancelled => exact absurd fail (clean (Or.inr state) b hb applies)
    · intro refused
      refine ⟨⟨facts.identity.1,facts.identity.2.1⟩,
        Or.inr ⟨notPass,fun failed => refused ?_,?_⟩⟩
      · intro c' e' o' _
        refine ⟨fun state => absurd state open_,fun ended => ?_⟩
        have failed' : held.state = .fail := failed
        simp [failed'] at ended
      · by_contra clean
        refine refused (fun c' e' o' _ => ⟨fun state => absurd state open_,fun _ b hb applies fail => ?_⟩)
        exact clean ⟨b,hb,applies,fail⟩

/-- What one exact selection makes of a held assessment. -/
theorem assessSelection_outcome (chain : Chain D s events)
    (facts : HeldFacts D s events (some d) slot held) {selection : CandidateSelection}
    (exact_ : ExactSelection D s d events slot.member selection) :
    ∃ g, assessSelection D s selection held = .ok g ∧
      (Publishable D s events d slot.member held →
        HeldFacts D s events (some d) slot g ∧ Cleared D s events slot.member g) ∧
      (¬ Publishable D s events d slot.member held → Refused events slot g) := by
  cases found : selection.candidate with
  | some c =>
    obtain ⟨e,o,candidate⟩ := exact_.exact c found
    exact assessSelection_some chain facts exact_ found candidate
  | none =>
    obtain ⟨g,assessed,settled⟩ := assessSelection_none facts exact_ found
    refine ⟨g,assessed,fun _ => settled,fun refused => absurd ?_ refused⟩
    intro c e o candidate
    have some := exact_.candidate.mpr ⟨e,candidate.eligible⟩
    simp [found] at some

end Outcomes

end RunAssessment

end EvidenceV4
