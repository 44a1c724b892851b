import EvidenceV4.PortableVerdict

/-!
# Failures that leave a slot

The assessment turns the failures of its own classes into a report. Three others
can arise in it: the manifest loader raises a class of its own, the package rules
call `get` on a value that is no table, and the wait for the claim checker can be
too long for the system. A slot lets a failure out exactly when it reaches one of
the last two, and the ledger of answers never changes what it reaches.
-/

set_option autoImplicit false

namespace EvidenceV4

namespace PortableAssessment

open CheckedExcept PolicyExpansion PortableEligibility PortableHistory
open ObligationManifest (loadManifest)
open PackagePolicy (ToolsEscape packagePolicy_escapes)
open PolicyDocument (mapGet)
open Raising

variable {D : Digests} {repr : CanonicalJson.Value → String} {portable : Portable}
  {bindings : PolicyBindings} {run : SuppliedRun}

section Listed

theorem check_listed {condition : Prop} [Decidable condition] {message : String} :
    FailsIn Listed (check condition (v4Error message) : Except Failure Unit) :=
  failsIn_check rfl

theorem lift_quiet {σ α : Type} {x : Except Failure α} {s : σ} (h : FailsIn Listed x) :
    ¬ Raises Escaping (lift x) s :=
  fun ⟨failure,raised,escapes⟩ => not_escaping (h failure raised) escapes

theorem validated_listed {α : Type} (x : Except String α) : FailsIn Listed (validated x) := by
  cases x with
  | ok a => exact fun _ h => nomatch h
  | error message => exact fun _ h => Except.error.inj h ▸ rfl

theorem getItem_listed {α : Type} (dictionary : List (String × α)) (key : String) :
    FailsIn Listed (getItem dictionary key) := by
  unfold getItem
  split
  · exact failsIn_throw rfl
  · exact failsIn_pure _

theorem checkRecord_listed {policy : Policy} {raw : List (ID × CanonicalJson.Value)}
    {manifest : ManifestBindings} {record : PolicyRecord} :
    FailsIn Listed (checkRecord policy raw manifest record) := by
  unfold checkRecord
  refine failsIn_bind (failsIn_check rfl) ?_
  intro _ _
  refine failsIn_bind (getItem_listed _ _) ?_
  intro kind _
  refine failsIn_bind (getItem_listed _ _) ?_
  intro required _
  refine failsIn_bind (failsIn_check rfl) ?_
  intro _ _
  refine failsIn_bind (failsIn_check rfl) ?_
  intro _ _
  refine failsIn_bind (failsIn_forM ?_) ?_
  · intro slot _
    exact failsIn_bind (getItem_listed _ _) (fun _ _ => failsIn_check rfl)
  · intro _ _
    exact failsIn_bind (failsIn_check rfl) (fun _ _ => failsIn_check rfl)

theorem checkSelection_listed : FailsIn Listed (checkSelection portable bindings) := by
  unfold checkSelection
  split
  · exact failsIn_pure _
  · exact failsIn_check rfl

theorem initialRow_listed {claim : ID} : FailsIn Listed (initialRow bindings claim) := by
  unfold initialRow
  refine failsIn_bind (failsIn_mapM ?_) (fun _ _ => failsIn_pure _)
  intro slot _
  exact failsIn_bind (getItem_listed _ _) (fun _ _ => failsIn_pure _)

theorem checkBindings_listed : FailsIn Listed (checkBindings run bindings) := by
  unfold checkBindings
  dsimp only
  repeat refine failsIn_bind (failsIn_check rfl) (fun _ _ => ?_)
  exact failsIn_check rfl

theorem checkWork_listed {entry : RunWork} : FailsIn Listed (checkWork portable entry) := by
  unfold checkWork
  cases entry.execution with
  | none => exact failsIn_bind (failsIn_check rfl) (fun _ _ => failsIn_check rfl)
  | some execution =>
    refine failsIn_bind (failsIn_check rfl) (fun _ _ => ?_)
    refine failsIn_bind (safely_listed _) (fun _ _ => ?_)
    refine failsIn_bind (failsIn_check rfl) (fun _ _ => ?_)
    exact failsIn_bind (failsIn_check rfl) (fun _ _ => failsIn_check rfl)

theorem checkPreflight_listed {entry : PreflightCheck} :
    FailsIn Listed (checkPreflight portable entry) := by
  unfold checkPreflight
  refine failsIn_bind (failsIn_forM (fun _ _ => safely_listed _)) (fun _ _ => ?_)
  refine failsIn_bind (failsIn_forM (fun _ _ => safely_listed _)) (fun _ _ => ?_)
  exact failsIn_bind (failsIn_check rfl) (fun _ _ => failsIn_check rfl)

theorem checkScans_listed : FailsIn Listed (checkScans portable run bindings) := by
  unfold checkScans
  refine failsIn_bind (failsIn_forM (fun _ _ => safely_listed _)) (fun _ _ => ?_)
  refine failsIn_bind (failsIn_forM (fun _ _ => safely_listed _)) (fun _ _ => ?_)
  refine failsIn_bind (failsIn_check rfl) (fun _ _ => ?_)
  refine failsIn_bind (failsIn_check rfl) (fun _ _ => ?_)
  refine failsIn_bind (failsIn_forM (fun _ _ => checkPreflight_listed)) (fun _ _ => ?_)
  exact failsIn_check rfl

theorem observationOutcome_listed {observed : Observed} {slotId : ID}
    {artifact : Option ExecutionArtifact} :
    FailsIn Listed (observationOutcome observed slotId artifact) := by
  have assessed : FailsIn Listed (checkAssessed observed.check artifact) := by
    unfold checkAssessed
    cases artifact with
    | none => exact failsIn_throw rfl
    | some artifact =>
      dsimp only
      refine failsIn_bind (failsIn_check rfl) (fun _ _ => ?_)
      exact failsIn_bind (failsIn_check rfl) (fun _ _ => failsIn_check rfl)
  unfold observationOutcome
  dsimp only
  split
  · split
    · exact failsIn_bind assessed (fun _ _ => failsIn_pure _)
    · exact failsIn_pure _
  · exact failsIn_bind (failsIn_check rfl) (fun _ _ => failsIn_pure _)

theorem judgeEvent_listed {receipts : Receipts} {event : HistoryEvent} {events : List HistoryEvent} :
    FailsIn Listed (judgeEvent receipts event events) := by
  have executions : ∀ artifact, FailsIn Listed (executionEvent event artifact) := by
    intro artifact
    refine failsIn_bind (failsIn_check rfl) (fun _ _ => ?_)
    exact failsIn_bind (failsIn_check rfl) (fun _ _ => failsIn_check rfl)
  have observations : ∀ artifact, FailsIn Listed (observationEvent receipts event artifact) := by
    intro artifact
    unfold observationEvent
    split
    · refine failsIn_bind (failsIn_check rfl) (fun _ _ => failsIn_forM (fun observation _ => ?_))
      refine failsIn_bind (safely_listed _) (fun _ _ => ?_)
      refine failsIn_bind (failsIn_check rfl) (fun _ _ => ?_)
      exact failsIn_bind observationOutcome_listed (fun _ _ => failsIn_check rfl)
    · exact failsIn_throw rfl
  have owners : FailsIn Listed (indeterminateEvent receipts event) := by
    unfold indeterminateEvent
    cases event.indeterminateOwner with
    | none => exact failsIn_throw rfl
    | some reference =>
      refine failsIn_bind (failsIn_check rfl) (fun _ _ => ?_)
      refine failsIn_bind (safely_listed _) (fun _ _ => ?_)
      exact failsIn_bind (failsIn_check rfl) (fun _ _ => failsIn_check rfl)
  have receipt : FailsIn Listed (event.execution.mapM
      (fun execution => safely (receipts.execution execution))) := by
    cases event.execution with
    | none => exact failsIn_pure _
    | some execution =>
      intro failure h
      cases read : safely (receipts.execution execution) with
      | ok artifact => simp [Option.mapM_some, read, Functor.map, Except.map] at h
      | error reason =>
        simp only [Option.mapM_some, read, Functor.map, Except.map] at h
        exact Except.error.inj h ▸ safely_listed _ reason read
  refine failsIn_bind ?_ (fun _ _ => failsIn_check rfl)
  unfold historyEvent
  refine failsIn_bind receipt (fun artifact _ => ?_)
  refine failsIn_bind (failsIn_check rfl) (fun _ _ => ?_)
  cases event.kind with
  | execution => exact executions artifact
  | observation => exact observations artifact
  | indeterminate => exact owners

theorem loadHistory_listed {receipts : Receipts} {directory : HistoryDirectory}
    {captured : HistoryView} : FailsIn Listed (loadHistory D receipts directory captured) := by
  have decodes : ∀ data, FailsIn Listed (decodeEvent D data) := by
    intro data
    unfold decodeEvent
    split
    · refine failsIn_bind (failsIn_check rfl) (fun _ _ => ?_)
      exact failsIn_bind (failsIn_check rfl) (fun _ _ => failsIn_pure _)
    · exact failsIn_throw rfl
  have each : ∀ state entry, FailsIn Listed (loadEntry D receipts state entry) := by
    intro state entry
    unfold loadEntry
    refine failsIn_bind (failsIn_check rfl) (fun _ _ => ?_)
    refine failsIn_bind (safely_listed _) (fun data _ => ?_)
    refine failsIn_bind (decodes data) (fun event _ => ?_)
    refine failsIn_bind (failsIn_check rfl) (fun _ _ => ?_)
    dsimp only
    split
    · exact failsIn_pure _
    · next failure judged =>
      split
      · exact failsIn_pure _
      · exact failsIn_throw (judgeEvent_listed failure judged)
  refine failsIn_bind (failsIn_foldlM (fun state entry _ => each state entry)) (fun _ _ => ?_)
  refine failsIn_bind (failsIn_check rfl) (fun _ _ => ?_)
  exact failsIn_bind (safely_listed _) (fun _ _ => failsIn_pure _)

theorem readClaim_listed {expected : PolicyRecord} :
    FailsIn Listed (readClaim D portable run bindings expected) := by
  refine failsIn_bind (getItem_listed _ _) (fun _ _ => ?_)
  refine failsIn_bind (failsIn_check rfl) (fun _ _ => ?_)
  refine failsIn_bind (safely_listed _) (fun _ _ => ?_)
  refine failsIn_bind (failsIn_check rfl) (fun _ _ => ?_)
  refine failsIn_bind (failsIn_check rfl) (fun _ _ => ?_)
  exact failsIn_bind (failsIn_check rfl) (fun _ _ => failsIn_pure _)

theorem checkSaved_listed {context : SlotContext} {row : SlotRow} :
    FailsIn Listed (checkSaved context row) := by
  unfold checkSaved
  dsimp only
  refine failsIn_bind (failsIn_check rfl) (fun _ _ => ?_)
  refine failsIn_bind (failsIn_check rfl) (fun _ _ => ?_)
  refine failsIn_bind (getItem_listed _ _) (fun _ _ => ?_)
  unfold workOf
  dsimp only
  split
  · exact failsIn_throw rfl
  · exact failsIn_pure _

theorem ownObservation_listed {context : SlotContext} {artifact : ExecutionArtifact}
    {execution : ExecutionRef} {observation : SlotObservation} :
    FailsIn Listed (ownObservation portable context artifact execution observation) := by
  refine failsIn_bind (safely_listed _) (fun _ _ => ?_)
  refine failsIn_bind ?_ (fun _ _ => ?_)
  · exact failsIn_bind (failsIn_check rfl) (fun _ _ => failsIn_check rfl)
  · refine failsIn_bind (safely_listed _) (fun _ _ => ?_)
    refine failsIn_bind observationOutcome_listed (fun _ _ => ?_)
    exact failsIn_bind (failsIn_check rfl) (fun _ _ => failsIn_pure _)

theorem checkEligible_listed {context : SlotContext} {observation : SlotObservation}
    {answer : Option ResponseSlot} :
    FailsIn Listed (checkEligible portable context observation answer) := by
  refine failsIn_bind (failsIn_check rfl) (fun _ _ => ?_)
  refine failsIn_bind (failsIn_check rfl) (fun _ _ => ?_)
  exact failsIn_bind (failsIn_check rfl) (fun _ _ => failsIn_check rfl)

theorem checkDrift_listed {judged : Judged} : FailsIn Listed (checkDrift portable judged) :=
  fun _ h => checkDrift_reported h

end Listed

section Manifest

open ObligationManifest

theorem idList_escaping {claim field : String} {value : Option CanonicalJson.Value}
    {grammar : String → Bool} : FailsIn Escaping (idList repr claim field value grammar) := by
  unfold idList
  split
  · apply failsIn_foldlM
    intro ids entry _
    unfold addName
    split
    · split
      · exact failsIn_bind (failsIn_check rfl) (fun _ _ => failsIn_pure _)
      · exact failsIn_throw rfl
    · exact failsIn_throw rfl
  · exact failsIn_throw rfl

/-- The loader of the manifest raises its own class only. -/
theorem loadManifest_escaping {value : CanonicalJson.Value} :
    FailsIn Escaping (loadManifest repr value) := by
  have entries : ∀ manifest collection,
      FailsIn Escaping (obligationEntries repr manifest collection) := by
    intro manifest collection
    unfold obligationEntries
    split
    · apply failsIn_mapM
      intro entry _
      unfold obligationEntry
      split
      · split
        · refine failsIn_bind (failsIn_check rfl) (fun _ _ => ?_)
          exact failsIn_bind (failsIn_check rfl) (fun _ _ => failsIn_pure _)
        · exact failsIn_throw rfl
      · exact failsIn_throw rfl
    · exact failsIn_throw rfl
  have declares : ∀ collection kind declared entry,
      FailsIn Escaping (declare repr collection kind declared entry) := by
    intro collection kind declared entry
    unfold declare
    split
    · exact failsIn_throw rfl
    · exact failsIn_pure _
  have validates : ∀ kinds claim, FailsIn Escaping (validateSystemClaim repr kinds claim) := by
    intro kinds claim
    refine failsIn_bind idList_escaping (fun _ _ => ?_)
    refine failsIn_bind (failsIn_forM (fun dependency _ => ?_)) (fun _ _ => ?_)
    · unfold checkDependency
      split
      · exact failsIn_throw rfl
      · exact failsIn_check rfl
    · exact failsIn_bind idList_escaping (fun _ _ => failsIn_pure _)
  cases value with
  | object manifest =>
    refine failsIn_bind (failsIn_foldlM (fun declared collection _ => ?_)) (fun declared _ => ?_)
    · refine failsIn_bind (entries manifest collection.1) (fun found _ => ?_)
      exact failsIn_foldlM (fun state entry _ => declares collection.1 collection.2 state entry)
    · refine failsIn_bind (failsIn_mapM (fun claim _ => ?_)) (fun _ _ => failsIn_pure _)
      exact failsIn_bind (validates declared.kinds claim) (fun _ _ => failsIn_pure _)
  | _ => exact failsIn_throw rfl

/-- The policy stage reaches a manifest that the loader rejects. -/
def ManifestRejected (repr : CanonicalJson.Value → String) (portable : Portable) (path : String) :
    Prop :=
  ∃ checked value failure, portable.policy path = .ok checked ∧
    portable.manifest checked = .ok value ∧ loadManifest repr value = .error failure

theorem policyBindings_escapes {path : String} :
    (∃ failure, policyBindings repr portable path = .error failure ∧ Escaping failure) ↔
      ManifestRejected repr portable path := by
  constructor
  · rintro ⟨failure,h,escapes⟩
    simp only [policyBindings, bind_error, safely_ok] at h
    rcases h with read | ⟨checked,policy,read | ⟨value,found,rejected | ⟨manifest,_,h⟩⟩⟩
    · exact absurd escapes (not_escaping (safely_listed _ failure read))
    · exact absurd escapes (not_escaping (safely_listed _ failure read))
    · exact ⟨checked,value,failure,policy,found,rejected⟩
    · rcases h with record | ⟨_,_,common | ⟨_,_,ends⟩⟩
      · have listed := failsIn_forM (fun _ _ => checkRecord_listed) failure record
        exact absurd escapes (not_escaping listed)
      · exact absurd escapes (not_escaping (safely_listed _ failure common))
      · simp at ends
  · rintro ⟨checked,value,failure,policy,found,rejected⟩
    refine ⟨failure,?_,loadManifest_escaping failure rejected⟩
    simp only [policyBindings, bind_error, safely_ok]
    exact .inr ⟨checked,policy,.inr ⟨value,found,.inl rejected⟩⟩

end Manifest

section Receipts

variable {context : SlotContext} {observed : Observed} {current : InputState}

/-- The claim checker would be started, and it would be waited for too long. -/
def CheckerOverflows (portable : Portable) (bindings : PolicyBindings)
    (request : ObservationRequest) (current : InputState) : Prop :=
  portable.checker.directory request = .ok () ∧
    portable.checker.start bindings request current = .ok () ∧
    portable.checker.cleanup request = .ok () ∧
    ∃ seconds ∈ bindings.checked.policy.claimChecker.timeoutSeconds, longestPoll < seconds*1000

theorem recheck_escapes {request : ObservationRequest} {original : Option ObservationResponse} :
    (∃ failure, recheck portable bindings request original current = .error failure ∧
      Escaping failure) ↔ CheckerOverflows portable bindings request current := by
  simp only [recheck, bind_error, safely_ok]
  constructor
  · rintro ⟨failure,opens | ⟨_,opened,cleans | ⟨_,cleaned,starts | ⟨_,started,h⟩⟩⟩,escapes⟩
    · exact absurd escapes (not_escaping (safely_listed _ failure opens))
    · exact absurd escapes (not_escaping (safely_listed _ failure cleans))
    · exact absurd escapes (not_escaping (safely_listed _ failure starts))
    · refine ⟨opened,started,cleaned,?_⟩
      cases timeout : bindings.checked.policy.claimChecker.timeoutSeconds with
      | none =>
        rw [timeout] at h
        rcases h with loops | ⟨_,_,answers⟩
        · simp at loops
        · exact absurd escapes (not_escaping (safely_listed _ failure answers))
      | some seconds =>
        rw [timeout] at h
        rcases h with loops | ⟨_,_,answers⟩
        · simp only [Option.toList_some, List.forM_cons, List.forM_nil, bind_error, check_error,
            pure_error, and_false, exists_false, or_false] at loops
          exact ⟨seconds,rfl,Nat.lt_of_not_le loops.1⟩
        · exact absurd escapes (not_escaping (safely_listed _ failure answers))
  · rintro ⟨opened,started,cleaned,seconds,timeout,long⟩
    refine ⟨⟨.overflowError,"timeout is too large"⟩,?_,rfl⟩
    refine .inr ⟨(),opened,.inr ⟨(),cleaned,.inr ⟨(),started,.inl ?_⟩⟩⟩
    rw [Option.mem_def.mp timeout]
    simp only [Option.toList_some, List.forM_cons, bind_error, check_error]
    exact .inl ⟨Nat.not_le_of_lt long,trivial⟩

/-- Every answer in the ledger is the one that its receipt gives. -/
def LedgerHolds (portable : Portable) (bindings : PolicyBindings) (current : Option InputState)
    (ledger : Ledger) : Prop :=
  ∀ inputs ∈ current, ∀ entry ∈ ledger.replayed, ∀ ref observed, ref.path = entry.1 →
    portable.observation ref = .ok observed → ∃ answer,
      recheck portable bindings observed.request observed.response inputs = .ok answer ∧
        answer.val = entry.2

theorem replay_answer {ref : FileRef} {s : SlotRow × Ledger} {s' : SlotRow × Ledger}
    {response : ObservationResponse}
    (holds : LedgerHolds portable context.bindings (some current) s.2)
    (read : portable.observation ref = .ok observed)
    (ran : replay portable context observed ref.path current s = (.ok response,s')) :
    ∃ answer, recheck portable context.bindings observed.request observed.response current =
      .ok answer ∧ answer.val = response := by
  simp only [replay, bind_ran, asking_ran] at ran
  obtain ⟨known,_,⟨own,rfl⟩,ran⟩ := ran
  obtain rfl := Except.ok.inj own
  cases found : s.2.replayed.find? (fun entry => entry.1 = ref.path) with
  | some entry =>
    simp only [found, pure_ran] at ran
    obtain ⟨rfl,rfl⟩ := ran
    have path : entry.1 = ref.path := by simpa using List.find?_some found
    exact holds current rfl entry (List.mem_of_find?_eq_some found) ref observed path.symm read
  | none =>
    simp only [found, bind_ran, lift_ran, modify_ran, pure_ran] at ran
    obtain ⟨answer,_,⟨answers,rfl⟩,_,_,_,rfl,rfl⟩ := ran
    exact ⟨answer,answers,rfl⟩

theorem replay_escapes {ref : FileRef} {row : SlotRow} {ledger : Ledger}
    (holds : LedgerHolds portable context.bindings (some current) ledger)
    (read : portable.observation ref = .ok observed) :
    Raises Escaping (replay portable context observed ref.path current) (row,ledger) ↔
      CheckerOverflows portable context.bindings observed.request current := by
  rw [← @recheck_escapes _ _ _ _ observed.response]
  simp only [replay, raises_bind, raises_asking, asking_ran]
  cases found : ledger.replayed.find? (fun entry => entry.1 = ref.path) with
  | some entry =>
    have path : entry.1 = ref.path := by simpa using List.find?_some found
    obtain ⟨answer,answers,_⟩ :=
      holds current rfl entry (List.mem_of_find?_eq_some found) ref observed path.symm read
    constructor
    · rintro (⟨_,raised,_⟩ | ⟨known,m,⟨own,rfl⟩,raised⟩)
      · cases raised
      · obtain rfl := Except.ok.inj own
        simp at raised
    · rintro ⟨failure,raised,_⟩
      rw [answers] at raised
      cases raised
  | none =>
    constructor
    · rintro (⟨_,raised,_⟩ | ⟨known,m,⟨own,rfl⟩,raised⟩)
      · cases raised
      · obtain rfl := Except.ok.inj own
        simpa using raised
    · intro raised
      exact .inr ⟨none,(row,ledger),⟨rfl,rfl⟩,by simpa using raised⟩

/-- The answer to a request holds a slot for each slot that was asked for. -/
theorem answered_slot {request : ObservationRequest} {slotId : ID} (answer : Replay request)
    (asked : ∃ slot ∈ request.slots, slot.slotId = slotId) :
    ∃ slot, answer.val.slots.find? (fun slot => slot.slotId = slotId) = some slot := by
  obtain ⟨slot,member,rfl⟩ := asked
  have listed : slot.slotId ∈ answer.val.slots.map ResponseSlot.slotId := by
    rw [answer.property]
    exact List.mem_map_of_mem member
  obtain ⟨found,held,same⟩ := List.mem_map.mp listed
  apply Option.isSome_iff_exists.mp
  rw [List.find?_isSome]
  exact ⟨found,held,decide_eq_true same⟩

theorem recheckSlot_escapes {observation : SlotObservation} {row : SlotRow} {ledger : Ledger}
    (holds : LedgerHolds portable context.bindings (some current) ledger)
    (read : portable.observation observation.check = .ok observed)
    (asked : ∃ slot ∈ observed.request.slots, slot.slotId = context.saved.slotId) :
    Raises Escaping (recheckSlot portable context observed observation current) (row,ledger) ↔
      CheckerOverflows portable context.bindings observed.request current := by
  rw [recheckSlot, raises_bind, replay_escapes holds read]
  constructor
  · rintro (overflows | ⟨response,m,ran,raised⟩)
    · exact overflows
    · obtain ⟨answer,_,rfl⟩ := replay_answer holds read ran
      obtain ⟨checked,found⟩ := answered_slot answer asked
      simp only [found, raises_bind, raises_modify, modify_ran, false_or] at raised
      obtain ⟨_,_,rfl,raised⟩ := raised
      by_cases passed : checked.result = .pass
      · simp [passed, setState] at raised
      · simp [passed] at raised
  · exact .inl

end Receipts

section Slots

variable {context : SlotContext} {row : SlotRow} {ledger : Ledger}

/-- A slot of a passing execution is asked about again, and the wait overflows. -/
def RecheckEscapes (portable : Portable) (context : SlotContext) (artifact : ExecutionArtifact)
    (execution : ExecutionRef) (observation : SlotObservation) : Prop :=
  ∃ own, ownObservation portable context artifact execution observation = .ok own ∧
    ¬ (own.result = .error ∨ own.result = .cancelled) ∧ context.eligibility.eligible = true ∧
    checkEligible portable context observation own.answer = .ok () ∧
    ∃ current ∈ context.current, (portable.recompute = true ∧ portable.recheckObservations = true) ∧
      CheckerOverflows portable context.bindings own.observed.request current

/-- The current sources let a failure out of the package rules. -/
def DescriptorEscapes (D : Digests) (portable : Portable) (context : SlotContext)
    (artifact : ExecutionArtifact) : Prop :=
  portable.definition context.bindings artifact context.current = .ok () ∧
    ∃ state ∈ context.current, ToolsEscape D portable.cargo
      (artifact.descriptor.toolchain.map portable.packaged) state.files

/-- The recorded slot reaches a failure that no handler catches. -/
def SlotEscapes (D : Digests) (portable : Portable) (context : SlotContext) (row : SlotRow) : Prop :=
  (∃ work, checkSaved context row = .ok work) ∧ ∃ execution ∈ context.saved.execution,
    ∃ artifact, portable.execution execution = .ok artifact ∧
      (DescriptorEscapes D portable context artifact ∨
        citedArtifact D portable context execution = .ok artifact ∧ artifact.result = .pass ∧
          ∃ observation ∈ context.saved.observation,
            RecheckEscapes portable context artifact execution observation)

theorem ownObservation_ran {artifact : ExecutionArtifact} {execution : ExecutionRef}
    {observation : SlotObservation} {own : OwnObservation}
    (h : ownObservation portable context artifact execution observation = .ok own) :
    portable.observation observation.check = .ok own.observed ∧
      ∃ slot ∈ own.observed.request.slots, slot.slotId = context.saved.slotId := by
  simp only [ownObservation, checkRequested, bind_ok, safely_ok, check_ok, pure_ok, exists_unit] at h
  obtain ⟨observed,read,⟨_,_,requested,found,_⟩,_,_,_,_,rfl⟩ := h
  apply And.intro read
  refine ⟨requested,List.mem_of_find?_eq_some (Option.mem_def.mp found),?_⟩
  simpa using List.find?_some (Option.mem_def.mp found)

theorem assessEligible_escapes {observed : Observed} {observation : SlotObservation}
    (holds : LedgerHolds portable context.bindings context.current ledger)
    (read : portable.observation observation.check = .ok observed)
    (asked : ∃ slot ∈ observed.request.slots, slot.slotId = context.saved.slotId) :
    Raises Escaping (assessEligible portable context observed observation) (row,ledger) ↔
      ∃ current ∈ context.current,
        (portable.recompute = true ∧ portable.recheckObservations = true) ∧
          CheckerOverflows portable context.bindings observed.request current := by
  unfold assessEligible
  cases known : context.current with
  | none => simp [setState]
  | some current =>
    rw [known] at holds
    by_cases asks : portable.recompute = true ∧ portable.recheckObservations = true
    · simp only [asks, and_self, if_true, recheckSlot_escapes holds read asked, Option.mem_some,
        true_and, exists_eq_left']
    · simp [asks, setState]

theorem assessObserved_escapes {artifact : ExecutionArtifact} {execution : ExecutionRef}
    {observation : SlotObservation}
    (holds : LedgerHolds portable context.bindings context.current ledger) :
    Raises Escaping (assessObserved portable context artifact execution observation) (row,ledger) ↔
      RecheckEscapes portable context artifact execution observation := by
  simp only [assessObserved, raises_bind, raises_lift, lift_ran, raises_modify, modify_ran, false_or]
  constructor
  · rintro (⟨failure,raised,escapes⟩ | ⟨own,_,⟨read,rfl⟩,_,m,rfl,raised⟩)
    · exact absurd escapes (not_escaping (ownObservation_listed failure raised))
    · apply Exists.intro own
      apply And.intro read
      by_cases unassessed : own.result = .error ∨ own.result = .cancelled
      · simp only [unassessed, if_true, raises_bind, raises_lift, lift_ran] at raised
        rcases raised with ⟨failure,raised,escapes⟩ | ⟨_,_,⟨_,rfl⟩,raised⟩
        · exact absurd escapes (not_escaping (check_listed failure raised))
        · by_cases physical : physicalFailure context.eligibility.remaining = true
          · simp [physical] at raised
          · simp [physical, setState] at raised
      · simp only [unassessed, if_false] at raised
        by_cases eligible : context.eligibility.eligible = true
        · simp only [eligible, if_true, raises_bind, raises_lift, lift_ran] at raised
          rcases raised with ⟨failure,raised,escapes⟩ | ⟨_,_,⟨checked,rfl⟩,raised⟩
          · exact absurd escapes (not_escaping (checkEligible_listed failure raised))
          · have source := ownObservation_ran read
            exact ⟨unassessed,eligible,checked,
              (assessEligible_escapes holds source.1 source.2).mp raised⟩
        · by_cases physical : physicalFailure context.eligibility.remaining = true
          · simp [eligible, physical] at raised
          · simp [eligible, physical, setState] at raised
  · rintro ⟨own,read,assessed,eligible,checked,reached⟩
    refine .inr ⟨own,(row,ledger),⟨read,rfl⟩,(),_,rfl,?_⟩
    simp only [assessed, if_false, eligible, if_true, raises_bind, lift_ran]
    have source := ownObservation_ran read
    exact .inr ⟨(),_,⟨checked,rfl⟩,(assessEligible_escapes holds source.1 source.2).mpr reached⟩

theorem citedArtifact_escapes {execution : ExecutionRef} :
    (∃ failure, citedArtifact D portable context execution = .error failure ∧ Escaping failure) ↔
      ∃ artifact, portable.execution execution = .ok artifact ∧
        DescriptorEscapes D portable context artifact := by
  simp only [citedArtifact, currentDescriptor, bind_error, safely_ok, check_error, pure_error,
    and_false, exists_false, or_false]
  constructor
  · rintro ⟨failure,unread | ⟨artifact,read,(undefined | ⟨_,defined,h⟩) | ⟨_,_,_,rfl⟩⟩,escapes⟩
    · exact absurd escapes (not_escaping (safely_listed _ failure unread))
    · exact absurd escapes (not_escaping (safely_listed _ failure undefined))
    · apply Exists.intro artifact
      apply And.intro read
      apply And.intro defined
      cases known : context.current with
      | none => simp [known] at h
      | some state =>
        simp only [known, Option.toList_some, List.forM_cons, List.forM_nil, bind_error, pure_error,
          and_false, exists_false, or_false] at h
        exact ⟨state,rfl,packagePolicy_escapes.mp ⟨failure,h,escapes⟩⟩
    · cases escapes
  · rintro ⟨artifact,read,defined,state,known,reached⟩
    obtain ⟨failure,raised,escapes⟩ := packagePolicy_escapes.mpr reached
    refine ⟨failure,.inr ⟨artifact,read,.inl (.inr ⟨(),defined,?_⟩)⟩,escapes⟩
    rw [Option.mem_def.mp known]
    simp only [Option.toList_some, List.forM_cons, bind_error]
    exact .inl raised

theorem citedArtifact_read {execution : ExecutionRef} {artifact : ExecutionArtifact}
    (h : citedArtifact D portable context execution = .ok artifact) :
    portable.execution execution = .ok artifact := by
  simp only [citedArtifact, bind_ok, safely_ok, check_ok, pure_ok, exists_unit] at h
  obtain ⟨_,read,_,_,rfl⟩ := h
  exact read

theorem assessExecuted_escapes {execution : ExecutionRef}
    (holds : LedgerHolds portable context.bindings context.current ledger) :
    Raises Escaping (assessExecuted D portable context execution) (row,ledger) ↔
      ∃ artifact, portable.execution execution = .ok artifact ∧
        (DescriptorEscapes D portable context artifact ∨
          citedArtifact D portable context execution = .ok artifact ∧ artifact.result = .pass ∧
            ∃ observation ∈ context.saved.observation,
              RecheckEscapes portable context artifact execution observation) := by
  simp only [assessExecuted, raises_bind, raises_lift, lift_ran]
  constructor
  · rintro (cited | ⟨artifact,_,⟨cited,rfl⟩,raised⟩)
    · obtain ⟨artifact,read,reached⟩ := citedArtifact_escapes.mp cited
      exact ⟨artifact,read,.inl reached⟩
    · apply Exists.intro artifact
      apply And.intro (citedArtifact_read cited)
      apply Or.inr
      apply And.intro cited
      by_cases other : artifact.result ≠ .pass
      · rw [if_pos other] at raised
        exact absurd raised (lift_quiet check_listed)
      · rw [if_neg other] at raised
        apply And.intro (not_not.mp other)
        cases observed : context.saved.observation with
        | none =>
          simp only [observed] at raised
          exact absurd raised (lift_quiet (failsIn_throw rfl))
        | some observation =>
          simp only [observed] at raised
          exact ⟨observation,rfl,(assessObserved_escapes holds).mp raised⟩
  · rintro ⟨artifact,read,reached⟩
    rcases reached with cited | ⟨cited,passed,observation,observed,reached⟩
    · exact .inl (citedArtifact_escapes.mpr ⟨artifact,read,cited⟩)
    · refine .inr ⟨artifact,_,⟨cited,rfl⟩,?_⟩
      rw [if_neg (not_not.mpr passed)]
      simp only [Option.mem_def.mp observed]
      exact (assessObserved_escapes holds).mpr reached

theorem assessSaved_escapes
    (holds : LedgerHolds portable context.bindings context.current ledger) :
    Raises Escaping (assessSaved D portable context) (row,ledger) ↔
      SlotEscapes D portable context row := by
  simp only [assessSaved, raises_bind, raises_asking, asking_ran, raises_lift, lift_ran,
    raises_modify, modify_ran, false_or]
  constructor
  · rintro (⟨_,raised,_⟩ | ⟨_,_,⟨own,rfl⟩,⟨failure,raised,escapes⟩ | ⟨work,_,⟨checked,rfl⟩,_,m,rfl,
      raised⟩⟩)
    · cases raised
    · exact absurd escapes (not_escaping (checkSaved_listed failure raised))
    · obtain rfl := Except.ok.inj own
      apply And.intro ⟨work,checked⟩
      cases executed : context.saved.execution with
      | none =>
        simp only [executed] at raised
        exact absurd raised (lift_quiet check_listed)
      | some execution =>
        simp only [executed] at raised
        exact ⟨execution,rfl,(assessExecuted_escapes holds).mp raised⟩
  · rintro ⟨⟨work,checked⟩,execution,executed,reached⟩
    refine .inr ⟨row,(row,ledger),⟨rfl,rfl⟩,.inr ⟨work,(row,ledger),⟨checked,rfl⟩,(),_,rfl,?_⟩⟩
    simp only [Option.mem_def.mp executed]
    exact (assessExecuted_escapes holds).mpr reached

end Slots

section Ledgers

variable {context : SlotContext}

/-- The computation leaves answers that their receipts give. -/
def KeepsLedger {τ α : Type} (portable : Portable) (bindings : PolicyBindings)
    (current : Option InputState) (x : Raising Failure (τ × Ledger) α) : Prop :=
  Keeps (fun s => LedgerHolds portable bindings current s.2) x

theorem setState_ledger {state : SlotState} {current : Option InputState} :
    KeepsLedger portable bindings current (setState state) :=
  keeps_modify (fun _ h => h)

theorem replay_ledger {observed : Observed} {ref : FileRef} {current : InputState}
    (read : portable.observation ref = .ok observed) :
    KeepsLedger portable context.bindings (some current)
      (replay portable context observed ref.path current) := by
  unfold replay
  refine keeps_bind (keeps_asking _) ?_
  intro known
  cases known with
  | some entry => exact keeps_pure _
  | none =>
    apply keeps_lift_bind
    intro answer answers
    refine keeps_bind (keeps_modify ?_) (fun _ => keeps_pure _)
    intro s holds inputs same entry member
    rcases List.mem_append.mp member with old | new
    · exact holds inputs same entry old
    · obtain rfl := List.mem_singleton.mp new
      obtain rfl := Option.some.inj same
      intro other again path other_read
      obtain rfl := portable.observation_fixed other ref again observed other_read read path
      exact ⟨answer,answers,rfl⟩

theorem recheckSlot_ledger {observed : Observed} {observation : SlotObservation}
    {current : InputState} (read : portable.observation observation.check = .ok observed) :
    KeepsLedger portable context.bindings (some current)
      (recheckSlot portable context observed observation current) := by
  unfold recheckSlot
  refine keeps_bind (replay_ledger read) ?_
  intro response
  cases response.slots.find? (fun slot => slot.slotId = context.saved.slotId) with
  | none => exact keeps_lift _
  | some checked =>
    refine keeps_bind (keeps_modify (fun _ h => h)) ?_
    exact fun _ => keeps_ite setState_ledger (keeps_modify (fun _ h => h))

theorem assessObserved_ledger {artifact : ExecutionArtifact} {execution : ExecutionRef}
    {observation : SlotObservation} : KeepsLedger portable context.bindings context.current
      (assessObserved portable context artifact execution observation) := by
  unfold assessObserved
  apply keeps_lift_bind
  intro own read
  refine keeps_bind (keeps_modify (fun _ h => h)) ?_
  intro _
  dsimp only
  apply keeps_ite
  · refine keeps_bind (keeps_lift _) ?_
    exact fun _ => keeps_ite (keeps_pure _) setState_ledger
  · apply keeps_ite
    · refine keeps_bind (keeps_lift _) ?_
      intro _
      unfold assessEligible
      cases context.current with
      | none => exact setState_ledger
      | some current =>
        exact keeps_ite (recheckSlot_ledger (ownObservation_ran read).1) setState_ledger
    · exact keeps_ite (keeps_pure _) setState_ledger

theorem assessSaved_ledger : KeepsLedger portable context.bindings context.current
    (assessSaved D portable context) := by
  unfold assessSaved
  refine keeps_bind (keeps_asking _) ?_
  intro row
  refine keeps_bind (keeps_lift _) ?_
  intro work
  refine keeps_bind (keeps_modify (fun _ h => h)) ?_
  intro _
  cases context.saved.execution with
  | none => exact keeps_lift _
  | some execution =>
    unfold assessExecuted
    refine keeps_bind (keeps_lift _) ?_
    intro artifact
    refine keeps_ite (keeps_lift _) ?_
    cases context.saved.observation with
    | none => exact keeps_lift _
    | some observation => exact assessObserved_ledger

theorem assessSlot_ledger {current : Option InputState} {loaded : LoadedHistory} {claim : ID}
    {record : Option ClaimRecord} : KeepsLedger portable bindings current
      (assessSlot D portable run bindings current loaded claim record) := by
  unfold assessSlot
  refine keeps_bind (keeps_asking _) ?_
  intro row
  refine keeps_bind (keeps_lift _) ?_
  intro r
  refine keeps_bind (keeps_modify (fun _ h => h)) ?_
  intro _
  refine keeps_catching ?_ (fun _ => keeps_modify (fun _ h => h))
  cases record.bind (fun record =>
      record.executions.find? (fun slot => slot.slotId = row.slot.slotId)) with
  | none => exact keeps_lift _
  | some saved =>
    exact @assessSaved_ledger _ _ ⟨run,bindings,current,loaded,claim,saved,r⟩

end Ledgers

section Slots

variable {current : Option InputState} {loaded : LoadedHistory} {claim : ID}
  {record : Option ClaimRecord} {row row' : SlotRow} {ledger ledger' : Ledger}

def savedSlot (record : Option ClaimRecord) (row : SlotRow) : Option ClaimSlot :=
  record.bind (fun record => record.executions.find? (fun slot => slot.slotId = row.slot.slotId))

/-- The history places the slot among its events. -/
def SlotPlaced (loaded : LoadedHistory) (claim : ID) (record : Option ClaimRecord)
    (row : SlotRow) : Prop :=
  ∃ r, eligibility loaded.events loaded.view.events
    ((savedSlot record row).bind ClaimSlot.execution) claim row.slot.tool = .ok r

/-- The slot is placed and recorded, and it reaches a failure that no handler catches. -/
def SlotReaches (D : Digests) (portable : Portable) (run : SuppliedRun) (bindings : PolicyBindings)
    (current : Option InputState) (loaded : LoadedHistory) (claim : ID)
    (record : Option ClaimRecord) (row : SlotRow) : Prop :=
  ∃ r saved, eligibility loaded.events loaded.view.events
      ((savedSlot record row).bind ClaimSlot.execution) claim row.slot.tool = .ok r ∧
    savedSlot record row = some saved ∧
    SlotEscapes D portable ⟨run,bindings,current,loaded,claim,saved,r⟩ row

theorem rejected_escapes {body : SlotStep Unit} {physical : Bool} {s : SlotRow × Ledger} :
    Raises Escaping (catching Failure.reported body (rejectSlot claim physical)) s ↔
      Raises Escaping body s := by
  apply raises_catching (fun _ escapes => escapes)
  intro failure m
  rw [rejectSlot, raises_modify]
  exact not_false

theorem adopt_escapes {context : SlotContext} {saved : Option ClaimSlot} {r : Eligibility} :
    SlotEscapes D portable context (adopt saved r row) ↔ SlotEscapes D portable context row := by
  have same : checkSaved context (adopt saved r row) = checkSaved context row := by
    cases saved <;> rfl
  rw [SlotEscapes, same, SlotEscapes]

theorem assessSlot_placed (ran : assessSlot D portable run bindings current loaded claim record
    (row,ledger) = (.ok (),(row',ledger'))) : SlotPlaced loaded claim record row := by
  simp only [assessSlot, bind_ran, asking_ran, lift_ran, validated_ok] at ran
  obtain ⟨_,_,⟨own,rfl⟩,r,_,⟨found,_⟩,_⟩ := ran
  obtain rfl := Except.ok.inj own
  exact ⟨r,found⟩

theorem assessSlot_escapes (holds : LedgerHolds portable bindings current ledger) :
    Raises Escaping (assessSlot D portable run bindings current loaded claim record) (row,ledger) ↔
      SlotReaches D portable run bindings current loaded claim record row := by
  simp only [assessSlot, raises_bind, raises_asking, asking_ran, raises_lift, lift_ran,
    raises_modify, modify_ran, false_or, validated_ok]
  constructor
  · rintro (⟨_,raised,_⟩ | ⟨_,_,⟨own,rfl⟩,⟨failure,raised,escapes⟩ | ⟨r,_,⟨found,rfl⟩,_,m,rfl,
      raised⟩⟩)
    · cases raised
    · exact absurd escapes (not_escaping (validated_listed _ failure raised))
    · obtain rfl := Except.ok.inj own
      rw [rejected_escapes] at raised
      replace found : eligibility loaded.events loaded.view.events
        ((savedSlot record row).bind ClaimSlot.execution) claim row.slot.tool = .ok r := found
      cases known : savedSlot record row with
      | none =>
        rw [savedSlot] at known
        simp only [known] at raised
        exact absurd raised (lift_quiet (failsIn_throw rfl))
      | some saved =>
        refine ⟨r,saved,known ▸ found,known,?_⟩
        rw [savedSlot] at known
        simp only [known] at raised
        exact adopt_escapes.mp ((assessSaved_escapes holds).mp raised)
  · rintro ⟨r,saved,found,known,reached⟩
    refine .inr ⟨row,(row,ledger),⟨rfl,rfl⟩,.inr ⟨r,(row,ledger),⟨found,rfl⟩,(),_,rfl,?_⟩⟩
    rw [rejected_escapes]
    rw [savedSlot] at known
    simp only [known]
    exact (assessSaved_escapes holds).mpr (adopt_escapes.mpr reached)

/-- A slot that is placed raises only what no handler catches. -/
theorem assessSlot_raised {failure : Failure} (placed : SlotPlaced loaded claim record row)
    (raised : (assessSlot D portable run bindings current loaded claim record (row,ledger)).1 =
      .error failure) : Escaping failure := by
  obtain ⟨r,found⟩ := placed
  have raises : Raises (fun e => e = failure)
      (assessSlot D portable run bindings current loaded claim record) (row,ledger) :=
    ⟨failure,raised,rfl⟩
  simp only [assessSlot, raises_bind, raises_asking, asking_ran, raises_lift, raises_modify,
    modify_ran, false_or] at raises
  rcases raises with ⟨_,h,_⟩ | ⟨_,_,⟨own,rfl⟩,⟨_,unplaced,_⟩ | ⟨_,_,_,_,m,_,e,h,rfl⟩⟩
  · cases h
  · obtain rfl := Except.ok.inj own
    replace unplaced : validated (eligibility loaded.events loaded.view.events
      ((savedSlot record row).bind ClaimSlot.execution) claim row.slot.tool) = .error _ := unplaced
    rw [found] at unplaced
    cases unplaced
  · exact catching_raised (fun _ _ _ => by simp [rejectSlot, Raising.modify]) h

end Slots

end PortableAssessment

end EvidenceV4
