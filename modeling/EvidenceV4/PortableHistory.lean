import EvidenceV4.ExpansionMembers
import EvidenceV4.ObligationManifest
import EvidenceV4.PortableEligibility

/-!
# The retained history in the portable checker

The checker reads the history directory twice, before it judges the claims and
once more at the end. An event whose receipts do not bear it out is left out
and reported, and an event that breaks the chain ends the reading. Receipts are
immutable, so both readings judge one event alike, and two readings with the
same references accept the same events.
-/

set_option autoImplicit false

namespace EvidenceV4

/-- The failures that the whole assessment turns into a report. `V4Error` and `UnicodeError` are
kinds of `ValueError`. -/
def Failure.reported (failure : Failure) : Bool :=
  failure.kind ∈ [.v4Error,.osError,.unicodeError,.valueError,.keyError,.typeError]

/-- The failures that a loop over events, work or claims reports before it goes on. -/
def Failure.skipped (failure : Failure) : Bool :=
  failure.kind ∈ [.v4Error,.osError,.unicodeError,.keyError,.typeError]

abbrev Reported := {failure : Failure // failure.reported}

/-- The failure ends in a report. -/
def Listed (failure : Failure) : Prop := failure.reported = true

/-- No handler of the assessment catches the failure. -/
def Escaping (failure : Failure) : Prop := failure.reported = false

theorem not_escaping {failure : Failure} (h : Listed failure) : ¬ Escaping failure :=
  fun escapes => absurd (escapes.symm.trans h) Bool.false_ne_true

/-- A validated observation receipt. -/
structure Observed where
  check : ObservationCheck
  request : ObservationRequest
  response : Option ObservationResponse
  usable : Bool
  deriving DecidableEq

/-- Validated readings of retained receipts. -/
structure Receipts where
  execution : ExecutionRef → Except Reported ExecutionArtifact
  observation : FileRef → Except Reported Observed
  owner : FileRef → Except Reported OwnerRecord

structure HistoryEntry where
  name : String
  data : Except Reported Bytes

/-- The history directory and the names of the attempts that hold an execution document. -/
structure HistoryDirectory where
  entries : List HistoryEntry
  attempts : Except Reported (List (String × String))

structure LoadedHistory where
  view : HistoryView
  events : List HistoryEvent
  errors : List String
  deriving DecidableEq

namespace PortableHistory

open CheckedExcept StoreDocument RetainedFiles RetainedHistory
open ExpansionMembers (memberBytes)
open PolicyDocument (mapGet)

variable (D : Digests) (receipts : Receipts)

def v4Error (message : String) : Failure := ⟨.v4Error,message⟩

def safely {α : Type} : Except Reported α → Except Failure α
  | .ok a => .ok a
  | .error failure => .error failure.val

@[simp] theorem safely_ok {α : Type} (x : Except Reported α) (a : α) :
    safely x = .ok a ↔ x = .ok a := by
  cases x <;> simp [safely]

@[simp] theorem safely_error {α : Type} (x : Except Reported α) (failure : Failure) :
    safely x = .error failure ↔ ∃ h, x = .error ⟨failure,h⟩ := by
  cases x with
  | ok a => simp [safely]
  | error reason =>
    constructor
    · intro h
      obtain rfl := Except.error.inj h
      exact ⟨reason.property,rfl⟩
    · rintro ⟨h,same⟩
      rw [Except.error.inj same, safely]

theorem safely_listed {α : Type} (x : Except Reported α) : FailsIn Listed (safely x) :=
  fun failure h => ((safely_error x failure).mp h).1

def producerOf (tools : List ToolIdentity) : Option ToolIdentity :=
  tools.find? (fun tool => tool.id = "fv-producer")

/-- An assessed answer stands on the sources and the producer of the execution it assesses. -/
def checkAssessed (receipt : ObservationCheck) (artifact : Option ExecutionArtifact) :
    Except Failure Unit :=
  match artifact with
  | none => throw ⟨.typeError,"'NoneType' object is not subscriptable"⟩
  | some artifact => do
    let descriptor := artifact.descriptor
    let source := receipt.sourceBefore
    check (source.inventoryHash = descriptor.inventoryHash ∧
        source.verifiedInputsPolicyHash = descriptor.verifiedInputsPolicyHash)
      (v4Error "observation source inventory differs from actual execution")
    check (∀ file ∈ descriptor.closure.files,
        mapGet (source.files.map (fun entry => (entry.path,entry))) file.path = some file)
      (v4Error "observation source closure differs from actual execution")
    check ((producerOf descriptor.toolchain).isSome ∧
        producerOf descriptor.toolchain = producerOf receipt.toolchain)
      (v4Error "observation producer differs from actual execution")

def observationOutcome (observed : Observed) (slotId : ID) (artifact : Option ExecutionArtifact) :
    Except Failure (Result × Option ResponseSlot) :=
  let slot := ((observed.response.map ObservationResponse.slots).getD []).find?
    (fun value => value.slotId = slotId)
  match observed.usable, slot with
  | true, some slot => do
    if slot.result = .pass ∨ slot.result = .fail then checkAssessed observed.check artifact
    pure (slot.result,some slot)
  | _, slot => do
    check (observed.check.result = .error ∨ observed.check.result = .cancelled)
      (v4Error "observation receipt has no valid member assessment")
    pure (observed.check.result,slot)

def executionEvent (event : HistoryEvent) (artifact : Option ExecutionArtifact) :
    Except Failure Unit := do
  check (event.claimId = none ∧ event.slotId = none ∧ event.observation = none ∧
      event.indeterminateOwner = none)
    (v4Error "execution event carries observation/owner fields")
  check (event.execution.isSome ∨ event.result ≠ .pass)
    (v4Error "PASS history has no physical receipt")
  check (∀ value ∈ artifact, value.result = event.result)
    (v4Error "history physical result contradiction")

def observedEvent (event : HistoryEvent) (artifact : Option ExecutionArtifact)
    (selected : Member) (observation : FileRef) : Except Failure Unit := do
  let observed ← safely (receipts.observation observation)
  let slots := observed.request.slots.filter (fun slot => some slot.slotId = event.slotId)
  check (some observed.request.claimId = event.claimId ∧ slots.length = 1 ∧
      slots.all (fun slot => some slot.execution = event.execution ∧ slot.tool = selected.tool))
    (v4Error "history observation original request mismatch")
  let outcome ← observationOutcome observed selected.slotId artifact
  check (outcome.1 = event.result) (v4Error "history observation member result contradiction")

def observationEvent (event : HistoryEvent) (artifact : Option ExecutionArtifact) :
    Except Failure Unit :=
  match event.members.filter (fun item => Selects event.toEventInput item), event.indeterminateOwner with
  | [selected], none => do
    check (event.observation.isSome ∨ event.result ≠ .pass)
      (v4Error "PASS history has no observation receipt")
    forM event.observation.toList (observedEvent receipts event artifact selected)
  | _, _ => throw (v4Error "observation history selected member mismatch")

def indeterminateEvent (event : HistoryEvent) : Except Failure Unit :=
  match event.indeterminateOwner with
  | none => throw (v4Error "indeterminate history shape contradiction")
  | some reference => do
    check ((event.result = .error ∨ event.result = .cancelled) ∧ event.observation = none)
      (v4Error "indeterminate history shape contradiction")
    let owner ← safely (receipts.owner reference)
    check (reference.path = .recoveredOwner owner.ownerId)
      (v4Error "recovered owner immutable path mismatch")
    check ((owner.pendingResults.filter
        (fun item => Covers event.toEventInput item)).length = 1)
      (v4Error "indeterminate history lacks original PendingResult")

def historyEvent (event : HistoryEvent) : Except Failure Unit := do
  let artifact ← event.execution.mapM (fun execution => safely (receipts.execution execution))
  check (∀ value ∈ artifact, value.executionKey = event.executionKey ∧
      value.attemptId = event.attemptId ∧ value.descriptor.members = event.members)
    (v4Error "history execution original membership mismatch")
  match event.kind with
  | .execution => executionEvent event artifact
  | .observation => observationEvent receipts event artifact
  | .indeterminate => indeterminateEvent receipts event

/-- The receipts bear the event out, and an observation follows a passing execution. -/
def judgeEvent (event : HistoryEvent) (events : List HistoryEvent) : Except Failure Unit := do
  historyEvent receipts event
  let prior := events.filter (fun item => item.kind = .execution ∧
    item.execution = event.execution ∧ item.executionKey = event.executionKey ∧
      item.attemptId = event.attemptId)
  check (event.kind = .observation → prior.getLast?.map (fun item => item.result) = some .pass)
    (v4Error "observation history precedes actual physical PASS")

def decodeEvent (data : Bytes) : Except Failure HistoryEvent :=
  match data.content with
  | .event event => do
    check (event.eventId = D.historyEvent event.toUnsignedEvent)
      (v4Error "event_id canonical identity mismatch")
    check ((event.members.map memberBytes).Pairwise (fun a b => a < b))
      (v4Error "set array is not unique UTF-8 sorted")
    pure event
  | _ => throw (v4Error "invalid v4 JSON")

structure Loading where
  refs : List HistoryRef
  events : List HistoryEvent
  errors : List String
  deriving DecidableEq

def loadEntry (state : Loading) (entry : HistoryEntry × ℕ) : Except Failure Loading := do
  check (entry.1.name = sequenceName entry.2)
    (v4Error "unknown entry or noncontiguous retained history")
  let data ← safely entry.1.data
  let event ← decodeEvent D data
  check (event.sequence = entry.2 ∧ event.previous = state.refs.getLast?)
    (v4Error "history chain sequence/previous contradiction")
  let refs := state.refs ++ [⟨entry.2,event.eventId,.history entry.2,D.bytes data⟩]
  match judgeEvent receipts event state.events with
  | .ok _ => pure ⟨refs,state.events ++ [event],state.errors⟩
  | .error failure =>
    if failure.skipped then
      pure ⟨refs,state.events,state.errors ++ ["history " ++ toString entry.2 ++ ": " ++
        failure.message]⟩
    else throw failure

/-- Accepted events account for the attempt. -/
def accounted (events : List HistoryEvent) (attempt : String × String) : Bool :=
  events.any (fun event => (event.execution.isSome ∨ event.kind = .indeterminate) ∧
    String.ofList (event.executionKey.toList.drop 7) = attempt.1 ∧ event.attemptId = attempt.2)

def loadHistory (directory : HistoryDirectory) (captured : HistoryView) :
    Except Failure LoadedHistory := do
  let loading ← (directory.entries.zipIdx 1).foldlM (loadEntry D receipts) ⟨[],[],[]⟩
  check (captured.events = loading.refs.take captured.events.length ∧
      captured.head = captured.events.getLast?)
    (v4Error "captured history is not consistent prefix of supplied full store")
  let attempts ← safely directory.attempts
  let unaccounted := attempts.filter (fun attempt => !accounted loading.events attempt)
  pure
    { view := ⟨loading.refs.getLast?,loading.refs⟩
      events := loading.events
      errors := loading.errors ++ unaccounted.map (fun attempt =>
        "unaccounted committed execution attempt: " ++ base ++ "/executions/" ++ attempt.1 ++
          "/" ++ attempt.2) }

/-- No two history files of the two readings collide. -/
def Distinguishes (a b : HistoryDirectory) : Prop :=
  ∀ x ∈ a.entries, ∀ y ∈ b.entries, ∀ data data', x.data = .ok data → y.data = .ok data' →
    D.bytes data = D.bytes data' → data = data'

section Readings

variable {D receipts}

/-- The reference that an accepted entry adds. -/
def Refers (D : Digests) (entry : HistoryEntry × ℕ) (ref : HistoryRef) : Prop :=
  entry.1.name = sequenceName entry.2 ∧ ref.sequence = entry.2 ∧
    ∃ data, entry.1.data = .ok data ∧ ref.hash = D.bytes data

theorem loadEntry_refs {state state' : Loading} {entry : HistoryEntry × ℕ}
    (h : loadEntry D receipts state entry = .ok state') :
    ∃ ref, state'.refs = state.refs ++ [ref] ∧ Refers D entry ref := by
  simp only [loadEntry, bind_ok, check_ok, exists_unit, safely_ok] at h
  obtain ⟨named,data,read,event,_,_,h⟩ := h
  apply Exists.intro ⟨entry.2,event.eventId,.history entry.2,D.bytes data⟩
  apply And.intro _ ⟨named,rfl,data,read,rfl⟩
  cases judged : judgeEvent receipts event state.events with
  | ok u =>
    simp only [judged, pure_ok] at h
    exact h ▸ rfl
  | error failure =>
    by_cases skipped : failure.skipped
    · simp only [judged, skipped, if_true, pure_ok] at h
      exact h ▸ rfl
    · simp [judged, skipped] at h

theorem loading_refs {entries : List (HistoryEntry × ℕ)} {state final : Loading}
    (h : entries.foldlM (loadEntry D receipts) state = .ok final) :
    ∃ refs, final.refs = state.refs ++ refs ∧ List.Forall₂ (Refers D) entries refs := by
  induction entries generalizing state with
  | nil =>
    simp only [List.foldlM_nil, pure_ok] at h
    exact ⟨[],by simp [h],.nil⟩
  | cons entry entries ih =>
    simp only [List.foldlM_cons, bind_ok] at h
    obtain ⟨middle,step,h⟩ := h
    obtain ⟨ref,added,refers⟩ := loadEntry_refs step
    obtain ⟨refs,rest,each⟩ := ih h
    exact ⟨ref :: refs,by simp [rest, added],.cons refers each⟩

theorem refers_unique {xs ys : List (HistoryEntry × ℕ)} {refs : List HistoryRef}
    (apart : ∀ x ∈ xs, ∀ y ∈ ys, ∀ data data', x.1.data = .ok data → y.1.data = .ok data' →
      D.bytes data = D.bytes data' → data = data')
    (hx : List.Forall₂ (Refers D) xs refs) (hy : List.Forall₂ (Refers D) ys refs) : xs = ys := by
  induction hx generalizing ys with
  | nil => cases hy; rfl
  | @cons x ref xs refs first _ ih =>
    cases hy with
    | @cons y _ ys _ second rest =>
      obtain ⟨nameX,indexX,data,readX,hashX⟩ := first
      obtain ⟨nameY,indexY,data',readY,hashY⟩ := second
      have index : x.2 = y.2 := indexX.symm.trans indexY
      have same : data = data' := apart x List.mem_cons_self y List.mem_cons_self data data'
        readX readY (hashX.symm.trans hashY)
      have entry : x.1 = y.1 := by
        cases hx : x.1
        cases hy : y.1
        simp_all
      have tail : xs = ys := ih (fun a ha b hb => apart a (List.mem_cons_of_mem _ ha) b
        (List.mem_cons_of_mem _ hb)) rest
      rw [tail, Prod.ext entry index]

theorem loadHistory_loading {directory : HistoryDirectory} {captured : HistoryView}
    {loaded : LoadedHistory} (h : loadHistory D receipts directory captured = .ok loaded) :
    ∃ loading, (directory.entries.zipIdx 1).foldlM (loadEntry D receipts) ⟨[],[],[]⟩ =
      .ok loading ∧ loaded.view.events = loading.refs ∧ loaded.events = loading.events := by
  simp only [loadHistory, bind_ok, check_ok, exists_unit, pure_ok] at h
  obtain ⟨loading,run,_,_,_,rfl⟩ := h
  exact ⟨loading,run,rfl,rfl⟩

/-- Readings with the same references accept the same events. -/
theorem loadHistory_events {a b : HistoryDirectory} {captured : HistoryView}
    {first second : LoadedHistory} (apart : Distinguishes D a b)
    (ha : loadHistory D receipts a captured = .ok first)
    (hb : loadHistory D receipts b captured = .ok second) (same : first.view = second.view) :
    first.events = second.events := by
  obtain ⟨loadingA,runA,refsA,eventsA⟩ := loadHistory_loading ha
  obtain ⟨loadingB,runB,refsB,eventsB⟩ := loadHistory_loading hb
  obtain ⟨addedA,wholeA,eachA⟩ := loading_refs runA
  obtain ⟨addedB,wholeB,eachB⟩ := loading_refs runB
  rw [List.nil_append] at wholeA wholeB
  have refs : addedA = addedB := by
    rw [← wholeA, ← wholeB, ← refsA, ← refsB, same]
  have entries : a.entries.zipIdx 1 = b.entries.zipIdx 1 := by
    apply refers_unique _ eachA (refs ▸ eachB)
    intro x hx y hy
    exact apart x.1 (List.fst_mem_of_mem_zipIdx hx) y.1 (List.fst_mem_of_mem_zipIdx hy)
  rw [entries] at runA
  rw [eventsA, eventsB, Except.ok.inj (runA.symm.trans runB)]

end Readings

end PortableHistory

end EvidenceV4
