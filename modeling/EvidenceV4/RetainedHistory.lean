import EvidenceV4.ExecutionArchive
import EvidenceV4.PrefixLog

/-!
# The retained history

History events are files numbered from one, each holding a reference to its
predecessor. A scan rebuilds the chain and judges every event against the
events before it and against the artifacts and receipts it names. A complete
read also asks that every committed execution and every committed observation
receipt is accounted for by some event.
-/

set_option autoImplicit false

namespace EvidenceV4

structure HistorySnapshot where
  view : HistoryView
  events : List HistoryEvent
  deriving DecidableEq

namespace RetainedHistory

open CheckedExcept StoreDocument RetainedFiles ExecutionArchive PrefixLog

def SameTool (a b : Member) : Prop := a.claimId = b.claimId ∧ a.tool = b.tool

instance (a b : Member) : Decidable (SameTool a b) := inferInstanceAs (Decidable (_ ∧ _))

def barrierApplies (event : HistoryEvent) (member : Member) : Bool :=
  if event.result ≠ .fail ∧ event.kind ≠ .indeterminate then false
  else if event.kind = .observation ∨ event.kind = .indeterminate ∧ event.claimId.isSome then
    event.members.any (fun item => Selects event.toEventInput item ∧ SameTool item member)
  else event.members.any (fun item => SameTool item member)

theorem barrierApplies_iff {event : HistoryEvent} {member : Member} :
    barrierApplies event member ↔ (event.result = .fail ∨ event.kind = .indeterminate) ∧
      ∃ item ∈ event.members, SameTool item member ∧
        (event.kind = .observation ∨ event.kind = .indeterminate ∧ event.claimId.isSome →
          Selects event.toEventInput item) := by
  unfold barrierApplies
  by_cases fails : event.result ≠ .fail ∧ event.kind ≠ .indeterminate
  · have none : ¬ (event.result = .fail ∨ event.kind = .indeterminate) := not_or.mpr fails
    rw [if_pos fails]
    simp [none]
  · have some : event.result = .fail ∨ event.kind = .indeterminate := by
      rwa [not_and_or, not_not, not_not] at fails
    rw [if_neg fails]
    split
    · next level => simp [some, level, and_comm]
    · next level => simp [some, level]

variable (D : Digests)

/-- The receipt of an observation and the request it answers. -/
structure Receipt where
  check : ObservationCheck
  request : ObservationRequest
  requestBytes : Bytes
  run : UUID

def readReceipt (s : Store) (observation : FileRef) : Except String Receipt := do
  let bytes ← readFileRef D s observation
  let check ← asCheck bytes
  validateObservationCheck D check
  match observation.path with
  | .observation run claim request "check.json" => do
    require (check.request.path = .observation run claim request "request.json" ∧
        check.stdout.path = .observation run claim request "stdout.bin" ∧
        check.stderr.path = .observation run claim request "stderr.bin")
      "observation files escape fixed owner directory"
    let requestBytes ← readFileRef D s check.request
    let asked ← asRequest requestBytes
    validateObservationRequest asked
    let _ ← readFileRef D s check.stdout
    let _ ← readFileRef D s check.stderr
    require (asked.claimId = claim ∧ asked.requestId = request)
      "observation request member/path mismatch"
    pure ⟨check,asked,requestBytes,run⟩
  | _ => throw "v4 store: observation files escape fixed owner directory"

def responsePath (receipt : Receipt) : Path :=
  .observation receipt.run receipt.request.claimId receipt.request.requestId "response.json"

/-- The checker's answer, decoded and matched with the request. -/
def matchResponse (receipt : Receipt) (bytes : Bytes) : Except String ObservationResponse := do
  let response ← asResponse bytes
  validateObservationResponse response
  require (response.requestId = receipt.request.requestId ∧
      response.requestHash = D.bytes receipt.requestBytes ∧
      response.claimId = receipt.request.claimId ∧
      response.slots.map ResponseSlot.slotId = receipt.request.slots.map RequestSlot.slotId)
    "observation response/request mismatch"
  require (receipt.check.startedAt ≤ response.startedAt ∧
      response.startedAt ≤ response.finishedAt ∧
      response.finishedAt ≤ receipt.check.finishedAt)
    "observation response interval mismatch"
  pure response

def producerTool (tools : List ToolIdentity) : Option ToolIdentity :=
  tools.find? (fun tool => tool.id = "fv-producer")

/-- An assessed result needs a normal checker run over the unchanged clean source. -/
def assessedReceipt (receipt : Receipt) (selected : RequestSlot) (answer : Option Result)
    (event : HistoryEvent) (artifact : ExecutionArtifact) : Except String Unit := do
  let check := receipt.check
  let descriptor := artifact.descriptor
  require (check.termination.Normal ∧ answer = some event.result ∧ check.sourceBefore.clean ∧
      check.sourceAfter = some check.sourceBefore)
    "observation assessed result has invalid receipt"
  require (selected.recipeId = descriptor.recipe.recipeId ∧
      check.sourceBefore.inventoryHash = descriptor.inventoryHash ∧
      check.sourceBefore.verifiedInputsPolicyHash = descriptor.verifiedInputsPolicyHash ∧
      ∀ file ∈ descriptor.closure.files, file ∈ check.sourceBefore.files)
    "observation source/recipe binding mismatch"
  require (producerTool check.toolchain = producerTool descriptor.toolchain)
    "observation producer binding mismatch"

def Unassessed (result : Result) : Prop := result = .error ∨ result = .cancelled

instance (result : Result) : Decidable (Unassessed result) := inferInstanceAs (Decidable (_ ∨ _))

/-- How the recorded answer bears out the result of the event. -/
def judgeResponse (receipt : Receipt) (selected : RequestSlot) (bytes : Bytes)
    (event : HistoryEvent) (artifact : ExecutionArtifact) : Except String Unit :=
  match matchResponse D receipt bytes with
  | .error message =>
    if Unassessed event.result ∧ event.result = receipt.check.result then pure ()
    else throw message
  | .ok response => do
    let answer := (response.slots.find? (fun slot => some slot.slotId = event.slotId)).map
      ResponseSlot.result
    if Unassessed event.result then
      require (event.result = receipt.check.result ∨ event.result = .error ∧ answer = some .error)
        "observation error result mismatch"
    else assessedReceipt receipt selected answer event artifact

def observationBindings (s : Store) (receipt : Receipt) (selected : RequestSlot)
    (execution : ExecutionRef) (event : HistoryEvent) : Except String Unit := do
  let check := receipt.check
  let request := receipt.request
  let artifact ← readExecution D s execution none
  let common := artifact.descriptor.common
  require (artifact.result = .pass ∧ request.common = common ∧
      request.policyHash = common.policyHash ∧ request.policyPath = common.policyPath)
    "observation request provenance mismatch"
  require (⟨request.claimId,selected.slotId,selected.tool⟩ ∈ event.members)
    "observation tool/member mismatch"
  require (request.createdAt ≤ check.startedAt ∧ check.startedAt ≤ check.finishedAt)
    "observation check interval mismatch"
  assertToolchainIdentity D check.toolchain
  match check.response with
  | none =>
    require (event.result = check.result ∧ Unassessed event.result)
      "observation missing response claims an assessment"
  | some response => do
    require (response.path = responsePath receipt) "response escapes request directory"
    let bytes ← readFileRef D s response
    judgeResponse D receipt selected bytes event artifact

def observationResult (s : Store) (event : HistoryEvent) : Except String Unit :=
  match event.execution, event.observation with
  | none, _ => throw "v4 store: observation event missing execution"
  | some _, none =>
    require (Unassessed event.result) "observation assessment missing durable receipt"
  | some execution, some observation => do
    let receipt ← readReceipt D s observation
    require (some receipt.request.claimId = event.claimId)
      "observation request member/path mismatch"
    match receipt.request.slots.find? (fun slot => some slot.slotId = event.slotId) with
    | none => throw "v4 store: observation selected execution mismatch"
    | some selected => do
      require (selected.execution = execution) "observation selected execution mismatch"
      observationBindings D s receipt selected execution event

def SameAttempt (event other : EventInput) : Prop :=
  other.executionKey = event.executionKey ∧ other.attemptId = event.attemptId

instance (event other : EventInput) : Decidable (SameAttempt event other) :=
  inferInstanceAs (Decidable (_ ∧ _))

def sameAttempt (event : HistoryEvent) (previous : List HistoryEvent) : List HistoryEvent :=
  previous.filter (fun item => SameAttempt event.toEventInput item.toEventInput)

def actualExecution (event : HistoryEvent) (previous : List HistoryEvent) : Option HistoryEvent :=
  (sameAttempt event previous).find? (fun item => item.kind = .execution)

/-- The event settles the attempt as a whole. -/
def SettlesAttempt (event : HistoryEvent) : Prop :=
  event.kind = .execution ∨ event.kind = .indeterminate ∧ event.claimId = none

instance (event : HistoryEvent) : Decidable (SettlesAttempt event) :=
  inferInstanceAs (Decidable (_ ∨ _))

def executionBindings (s : Store) (event : HistoryEvent) (previous : List HistoryEvent) :
    Except String Unit := do
  require (∀ item ∈ sameAttempt event previous, ¬ SettlesAttempt item)
    "duplicate or previously indeterminate actual execution"
  require (event.claimId = none ∧ event.slotId = none ∧ event.observation = none ∧
      event.indeterminateOwner = none)
    "execution event has observation/recovery fields"
  match event.execution with
  | some reference => do
    let artifact ← readExecution D s reference none
    require (artifact.executionKey = event.executionKey ∧ artifact.attemptId = event.attemptId ∧
        artifact.result = event.result ∧ artifact.descriptor.members = event.members)
      "history execution/member/result mismatch"
  | none => require (event.result ≠ .pass) "unbacked execution PASS"

def selectionBindings (event : HistoryEvent) (previous : List HistoryEvent) :
    Except String Unit := do
  require (event.claimId.isNone = event.slotId.isNone) "partial history member selection"
  require (event.claimId.isSome → ∃ m ∈ event.members, Selects event.toEventInput m)
    "history selects absent original member"
  require (event.kind = .observation ∨ event.claimId.isSome →
      ∃ actual ∈ actualExecution event previous,
        actual.result = .pass ∧ actual.members = event.members)
    "observation precedes actual matching execution"

/-- The pending result of a recovered owner that an event accounts for. -/
def Covers (event : EventInput) (pending : PendingResult) : Prop :=
  pending.executionKey = event.executionKey ∧ pending.attemptId = event.attemptId ∧
    pending.claimId = event.claimId ∧ pending.slotId = event.slotId ∧
    pending.members = event.members

instance (event : EventInput) (pending : PendingResult) : Decidable (Covers event pending) :=
  inferInstanceAs (Decidable (_ ∧ _))

def recoveredPending (owner : OwnerRecord) (event : HistoryEvent) : Except String Unit :=
  match owner.pendingResults.find? (fun item => Covers event.toEventInput item) with
  | none => throw "v4 store: indeterminate event lacks original pending membership"
  | some pending =>
    require (pending.kind = .execution ↔ event.claimId = none ∧ event.slotId = none)
      "indeterminate event lacks original pending membership"

def indeterminateBindings (s : Store) (event : HistoryEvent) (previous : List HistoryEvent) :
    Except String Unit :=
  match event.indeterminateOwner with
  | none => throw "v4 store: invalid indeterminate event"
  | some reference => do
    require (event.result = .error ∧ event.execution = none ∧ event.observation = none)
      "invalid indeterminate event"
    let bytes ← readFileRef D s reference
    let owner ← asOwner bytes
    validateOwnerRecord owner
    require (reference.path = .recoveredOwner owner.ownerId) "recovered owner path mismatch"
    recoveredPending owner event
    require (∀ item ∈ sameAttempt event previous, ¬ (item.kind = .indeterminate ∧
        item.claimId = event.claimId ∧ item.slotId = event.slotId ∧
        item.indeterminateOwner = some reference))
      "duplicate indeterminate pending result"

def validateEventBindings (s : Store) (event : HistoryEvent) (previous : List HistoryEvent) :
    Except String Unit :=
  match event.kind with
  | .execution => executionBindings D s event previous
  | .observation => do
    selectionBindings event previous
    require (event.claimId.isSome ∧ event.indeterminateOwner = none ∧
        ∀ actual ∈ actualExecution event previous, actual.execution = event.execution)
      "observation execution/member mismatch"
    observationResult D s event
  | .indeterminate => do
    selectionBindings event previous
    indeterminateBindings D s event previous

def historyNames (s : Store) : List ℕ :=
  (s.files.filterMap (fun f => match f.path with | .history n => some n | _ => none)).insertionSort
    (· ≤ ·)

def emptyHistory : HistorySnapshot := ⟨⟨none,[]⟩,[]⟩

/-- One round of the scan. -/
def scanEvent (s : Store) (snapshot : HistorySnapshot) (name : ℕ) :
    Except String HistorySnapshot := do
  let sequence := snapshot.events.length+1
  require (name = sequence) "history is not a contiguous canonical sequence"
  let bytes ← readBytes s (.history sequence)
  let event ← asEvent bytes
  validateHistoryEvent D event
  require (event.sequence = sequence ∧ event.previous = snapshot.view.head ∧
      D.historyEvent event.toUnsignedEvent = event.eventId)
    "history hash chain mismatch"
  validateEventBindings D s event snapshot.events
  let reference : HistoryRef := ⟨sequence,event.eventId,.history sequence,D.bytes bytes⟩
  pure ⟨⟨some reference,snapshot.view.events ++ [reference]⟩,snapshot.events ++ [event]⟩

def RetainedPrefix (captured : HistoryView) (view : HistoryView) : Prop :=
  captured.events = view.events.take captured.events.length ∧
    captured.head = captured.events.getLast?

instance (captured view : HistoryView) : Decidable (RetainedPrefix captured view) :=
  inferInstanceAs (Decidable (_ ∧ _))

/-- The event that the attempt is accounted by: the last one that settles it. -/
def accountedEvent (events : List HistoryEvent) (key : Hash) (attempt : UUID) :
    Option HistoryEvent :=
  latest (fun e => decide (SettlesAttempt e ∧ e.executionKey = key ∧ e.attemptId = attempt)) events

def executionAttempts (s : Store) : List (Hash × UUID) :=
  (s.files.filterMap
    (fun f => match f.path with | .execution key attempt _ => some (key,attempt) | _ => none)).dedup

def accountAttempt (s : Store) (events : List HistoryEvent) (identity : Hash × UUID) :
    Except String Unit := do
  let path := executionPath identity.1 identity.2
  let bytes ← readBytes s path
  let artifact ← asExecution bytes
  validateExecutionArtifact D artifact
  let artifact ← readExecution D s ⟨identity.1,artifact.artifactId,path,D.bytes bytes⟩ none
  match accountedEvent events identity.1 identity.2 with
  | none => throw "v4 store: committed execution has no retained history accounting"
  | some event =>
    require (event.members = artifact.descriptor.members ∧
        (event.kind = .execution → event.result = artifact.result))
      "committed execution contradicts retained membership/outcome"

def validateAttemptAccounting (s : Store) (events : List HistoryEvent) : Except String Unit :=
  forM (executionAttempts s) (accountAttempt D s events)

def observationRuns (s : Store) : List UUID :=
  (s.files.filterMap
    (fun f => match f.path with | .observation run _ _ _ => some run | _ => none)).dedup

def underRun (run : UUID) : Path → Bool
  | .observation r _ _ _ => r == run
  | _ => false

def isCheck : Path → Bool
  | .observation _ _ _ "check.json" => true
  | _ => false

/-- An observation event records this receipt for this slot. -/
def Backs (event : HistoryEvent) (reference : FileRef) (claim : ID) (slot : RequestSlot) : Prop :=
  event.kind = .observation ∧ event.observation.map FileRef.path = some reference.path ∧
    event.observation.map FileRef.hash = some reference.hash ∧ event.claimId = some claim ∧
    event.slotId = some slot.slotId ∧ event.execution = some slot.execution

instance (event : HistoryEvent) (reference : FileRef) (claim : ID) (slot : RequestSlot) :
    Decidable (Backs event reference claim slot) :=
  inferInstanceAs (Decidable (_ ∧ _))

/-- Whether one of the events was recorded for the slot by the recovery of an owner of the run. -/
def recoveredBy (s : Store) (run : UUID) (claim slot : ID) (artifact : ExecutionArtifact) :
    List HistoryEvent → Except String Bool
  | [] => pure false
  | event :: rest =>
    match event.indeterminateOwner with
    | none => recoveredBy s run claim slot artifact rest
    | some reference =>
      if event.kind = .indeterminate ∧ event.executionKey = artifact.executionKey ∧
          event.attemptId = artifact.attemptId ∧ event.claimId = some claim ∧
          event.slotId = some slot then do
        let bytes ← readFileRef D s reference
        let owner ← asOwner bytes
        validateOwnerRecord owner
        if owner.runId = run then pure true else recoveredBy s run claim slot artifact rest
      else recoveredBy s run claim slot artifact rest

def accountSlot (s : Store) (events : List HistoryEvent) (run : UUID) (reference : FileRef)
    (request : ObservationRequest) (slot : RequestSlot) : Except String Unit :=
  if ∃ event ∈ events, Backs event reference request.claimId slot then pure ()
  else do
    let artifact ← readExecution D s slot.execution none
    let recovered ← recoveredBy D s run request.claimId slot.slotId artifact events
    require recovered "committed observation has no retained history accounting"

def accountCheck (s : Store) (events : List HistoryEvent) (run : UUID) (path : Path) :
    Except String Unit := do
  let bytes ← readBytes s path
  let check ← asCheck bytes
  validateObservationCheck D check
  let requestBytes ← readFileRef D s check.request
  let request ← asRequest requestBytes
  validateObservationRequest request
  forM request.slots (accountSlot D s events run ⟨path,D.bytes bytes,D.size bytes⟩ request)

def accountRun (s : Store) (events : List HistoryEvent) (run : UUID) : Except String Unit := do
  let paths ← walk s (underRun run)
  forM (paths.filter isCheck) (accountCheck D s events run)

def validateObservationAccounting (s : Store) (events : List HistoryEvent) : Except String Unit :=
  forM (observationRuns s) (accountRun D s events)

def loadHistory (s : Store) (captured : Option HistoryView) (allowUnaccounted : Bool) :
    Except String HistorySnapshot := do
  let snapshot ← (historyNames s).foldlM (scanEvent D s) emptyHistory
  forM captured.toList (fun view => do
    validateHistoryView view
    require (RetainedPrefix view snapshot.view) "captured history is not a retained prefix")
  if allowUnaccounted then pure snapshot
  else do
    validateAttemptAccounting D s snapshot.events
    validateObservationAccounting D s snapshot.events
    pure snapshot

def readHistory (s : Store) (captured : Option HistoryView) : Except String HistorySnapshot :=
  loadHistory D s captured false

end RetainedHistory

end EvidenceV4
