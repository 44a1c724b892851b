import EvidenceV4.PackagePolicy
import EvidenceV4.Raising
import EvidenceV4.RunAssessment

/-!
# The portable assessment of a run

The checker derives the claims that a run must cover, gives each of them a row,
judges every slot of every recorded claim against the retained history, reads
the history once more and folds the rows into one verdict. The report is
changed in place, so a failure keeps what was reported before it.
-/

set_option autoImplicit false

namespace EvidenceV4

structure SuppliedRun extends RunManifest where
  trustAssumptions : List String
  deriving DecidableEq

structure PortablePolicy extends Policy where
  manifestPath : String
  verifiedInputs : String
  trustAssumptions : List String
  deriving DecidableEq

/-- A policy document that the checker's own rules accept. -/
structure CheckedPolicy where
  policy : PortablePolicy
  records_distinct : (policy.records.map PolicyRecord.claimId).Nodup

structure PolicyBindings where
  checked : CheckedPolicy
  common : CommonBindings
  manifest : ManifestBindings

abbrev Replay (request : ObservationRequest) :=
  {response : ObservationResponse //
    response.slots.map ResponseSlot.slotId = request.slots.map RequestSlot.slotId}

/-- One call of the claim checker: the directory for it, what comes before it is started, what
comes of it when it is waited for, and the removal of the directory. -/
structure CheckerCalls where
  directory : ObservationRequest → Except Reported Unit
  start : PolicyBindings → ObservationRequest → InputState → Except Reported Unit
  answer : PolicyBindings → (request : ObservationRequest) → Option ObservationResponse →
    InputState → Except Reported (Replay request)
  cleanup : ObservationRequest → Except Reported Unit

/-- What the checker is given, and what its readings of files and its calls of git and of the claim
checker return. -/
structure Portable extends Receipts where
  recompute : Bool
  recheckObservations : Bool
  require : Option (List ID)
  run : Except Reported SuppliedRun
  policy : String → Except Reported CheckedPolicy
  manifest : CheckedPolicy → Except Reported CanonicalJson.Value
  common : CheckedPolicy → Except Reported CommonBindings
  inputState : InputState → Except Reported Unit
  stream : FileRef → Except Reported Unit
  claim : FileRef → Except Reported ClaimRecord
  currentInputs : Except Reported InputState
  finalInputs : Except Reported InputState
  definition : PolicyBindings → ExecutionArtifact → Option InputState → Except Reported Unit
  packaged : ToolIdentity → PackagedTool
  cargo : CargoSources
  checkerTools : PolicyBindings → Observed → ExecutionArtifact → Except Reported Unit
  checker : CheckerCalls
  history : HistoryDirectory
  latestHistory : HistoryDirectory
  /-- The reader keeps what it read at a path, and refuses another receipt there. -/
  observation_fixed : ∀ a b x y, observation a = .ok x → observation b = .ok y →
    a.path = b.path → x = y

structure SlotRow where
  slot : PolicySlot
  evidenceClass : EvidenceClass
  expectedClass : EvidenceClass
  state : SlotState
  execution : Option ExecutionRef
  cache : CacheState
  observation : Option SlotObservation
  observations : Option String
  blockingEvents : List HistoryRef
  defects : List String
  deriving DecidableEq

/-- An observation receipt, and what it says about one slot. -/
structure OwnObservation where
  observed : Observed
  result : Result
  answer : Option ResponseSlot

structure HistoryAssociation where
  tool : ToolID
  state : SlotState
  blockingEvents : List HistoryRef
  failureCutoff : ℕ
  deriving DecidableEq

structure Row where
  claimId : ID
  status : String
  result : ClaimResult
  evidenceClass : Option EvidenceClass
  scope : Option String
  defects : List String
  executions : List SlotRow
  dependsOn : List ID
  historyAssociations : List HistoryAssociation
  blockingEvents : List HistoryRef
  dependencyGaps : List ID
  deriving DecidableEq

structure Report where
  dependencyExpansion : List (ID × List ID)
  requiredClaims : List ID
  expectedSnapshot : Option Hash
  history : Option HistoryView
  perClaim : List Row
  failed : List String
  incomplete : List String
  errors : List String
  verdict : String
  deriving DecidableEq

/-- What the slots of all rows write: errors, and the replayed observations by receipt. -/
structure Ledger where
  errors : List String
  replayed : List (Path × ObservationResponse)
  deriving DecidableEq

structure AssessmentState where
  report : Report
  replayed : List (Path × ObservationResponse)
  deriving DecidableEq

/-- A run with the policy it names and the claims it has to cover. -/
structure Prepared where
  run : SuppliedRun
  bindings : PolicyBindings
  required : List ID

structure Judged extends Prepared where
  current : Option InputState
  latest : LoadedHistory

namespace PortableAssessment

open CheckedExcept PolicyExpansion PortableEligibility PortableHistory
open ObligationManifest (loadManifest)
open PackagePolicy (packagePolicy)
open PolicyDocument (mapGet)
open Schema (utf8Compare Ascending)
open Raising (lift modify catching within entries)

variable (D : Digests) (repr : CanonicalJson.Value → String) (portable : Portable)

abbrev Step := Raising Failure AssessmentState

abbrev SlotStep := Raising Failure (SlotRow × Ledger)

abbrev RowStep := Raising Failure (Row × Ledger)

def keyError (key : String) : Failure := ⟨.keyError,key⟩

/-- A lookup in a dictionary whose key must be present. -/
def getItem {α : Type} (dictionary : List (String × α)) (key : String) : Except Failure α :=
  match mapGet dictionary key with
  | none => throw (keyError key)
  | some value => pure value

/-- A validation of another module that fails with a message. -/
def validated {α : Type} : Except String α → Except Failure α
  | .ok a => .ok a
  | .error message => .error (v4Error message)

def sortIds (ids : List ID) : List ID := ids.insertionSort (fun a b => utf8Compare a b != .gt)

def recordMap (policy : Policy) : List (ID × PolicyRecord) :=
  policy.records.map (fun record => (record.claimId,record))

section Policy

def compatible : ObligationKind → EvidenceClass → Bool
  | .invariant, .testWitnessed => false
  | .invariant, _ => true
  | .witness, .testWitnessed => true
  | .witness, .conformanceTested => true
  | .witness, _ => false
  | .systemClaim, _ => true

/-- A flag equals a manifest value, where the numbers one and zero equal the flags. -/
def sameFlag (flag : Bool) : CanonicalJson.Value → Bool
  | .bool value => value == flag
  | .number value => value == (if flag then 1 else 0)
  | _ => false

/-- The declared `required` of every obligation. -/
def rawRequired : CanonicalJson.Value → List (ID × CanonicalJson.Value)
  | .object manifest =>
    ObligationManifest.collections.flatMap (fun collection =>
      match (mapGet manifest collection.1).getD (.array []) with
      | .array raw => raw.filterMap (fun
        | .object item => match mapGet item "id" with
          | some (.string name) => some (name,(mapGet item "required").getD (.bool true))
          | _ => none
        | _ => none)
      | _ => [])
  | _ => []

def checkRecord (policy : Policy) (raw : List (ID × CanonicalJson.Value))
    (manifest : ManifestBindings) (record : PolicyRecord) : Except Failure Unit := do
  check ((mapGet manifest.kinds record.claimId).isSome)
    (v4Error "policy claim absent from canonical manifest")
  let kind ← getItem manifest.kinds record.claimId
  let required ← getItem raw record.claimId
  check (sameFlag record.required required) (v4Error "policy required status differs from manifest")
  check (compatible kind record.evidenceClass)
    (v4Error "policy record class incompatible with obligation kind")
  forM record.executions (fun slot => do
    let recipe ← getItem (recipeMap policy) slot.recipeId
    check (compatible kind recipe.evidenceClass)
      (v4Error "recipe class incompatible with member obligation kind"))
  check (∀ tools ∈ mapGet manifest.evidence record.claimId, ∀ tool ∈ tools,
      tool ∈ record.executions.map PolicySlot.tool)
    (v4Error "policy required evidence coverage differs from canonical manifest")
  check (∀ name ∈ (mapGet manifest.dependencies record.claimId).getD [],
      name ∈ policy.records.map PolicyRecord.claimId)
    (v4Error "policy omits canonical dependency")

def policyBindings (path : String) : Except Failure PolicyBindings := do
  let checked ← safely (portable.policy path)
  let value ← safely (portable.manifest checked)
  let manifest ← loadManifest repr value
  forM checked.policy.records (checkRecord checked.policy.toPolicy (rawRequired value) manifest)
  let common ← safely (portable.common checked)
  pure ⟨checked,{ common with requiredTargets := sortIds manifest.required },manifest⟩

end Policy

section Required

def dependenciesOf (bindings : PolicyBindings) (claim : ID) : List ID :=
  (mapGet bindings.manifest.dependencies claim).getD []

def checkSelection (bindings : PolicyBindings) : Except Failure Unit :=
  match portable.require with
  | none => pure ()
  | some selected => check (selected ≠ [] ∧ selected.Nodup ∧
      ∀ name ∈ selected, name ∈ bindings.manifest.kinds.map Prod.fst)
      (v4Error "invalid required canonical claim selection")

def requiredRecords (policy : Policy) : List ID :=
  (policy.records.filter PolicyRecord.required).map PolicyRecord.claimId

def startingClaims (bindings : PolicyBindings) : List ID :=
  (portable.require.getD bindings.common.requiredTargets ++
    requiredRecords bindings.checked.policy.toPolicy).eraseDups

/-- Add what one claim rests on, where it is not yet required. -/
def expandClaim (bindings : PolicyBindings) (state : List (ID × List ID) × List ID) (claim : ID) :
    List (ID × List ID) × List ID :=
  let added := (dependenciesOf bindings claim).filter (fun name => name ∉ state.2)
  if added = [] then state else (state.1 ++ [(claim,added)],state.2 ++ added)

def expandRequired (bindings : PolicyBindings) : List (ID × List ID) × List ID :=
  let start := startingClaims portable bindings
  start.foldl (expandClaim bindings) ([],start)

end Required

section Rows

def initialSlot (policy : Policy) (slot : PolicySlot) : Except Failure SlotRow := do
  let recipe ← getItem (recipeMap policy) slot.recipeId
  pure
    { slot := slot, evidenceClass := recipe.evidenceClass, expectedClass := recipe.evidenceClass
      state := .missing, execution := none, cache := .notChecked, observation := none
      observations := none, blockingEvents := [], defects := [] }

def initialRow (bindings : PolicyBindings) (claim : ID) : Except Failure Row := do
  let record := mapGet (recordMap bindings.checked.policy.toPolicy) claim
  let slots ← ((record.map PolicyRecord.executions).getD []).mapM
    (initialSlot bindings.checked.policy.toPolicy)
  pure
    { claimId := claim, status := "missing-record", result := .incomplete
      evidenceClass := record.map PolicyRecord.evidenceClass, scope := record.map PolicyRecord.scope
      defects := [], executions := slots, dependsOn := dependenciesOf bindings claim
      historyAssociations := [], blockingEvents := [], dependencyGaps := [] }

def rowNames (bindings : PolicyBindings) (required : List ID) : List ID :=
  let records := bindings.checked.policy.records.map PolicyRecord.claimId
  records ++ (sortIds required).filter (fun name => name ∉ records)

end Rows

section Run

def unrun : Termination := ⟨none,none,false,false⟩

def checkBindings (run : SuppliedRun) (bindings : PolicyBindings) : Except Failure Unit := do
  let policy := bindings.checked.policy
  let records := policy.records.map PolicyRecord.claimId
  check (run.common = bindings.common ∧ run.policyHash = bindings.common.policyHash ∧
      run.trustAssumptions = policy.trustAssumptions)
    (v4Error "run common/policy/trust binding mismatch")
  check (run.startedAt ≤ run.finishedAt ∧ run.jobs ≤ policy.maxJobs)
    (v4Error "invalid run interval or scheduling bound")
  check (Ascending run.selectedRecords) (v4Error "set array is not unique UTF-8 sorted")
  check (Ascending run.requiredRecords) (v4Error "set array is not unique UTF-8 sorted")
  check ((∀ name ∈ run.selectedRecords, name ∈ records) ∧
      run.requiredRecords = sortIds (requiredRecords policy.toPolicy))
    (v4Error "run selection/required records differs from policy")
  check (run.claims.map RunClaim.claimId = records)
    (v4Error "run claim references omit/add/reorder policy records")
  check (run.work.map (fun entry => (entry.recipeId,entry.distinctSlot)) =
      physicalExpansion policy.toPolicy)
    (v4Error "run physical work expansion differs from policy")

def checkWork (entry : RunWork) : Except Failure Unit := do
  match entry.execution with
  | some execution => do
    check (entry.executionKey = some execution.executionKey)
      (v4Error "work execution key/ref mismatch")
    let artifact ← safely (portable.execution execution)
    check (artifact.descriptor.recipe.recipeId = entry.recipeId ∧
        artifact.descriptor.distinctSlot = entry.distinctSlot)
      (v4Error "work references foreign physical slot")
    check (entry.state = RunAssessment.slotState artifact.result)
      (v4Error "work state differs from physical result")
  | none =>
    check (entry.state ≠ .pass ∧ entry.state ≠ .fail)
      (v4Error "work PASS/FAIL has no actual execution")
  check (entry.cache = .hit → entry.execution.isSome)
    (v4Error "cache hit has no physical receipt")

def checkPreflight (entry : PreflightCheck) : Except Failure Unit := do
  forM entry.stdout.toList (fun stream => safely (portable.stream stream))
  forM entry.stderr.toList (fun stream => safely (portable.stream stream))
  check (entry.result = .pass → entry.termination.Normal ∧ entry.stdout.isSome ∧
      entry.stderr.isSome)
    (v4Error "preflight PASS without actual successful streams/termination")
  check (entry.result = .missing → entry.stdout = none ∧ entry.stderr = none ∧
      entry.termination = unrun)
    (v4Error "unrun preflight has fabricated outputs/termination")

def checkScans (run : SuppliedRun) (bindings : PolicyBindings) : Except Failure Unit := do
  forM run.sourceBefore.toList (fun state => safely (portable.inputState state))
  forM run.sourceAfter.toList (fun state => safely (portable.inputState state))
  check (run.result = .pass → (∃ before ∈ run.sourceBefore, before.clean = true) ∧
      run.sourceAfter = run.sourceBefore ∧ run.preflight.result = .pass)
    (v4Error "PASS run lacks stable clean final scans/preflight")
  check (run.preflight.checks.map PreflightCheck.id =
      bindings.checked.policy.preflight.map Check.id)
    (v4Error "preflight check expansion differs from policy")
  forM run.preflight.checks (checkPreflight portable)
  check (run.preflight.result = .pass → ∀ entry ∈ run.preflight.checks, entry.result = .pass)
    (v4Error "preflight aggregate contradicts missing/failed checks")

end Run

section Slots

/-- The descriptor of an execution still follows from the policy and from the current sources. -/
def currentDescriptor (bindings : PolicyBindings) (artifact : ExecutionArtifact)
    (current : Option InputState) : Except Failure Unit := do
  safely (portable.definition bindings artifact current)
  forM current.toList (fun state =>
    packagePolicy D portable.cargo (artifact.descriptor.toolchain.map portable.packaged) state.files)

/-- The longest wait that the system's poll takes, in milliseconds. -/
def longestPoll : ℕ := 2147483647

/-- Ask the claim checker again. A cleanup that fails stands for whatever was raised before it. -/
def recheck (bindings : PolicyBindings) (request : ObservationRequest)
    (original : Option ObservationResponse) (baseline : InputState) :
    Except Failure (Replay request) := do
  safely (portable.checker.directory request)
  let answer : Except Failure (Replay request) := do
    safely (portable.checker.start bindings request baseline)
    forM bindings.checked.policy.claimChecker.timeoutSeconds.toList (fun seconds =>
      check (seconds * 1000 ≤ longestPoll) ⟨.overflowError,"timeout is too large"⟩)
    safely (portable.checker.answer bindings request original baseline)
  safely (portable.checker.cleanup request)
  answer

/-- What the barriers that remain make of a slot. -/
def barrierState (remaining : List HistoryEvent) : Option SlotState :=
  if remaining.any (fun event => event.result = .fail) then some .fail
  else remaining.getLast?.map (fun last =>
    if last.result = .cancelled then .cancelled else .error)

def physicalFailure (remaining : List HistoryEvent) : Bool :=
  remaining.any (fun event => event.result = .fail)

def setState (state : SlotState) : SlotStep Unit :=
  modify (fun s => ({ s.1 with state := state },s.2))

/-- The part of one slot's assessment that may raise, for a slot that was recorded. -/
structure SlotContext where
  judged : SuppliedRun
  bindings : PolicyBindings
  current : Option InputState
  loaded : LoadedHistory
  claim : ID
  saved : ClaimSlot
  eligibility : Eligibility

def capturedBlockers (context : SlotContext) (tool : ToolID) : List HistoryRef :=
  (context.loaded.events.filter (fun event =>
    event.sequence ≤ context.judged.history.events.length ∧
      isBarrier event context.claim tool)).filterMap
    (fun event => context.loaded.view.events[event.sequence-1]?)

def workOf (run : SuppliedRun) (recipe : Recipe) (claim slotId : ID) : Except Failure RunWork :=
  let distinct := if recipe.determinism = .fixed then none else some ⟨claim,slotId⟩
  match (run.work.reverse.find? (fun entry =>
      entry.recipeId = recipe.recipeId ∧ entry.distinctSlot = distinct)) with
  | none => throw (keyError recipe.recipeId)
  | some work => pure work

def checkRequested (context : SlotContext) (observed : Observed) (observation : SlotObservation)
    (execution : ExecutionRef) : Except Failure Unit := do
  check (observation.response = observed.check.response)
    (v4Error "claim response reference differs from checker receipt")
  check (observed.request.claimId = context.claim ∧
      ∃ requested ∈ observed.request.slots.find?
        (fun (slot : RequestSlot) => slot.slotId = context.saved.slotId),
        requested.execution = execution ∧
          requested.observationBinding = context.saved.observationBinding)
    (v4Error "claim member observation request mismatch")

/-- The recorded slot is the one of the policy, and a physical slot of the run stands behind it. -/
def checkSaved (context : SlotContext) (row : SlotRow) : Except Failure RunWork := do
  let saved := context.saved
  check (saved.slotId = row.slot.slotId ∧ saved.tool = row.slot.tool ∧
      saved.recipeId = row.slot.recipeId ∧ saved.observationBinding = row.slot.observationBinding ∧
      saved.evidenceClass = row.expectedClass)
    (v4Error "claim slot tool/recipe/observation/class differs from policy")
  check (saved.blockingEvents = capturedBlockers context row.slot.tool)
    (v4Error "claim captured historical barrier references are incomplete or foreign")
  let recipe ← getItem (recipeMap context.bindings.checked.policy.toPolicy) saved.recipeId
  workOf context.judged recipe context.claim saved.slotId

/-- The execution that the slot cites, which still stands on the current sources. -/
def citedArtifact (context : SlotContext) (execution : ExecutionRef) :
    Except Failure ExecutionArtifact := do
  let artifact ← safely (portable.execution execution)
  currentDescriptor D portable context.bindings artifact context.current
  check (⟨context.claim,context.saved.slotId,context.saved.tool⟩ ∈ artifact.descriptor.members)
    (v4Error "claim cites another execution member")
  pure artifact

/-- The slot's own observation of a passing execution, and what it says about the slot. -/
def ownObservation (context : SlotContext) (artifact : ExecutionArtifact)
    (execution : ExecutionRef) (observation : SlotObservation) :
    Except Failure OwnObservation := do
  let observed ← safely (portable.observation observation.check)
  checkRequested context observed observation execution
  safely (portable.checkerTools context.bindings observed artifact)
  let outcome ← observationOutcome observed context.saved.slotId (some artifact)
  check (outcome.1 = observation.result) (v4Error "claim observation result mismatch")
  pure ⟨observed,outcome.1,outcome.2⟩

def checkEligible (context : SlotContext) (observation : SlotObservation)
    (answer : Option ResponseSlot) : Except Failure Unit := do
  check (∃ event ∈ context.eligibility.observed, event.observation = some observation.check)
    (v4Error "claim observation lacks subsequent matching PASS history")
  check (answer.isSome) ⟨.typeError,"'NoneType' object is not subscriptable"⟩
  check (∀ slot ∈ answer, slot.result = .pass)
    (v4Error "eligible slot retains nonpassing observation")
  check (portable.recompute = true → context.current.isSome)
    (v4Error "current source scan unavailable for coverage")

/-- The independent answer to the request of one receipt, asked once. -/
def replay (context : SlotContext) (observed : Observed) (path : Path) (current : InputState) :
    SlotStep ObservationResponse := do
  let known ← Raising.asking (fun s => .ok (s.2.replayed.find? (fun entry => entry.1 = path)))
  match known with
  | some entry => pure entry.2
  | none => do
    let response ← lift (recheck portable context.bindings observed.request observed.response
      current)
    modify (fun s => (s.1,{ s.2 with replayed := s.2.replayed ++ [(path,response.val)] }))
    pure response.val

def recheckSlot (context : SlotContext) (observed : Observed) (observation : SlotObservation)
    (current : InputState) : SlotStep Unit := do
  let response ← replay portable context observed observation.check.path current
  match response.slots.find? (fun slot => slot.slotId = context.saved.slotId) with
  | none => lift (throw ⟨.stopIteration,""⟩)
  | some checked => do
    modify (fun s => ({ s.1 with observations := some checked.observations },s.2))
    if checked.result = .pass then setState .pass
    else modify (fun s => ({ s.1 with
      state := if checked.result = .fail then .fail else .error
      defects := s.1.defects ++
        [checked.reason.getD "independent member observation did not pass"] },s.2))

/-- A slot whose execution passed and whose own observation was assessed. -/
def assessEligible (context : SlotContext) (observed : Observed) (observation : SlotObservation) :
    SlotStep Unit :=
  match context.current with
  | some current =>
    if portable.recompute ∧ portable.recheckObservations then
      recheckSlot portable context observed observation current
    else setState .pass
  | none => setState .pass

def assessObserved (context : SlotContext) (artifact : ExecutionArtifact)
    (execution : ExecutionRef) (observation : SlotObservation) : SlotStep Unit := do
  let own ← lift (ownObservation portable context artifact execution observation)
  modify (fun s => ({ s.1 with observations := own.answer.map ResponseSlot.observations },s.2))
  let physical := physicalFailure context.eligibility.remaining
  if own.result = .error ∨ own.result = .cancelled then do
    lift (check (context.saved.state = RunAssessment.slotState own.result ∨ physical)
      (v4Error "claim hides operational observation outcome"))
    if physical then pure () else setState (RunAssessment.slotState own.result)
  else if context.eligibility.eligible then do
    lift (checkEligible portable context observation own.answer)
    assessEligible portable context own.observed observation
  else if physical then pure ()
  else setState ((barrierState context.eligibility.remaining).getD .missing)

def assessExecuted (context : SlotContext) (execution : ExecutionRef) : SlotStep Unit := do
  let artifact ← lift (citedArtifact D portable context execution)
  if artifact.result ≠ .pass then
    lift (check (context.saved.state = RunAssessment.slotState artifact.result ∨
        physicalFailure context.eligibility.remaining)
      (v4Error "slot result contradicts physical attempt"))
  else match context.saved.observation with
    | none => lift (throw (v4Error "physical PASS lacks own member observation"))
    | some observation => assessObserved portable context artifact execution observation

def assessSaved (context : SlotContext) : SlotStep Unit := do
  let row ← Raising.asking (fun s => .ok s.1)
  let work ← lift (checkSaved context row)
  modify (fun s => ({ s.1 with cache := work.cache },s.2))
  match context.saved.execution with
  | none => lift (check (¬ (context.saved.state = .pass ∨ context.saved.state = .fail) ∨
        physicalFailure context.eligibility.remaining)
      (v4Error "slot PASS/FAIL has no actual receipt/barrier"))
  | some execution => assessExecuted D portable context execution

/-- What a row of a slot takes over from the record and from the barriers. -/
def adopt (saved : Option ClaimSlot) (eligibility : Eligibility) (row : SlotRow) : SlotRow :=
  let row := { row with blockingEvents := eligibility.blocking }
  let row := match saved with
    | none => row
    | some saved => { row with
        state := saved.state, execution := saved.execution
        observation := saved.observation, evidenceClass := saved.evidenceClass }
  { row with state := (barrierState eligibility.remaining).getD row.state }

/-- A failure inside a slot is reported, and it never hides a physical failure. -/
def rejectSlot (claim : ID) (physical : Bool) (failure : Failure) : SlotStep Unit :=
  modify (fun s => ({ s.1 with
      defects := s.1.defects ++ [failure.message]
      state := if physical then s.1.state else .error },
    { s.2 with errors := s.2.errors ++
        [claim ++ "/" ++ s.1.slot.tool ++ ": " ++ failure.message] }))

def assessSlot (run : SuppliedRun) (bindings : PolicyBindings) (current : Option InputState)
    (loaded : LoadedHistory) (claim : ID) (record : Option ClaimRecord) : SlotStep Unit := do
  let row ← Raising.asking (fun s => .ok s.1)
  let saved := record.bind (fun record =>
    record.executions.find? (fun slot => slot.slotId = row.slot.slotId))
  let eligibility ← lift (validated (eligibility loaded.events loaded.view.events
    (saved.bind ClaimSlot.execution) claim row.slot.tool))
  modify (fun s => (adopt saved eligibility s.1,s.2))
  catching Failure.reported
    (match saved with
      | none => lift (throw (v4Error "missing or malformed canonical slot"))
      | some saved => assessSaved D portable ⟨run,bindings,current,loaded,claim,saved,eligibility⟩)
    (rejectSlot claim (physicalFailure eligibility.remaining))

end Slots

section Claims

def statesOf (row : Row) : List SlotState := row.executions.map SlotRow.state

/-- The result of a row from the states of its slots. -/
def rowResult (states : List SlotState) (sound : Bool) : ClaimResult :=
  if .fail ∈ states then .fail
  else if states ≠ [] ∧ (∀ state ∈ states, state = .pass) ∧ sound then .pass
  else .incomplete

def resultText : ClaimResult → String
  | .pass => "PASS"
  | .fail => "FAIL"
  | .incomplete => "INCOMPLETE"

def readClaim (run : SuppliedRun) (bindings : PolicyBindings) (expected : PolicyRecord) :
    Except Failure ClaimRecord := do
  let ref ← getItem (run.claims.map (fun entry => (entry.claimId,entry.record))) expected.claimId
  check (ref.path = .claim run.runId expected.claimId)
    (v4Error "claim record immutable owner path mismatch")
  let record ← safely (portable.claim ref)
  check (record.recordId = D.claimRecord record.toUnsignedClaim)
    (v4Error "record_id canonical identity mismatch")
  check (record.runId = run.runId ∧ record.claimId = expected.claimId ∧
      record.required = expected.required ∧ record.evidenceClass = expected.evidenceClass ∧
      record.scope = expected.scope ∧ record.common = bindings.common)
    (v4Error "claim identity/class/scope/common differs from policy")
  check (record.executions.map ClaimSlot.slotId = expected.executions.map PolicySlot.slotId)
    (v4Error "claim slots missing/extra/reordered")
  pure record

/-- The record of a row, when it can be read; what is wrong with it is reported. -/
def loadClaim (run : SuppliedRun) (bindings : PolicyBindings) (expected : PolicyRecord) :
    RowStep (Option ClaimRecord) :=
  match readClaim D portable run bindings expected with
  | .ok record => do
    modify (fun s => ({ s.1 with evidenceClass := some record.evidenceClass },s.2))
    pure (some record)
  | .error failure =>
    if failure.skipped then do
      modify (fun s => ({ s.1 with defects := s.1.defects ++ [failure.message] },
        { s.2 with errors := s.2.errors ++ [expected.claimId ++ ": " ++ failure.message] }))
      pure none
    else lift (throw failure)

def capturedResult (record : ClaimRecord) : ClaimResult :=
  if ∃ slot ∈ record.executions, slot.state = .fail then .fail
  else if ∀ slot ∈ record.executions, slot.state = .pass then .pass
  else .incomplete

def contradiction : String := "stored claim aggregate contradicts slot states"

def concludeRow (record : Option ClaimRecord) : RowStep Unit := do
  modify (fun s =>
    let result := rowResult (statesOf s.1) (s.1.defects = [])
    ({ s.1 with result := result, status := resultText result },s.2))
  match record with
  | none => pure ()
  | some record =>
    if record.result = capturedResult record ∨ record.result = .incomplete then pure ()
    else modify (fun s => ({ s.1 with defects := s.1.defects ++ [contradiction] },
      { s.2 with errors := s.2.errors ++ [s.1.claimId ++ ": " ++ contradiction] }))

/-- Run over the slots of a row. -/
def eachSlot (body : SlotStep Unit) : RowStep Unit :=
  within (fun s => (s.1.executions,s.2)) (fun s t => ({ s.1 with executions := t.1 },t.2))
    (entries body)

def assessRow (run : SuppliedRun) (bindings : PolicyBindings) (current : Option InputState)
    (loaded : LoadedHistory) : RowStep Unit := do
  let row ← Raising.asking (fun s => .ok s.1)
  match mapGet (recordMap bindings.checked.policy.toPolicy) row.claimId with
  | none => pure ()
  | some expected => do
    let record ← loadClaim D portable run bindings expected
    eachSlot (assessSlot D portable run bindings current loaded row.claimId record)
    concludeRow record

/-- Run over the rows of the report. -/
def eachRow (body : RowStep Unit) : Step Unit :=
  within (fun s => (s.report.perClaim,⟨s.report.errors,s.replayed⟩))
    (fun s t => ⟨{ s.report with perClaim := t.1, errors := t.2.errors },t.2.replayed⟩)
    (entries body)

end Claims

section History

def historyTools (bindings : PolicyBindings) (events : List HistoryEvent) (claim : ID) :
    List ToolID :=
  let declared := (mapGet bindings.manifest.evidence claim).getD []
  let tools := if declared ≠ [] then declared
    else (events.flatMap (fun event => event.members)).filterMap (fun member =>
      if member.claimId = claim then some member.tool else none)
  sortIds tools.eraseDups

def associationOf (loaded : LoadedHistory) (claim : ID) (tool : ToolID) : HistoryAssociation :=
  let applicable := loaded.events.filter (fun event => isBarrier event claim tool)
  { tool := tool
    state := if applicable.any (fun event => event.result = .fail) then .fail
      else if applicable ≠ [] then .error else .missing
    blockingEvents := applicable.filterMap (fun event => loaded.view.events[event.sequence-1]?)
    failureCutoff := greatestSequence applicable }

/-- What history says about a claim that the policy has no record for. -/
def outsideRow (bindings : PolicyBindings) (loaded : LoadedHistory) (row : Row) : Row :=
  let associations := (historyTools bindings loaded.events row.claimId).map
    (associationOf loaded row.claimId)
  let blockers := (associations.flatMap HistoryAssociation.blockingEvents).eraseDups
  let failed := associations.any (fun association => association.state = .fail)
  { row with
    historyAssociations := associations
    blockingEvents := blockers.insertionSort (fun a b => a.sequence ≤ b.sequence)
    result := if failed then .fail else .incomplete
    status := if failed then "FAIL" else "missing-record" }

def outsideRows (bindings : PolicyBindings) (loaded : LoadedHistory) (row : Row) : Row :=
  if (mapGet (recordMap bindings.checked.policy.toPolicy) row.claimId).isSome then row
  else outsideRow bindings loaded row

def reassessSlot (loaded : LoadedHistory) (claim : ID) : SlotStep Unit := do
  let row ← Raising.asking (fun s => .ok s.1)
  let eligibility ← lift (validated (eligibility loaded.events loaded.view.events row.execution
    claim row.slot.tool))
  modify (fun s => ({ s.1 with
    blockingEvents := eligibility.blocking
    state := match barrierState eligibility.remaining with
      | some state => state
      | none => if eligibility.eligible = false ∧ s.1.state = .pass then .missing else s.1.state },
    s.2))

def reassessRow (bindings : PolicyBindings) (loaded : LoadedHistory) : RowStep Unit := do
  let row ← Raising.asking (fun s => .ok s.1)
  if (mapGet (recordMap bindings.checked.policy.toPolicy) row.claimId).isSome then do
    eachSlot (reassessSlot loaded row.claimId)
    modify (fun s =>
      if .fail ∈ statesOf s.1 then ({ s.1 with result := .fail, status := "FAIL" },s.2)
      else if (∃ state ∈ statesOf s.1, state ≠ .pass) ∧ s.1.result = .pass then
        ({ s.1 with result := .incomplete, status := "INCOMPLETE" },s.2)
      else s)
  else modify (fun s => (outsideRow bindings loaded s.1,s.2))

end History

section Verdict

def addErrors (errors : List String) : Step Unit :=
  modify (fun s => { s with report := { s.report with errors := s.report.errors ++ errors } })

def reportDirty (current : InputState) : Step Unit :=
  if current.clean then pure () else addErrors ["current selected input set is dirty"]

/-- The current sources, when they are asked for and can be scanned. -/
def scanCurrent : Step (Option InputState) :=
  if portable.recompute then
    match portable.currentInputs with
    | .ok current => do
      modify (fun s => { s with
        report := { s.report with expectedSnapshot := some current.sourceSnapshot } })
      reportDirty current
      pure (some current)
    | .error failure =>
      if failure.val.kind ∈ [.v4Error,.osError,.unicodeError,.valueError] then do
        addErrors ["current source scan unavailable: " ++ failure.val.message]
        pure none
      else lift (throw failure.val)
  else pure none

/-- Judge the rows again when the history changed while they were judged. -/
def reassess (bindings : PolicyBindings) (loaded latest : LoadedHistory) : Step Unit :=
  if latest.view = loaded.view then pure ()
  else do
    modify (fun s => { s with report := { s.report with history := some latest.view } })
    eachRow (reassessRow bindings latest)

def openRow (bindings : PolicyBindings) (name : ID) : Step Unit := do
  let row ← lift (initialRow bindings name)
  modify (fun s => { s with report := { s.report with perClaim := s.report.perClaim ++ [row] } })

/-- Read the run and its policy, and open a row for each claim. -/
def prepare : Step Prepared := do
  let run ← lift (safely portable.run)
  let bindings ← lift (policyBindings repr portable run.policyPath)
  lift (checkSelection portable bindings)
  let expanded := expandRequired portable bindings
  modify (fun s => { s with report := { s.report with
    dependencyExpansion := expanded.1, requiredClaims := sortIds expanded.2 } })
  forM (rowNames bindings expanded.2) (openRow bindings)
  pure ⟨run,bindings,expanded.2⟩

def reportWork (entry : RunWork) : Step Unit :=
  catching Failure.skipped (lift (checkWork portable entry))
    (fun failure => addErrors [entry.recipeId ++ ": " ++ failure.message])

/-- Read the history, and say what it means for claims without a record. -/
def captureHistory (run : SuppliedRun) (bindings : PolicyBindings) : Step LoadedHistory := do
  let loaded ← lift (loadHistory D portable.toReceipts portable.history run.history)
  addErrors loaded.errors
  modify (fun s => { s with report := { s.report with
    history := some loaded.view
    perClaim := s.report.perClaim.map (outsideRows bindings loaded) } })
  pure loaded

def rereadHistory (run : SuppliedRun) (bindings : PolicyBindings) (loaded : LoadedHistory) :
    Step LoadedHistory := do
  let latest ← lift (loadHistory D portable.toReceipts portable.latestHistory run.history)
  addErrors latest.errors
  reassess bindings loaded latest
  pure latest

/-- Everything before the rows are folded into a verdict. -/
def judge : Step Judged := do
  let prepared ← prepare repr portable
  let run := prepared.run
  let bindings := prepared.bindings
  lift (checkBindings run bindings)
  forM run.work (reportWork portable)
  lift (checkScans portable run bindings)
  let loaded ← captureHistory D portable run bindings
  let current ← scanCurrent portable
  eachRow (assessRow D portable run bindings current loaded)
  let latest ← rereadHistory D portable run bindings loaded
  pure ⟨prepared,current,latest⟩

/-- Leave a row incomplete whose dependencies are not covered. -/
def closeGaps (bindings : PolicyBindings) : List Row → List Row → List Row
  | done, [] => done
  | done, row :: rest =>
    let results := (done ++ row :: rest).map (fun entry => (entry.claimId,entry.result))
    let gaps := (dependenciesOf bindings row.claimId).filter (fun name =>
      mapGet results name ≠ some .pass)
    closeGaps bindings (done ++ [if row.result = .pass ∧ gaps ≠ [] then
      { row with
        status := "dependency-gap", result := .incomplete, dependencyGaps := gaps
        defects := row.defects ++
          ["canonical dependencies not covered: " ++ String.intercalate "," gaps] }
      else row]) rest

def failedRows (required : List ID) (rows : List Row) : List String :=
  (rows.filter (fun row => row.claimId ∈ required ∧ row.result = .fail)).map
    (fun row => row.claimId ++ ": recorded or independently observed FAIL")

def incompleteRows (required : List ID) (rows : List Row) : List String :=
  (rows.filter (fun row => row.claimId ∈ required ∧ row.result = .incomplete)).map
    (fun row => row.claimId ++ ": " ++ row.status)

def qualification : String :=
  (if portable.recompute ∧ portable.recheckObservations then ""
    else "; binding=" ++ (if portable.recompute then "observations-not-rechecked"
      else "not-recomputed")) ++
  (if portable.require.isSome then "; scope=full-policy-selection" else "")

def passingVerdict : String :=
  (if portable.recompute ∧ portable.recheckObservations then "VERIFIED" else "COVERED") ++
    "[profile=producer-trusted-execution-v4" ++ qualification portable ++ "]"

def setVerdict (verdict : String) : Step Unit :=
  modify (fun s => { s with report := { s.report with verdict := verdict } })

def foldRows (judged : Judged) (report : Report) : Report :=
  let rows := closeGaps judged.bindings [] report.perClaim
  { report with
    perClaim := rows
    failed := report.failed ++ failedRows judged.required rows
    incomplete := report.incomplete ++ incompleteRows judged.required rows ++
      (if judged.required = [] then ["required claim set is empty"] else []) }

def checkDrift (judged : Judged) : Except Failure Unit :=
  match judged.current with
  | some current =>
    if portable.recompute then do
      let final ← safely portable.finalInputs
      check (final = current) (v4Error "source drift during portable assessment")
    else pure ()
  | none => pure ()

/-- Fold the rows into a verdict and an exit code. -/
def aggregate (judged : Judged) : Step ℕ := do
  modify (fun s => { s with report := foldRows judged s.report })
  lift (checkDrift portable judged)
  let report ← Raising.asking (fun s => .ok s.report)
  if report.failed ≠ [] then do
    setVerdict "FAILED"
    pure 1
  else if report.errors ≠ [] ∨ judged.run.result = .error ∨ judged.run.preflight.result = .error then do
    setVerdict "ERROR"
    pure 2
  else if report.incomplete ≠ [] ∨ judged.run.result = .cancelled then do
    setVerdict "INCOMPLETE"
    pure 3
  else do
    setVerdict (passingVerdict portable)
    pure 0

def assessment : Step ℕ := do
  let judged ← judge D repr portable
  aggregate portable judged

def emptyReport : Report :=
  { dependencyExpansion := [], requiredClaims := [], expectedSnapshot := none, history := none
    perClaim := [], failed := [], incomplete := [], errors := [], verdict := "ERROR" }

def initialState : AssessmentState := ⟨emptyReport,[]⟩

/-- Retain the failures of rows that were judged before another step failed. -/
def failRow (required : List ID) (report : Report) (row : Row) : Report × Row :=
  if row.claimId ∈ required ∧ (row.result = .fail ∨ .fail ∈ statesOf row) then
    let message := row.claimId ++ ": recorded FAIL"
    ({ report with failed := if message ∈ report.failed then report.failed
        else report.failed ++ [message] },
      { row with result := .fail, status := "FAIL" })
  else (report,row)

def failRows (report : Report) : Report :=
  let marked := report.perClaim.foldl (fun state row =>
    let next := failRow report.requiredClaims state.1 row
    (next.1,state.2 ++ [next.2])) (report,[])
  { marked.1 with perClaim := marked.2 }

def reportFailure (failure : Failure) (report : Report) : Report × ℕ :=
  let report := failRows { report with errors := report.errors ++ [failure.message] }
  ({ report with verdict := if report.failed ≠ [] then "FAILED" else "ERROR" },
    if report.failed ≠ [] then 1 else 2)

/-- The report and the exit code, or the failure that escapes. -/
def assess : Except Failure (Report × ℕ) :=
  match assessment D repr portable initialState with
  | (.ok code,s) => .ok (s.report,code)
  | (.error failure,s) =>
    if failure.reported then .ok (reportFailure failure s.report) else .error failure

end Verdict

end PortableAssessment

end EvidenceV4
