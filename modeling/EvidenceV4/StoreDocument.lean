import EvidenceV4.PolicyDocument

/-!
# Documents of the retained store

Execution artifacts, history events, observation receipts, owner records, claim
records and run manifests, with the validators that judge one document on its
own. A string field has the grammar of its schema, identities that are only
compared are kept as canonical text, and a comparison of two digests of
canonical encodings is written as a comparison of the values. Digests that
bind a document to a name are parameters.
-/

set_option autoImplicit false

namespace EvidenceV4

open CheckedExcept

abbrev UTC := String

inductive Result where
  | pass | fail | error | cancelled
  deriving DecidableEq

inductive SlotState where
  | pass | fail | error | cancelled | missing
  deriving DecidableEq

inductive ClaimResult where
  | pass | fail | incomplete
  deriving DecidableEq

inductive RunOutcome where
  | pass | fail | error | cancelled | incomplete
  deriving DecidableEq

/-- The places of the store. A path outside the canonical layout is kept as text. -/
inductive Path where
  | history (sequence : ℕ)
  | execution (key : Hash) (attempt : UUID) (name : List String)
  | recoveredOwner (ownerId : UUID)
  | observation (run : UUID) (claim : ID) (request : UUID) (name : String)
  | claim (run : UUID) (claim : ID)
  | run (run : UUID)
  | other (text : String)
  deriving DecidableEq

structure FileRef where
  path : Path
  hash : Hash
  size : ℕ
  deriving DecidableEq

structure ExecutionRef where
  executionKey : Hash
  artifactId : Hash
  path : Path
  hash : Hash
  deriving DecidableEq

structure SourceFile where
  path : String
  hash : Hash
  size : ℕ
  executable : Bool
  deriving DecidableEq

structure InputState where
  verifiedInputsPolicyHash : Hash
  inventoryHash : Hash
  sourceSnapshot : Hash
  clean : Bool
  files : List SourceFile
  deriving DecidableEq

structure UnsignedClosure where
  mode : ClosureMode
  prefixes : List String
  basis : List String
  files : List SourceFile
  deriving DecidableEq

structure Closure extends UnsignedClosure where
  hash : Hash
  deriving DecidableEq

structure EnvironmentVariable where
  name : String
  present : Bool
  valueHash : Option Hash
  deriving DecidableEq

structure EnvironmentIdentity where
  platform : String
  entries : List EnvironmentVariable
  deriving DecidableEq

structure BuildCacheIdentity where
  system : CacheSystem
  content : String
  deriving DecidableEq

/-- `producerRuntime` says that the locator is the producer's own, `probes` are the exit codes of
the version and discovery commands, and `content` is the rest of the identity. -/
structure ToolIdentity where
  id : ID
  requires : List ID
  producerRuntime : Bool
  probes : List ℤ
  regularFiles : List (String × Hash)
  content : String
  deriving DecidableEq

structure PathHash where
  path : String
  hash : Hash
  deriving DecidableEq

structure CommonBindings where
  policyPath : String
  policyHash : Hash
  intentPath : String
  intentHash : Hash
  manifestPath : String
  manifestHash : Hash
  definitionFiles : List PathHash
  dispatchHash : Option Hash
  requiredTargets : List ID
  deriving DecidableEq

structure ExecutionDescriptor where
  common : CommonBindings
  recipe : Recipe
  members : List Member
  distinctSlot : Option DistinctSlot
  verifiedInputsPolicyHash : Hash
  inventoryHash : Hash
  closure : Closure
  environment : EnvironmentIdentity
  toolchain : List ToolIdentity
  buildCache : Option BuildCacheIdentity
  deriving DecidableEq

structure Termination where
  exitCode : Option ℤ
  signal : Option String
  timedOut : Bool
  cancelled : Bool
  deriving DecidableEq

/-- The process ended by itself with status zero. -/
def Termination.Normal (t : Termination) : Prop :=
  t.exitCode = some 0 ∧ t.signal = none ∧ t.timedOut = false ∧ t.cancelled = false

instance (t : Termination) : Decidable t.Normal := inferInstanceAs (Decidable (_ ∧ _))

inductive WindowState where
  | pending | active | closed | indeterminate
  deriving DecidableEq

structure SpawnWindow where
  windowId : UUID
  executionKey : Option Hash
  attemptId : Option UUID
  state : WindowState
  content : String
  deriving DecidableEq

inductive PendingKind where
  | execution | observation
  deriving DecidableEq

structure PendingResult where
  kind : PendingKind
  executionKey : Hash
  attemptId : UUID
  members : List Member
  claimId : Option ID
  slotId : Option ID
  deriving DecidableEq

structure OwnerRecord where
  ownerId : UUID
  runId : UUID
  spawnWindows : List SpawnWindow
  pendingResults : List PendingResult
  content : String
  deriving DecidableEq

structure OwnedRegistration where
  windowId : UUID
  registeredAt : UTC
  terminatedAt : Option UTC
  process : String
  deriving DecidableEq

structure OwnershipReceipt where
  ownerId : UUID
  children : List OwnedRegistration
  spawnWindows : List SpawnWindow
  protocolLog : Option FileRef
  deriving DecidableEq

structure UnsignedArtifact where
  executionKey : Hash
  attemptId : UUID
  implementationHash : Hash
  descriptor : ExecutionDescriptor
  startedAt : UTC
  finishedAt : UTC
  sourceBefore : InputState
  sourceAfter : Option InputState
  toolchainAfter : Option (List ToolIdentity)
  environmentAfter : Option EnvironmentIdentity
  stdout : FileRef
  stderr : FileRef
  rawOutput : FileRef
  attachments : List FileRef
  ownership : OwnershipReceipt
  buildCacheAfter : Option BuildCacheIdentity
  termination : Termination
  markerMatched : Bool
  result : Result
  reason : Option String
  deriving DecidableEq

structure ExecutionArtifact extends UnsignedArtifact where
  artifactId : Hash
  deriving DecidableEq

structure HistoryRef where
  sequence : ℕ
  eventId : Hash
  path : Path
  hash : Hash
  deriving DecidableEq

structure HistoryView where
  head : Option HistoryRef
  events : List HistoryRef
  deriving DecidableEq

inductive EventKind where
  | execution | observation | indeterminate
  deriving DecidableEq

structure EventInput where
  kind : EventKind
  executionKey : Hash
  attemptId : UUID
  members : List Member
  execution : Option ExecutionRef
  claimId : Option ID
  slotId : Option ID
  observation : Option FileRef
  indeterminateOwner : Option FileRef
  result : Result
  deriving DecidableEq

structure UnsignedEvent extends EventInput where
  sequence : ℕ
  previous : Option HistoryRef
  deriving DecidableEq

structure HistoryEvent extends UnsignedEvent where
  eventId : Hash
  deriving DecidableEq

structure RequestSlot where
  slotId : ID
  tool : ToolID
  recipeId : ID
  execution : ExecutionRef
  observationBinding : ObservationBinding
  deriving DecidableEq

structure ObservationRequest where
  requestId : UUID
  policyPath : String
  policyHash : Hash
  common : CommonBindings
  claimId : ID
  createdAt : UTC
  slots : List RequestSlot
  deriving DecidableEq

/-- A checker answers each slot with PASS, FAIL or ERROR. -/
structure ResponseSlot where
  slotId : ID
  result : Result
  reason : Option String
  observations : String
  deriving DecidableEq

structure ObservationResponse where
  requestId : UUID
  requestHash : Hash
  claimId : ID
  startedAt : UTC
  finishedAt : UTC
  slots : List ResponseSlot
  deriving DecidableEq

structure ObservationCheck where
  request : FileRef
  response : Option FileRef
  startedAt : UTC
  finishedAt : UTC
  termination : Termination
  stdout : FileRef
  stderr : FileRef
  sourceBefore : InputState
  sourceAfter : Option InputState
  toolchain : List ToolIdentity
  result : Result
  reason : Option String
  deriving DecidableEq

structure SlotObservation where
  check : FileRef
  response : Option FileRef
  result : Result
  deriving DecidableEq

structure ClaimSlot where
  slotId : ID
  tool : ToolID
  recipeId : ID
  evidenceClass : EvidenceClass
  execution : Option ExecutionRef
  state : SlotState
  reason : Option String
  observationBinding : ObservationBinding
  blockingEvents : List HistoryRef
  observation : Option SlotObservation
  deriving DecidableEq

structure UnsignedClaim where
  runId : UUID
  claimId : ID
  required : Bool
  evidenceClass : EvidenceClass
  scope : String
  common : CommonBindings
  executions : List ClaimSlot
  result : ClaimResult
  deriving DecidableEq

structure ClaimRecord extends UnsignedClaim where
  recordId : Hash
  deriving DecidableEq

structure PreflightCheck where
  id : ID
  result : SlotState
  termination : Termination
  stdout : Option FileRef
  stderr : Option FileRef
  reason : Option String
  deriving DecidableEq

structure Preflight where
  result : Result
  reason : Option String
  checks : List PreflightCheck
  deriving DecidableEq

inductive CacheState where
  | hit | miss | notChecked
  deriving DecidableEq

structure RunWork where
  recipeId : ID
  distinctSlot : Option DistinctSlot
  executionKey : Option Hash
  execution : Option ExecutionRef
  state : SlotState
  cache : CacheState
  reason : Option String
  deriving DecidableEq

structure RunClaim where
  claimId : ID
  record : FileRef
  deriving DecidableEq

structure RunManifest where
  runId : UUID
  policyPath : String
  policyHash : Hash
  common : CommonBindings
  implementationHash : Hash
  history : HistoryView
  startedAt : UTC
  finishedAt : UTC
  jobs : ℕ
  selectedRecords : List ID
  requiredRecords : List ID
  sourceBefore : Option InputState
  sourceAfter : Option InputState
  preflight : Preflight
  work : List RunWork
  claims : List RunClaim
  result : RunOutcome
  reason : Option String
  deriving DecidableEq

inductive Content where
  | event (e : HistoryEvent)
  | execution (a : ExecutionArtifact)
  | owner (o : OwnerRecord)
  | request (r : ObservationRequest)
  | response (r : ObservationResponse)
  | check (c : ObservationCheck)
  | claim (c : ClaimRecord)
  | run (r : RunManifest)
  | stream (text : String)
  deriving DecidableEq

/-- A byte string is the document it decodes to and, among the byte strings that decode to it, a
number. The canonical encoding has number zero. -/
structure Bytes where
  content : Content
  spelling : ℕ
  deriving DecidableEq

def canonical (content : Content) : Bytes := ⟨content,0⟩

/-- The digests that bind documents, and the two checks that look only inside one tool manifest
or one set of streams. -/
structure Digests where
  bytes : Bytes → Hash
  size : Bytes → ℕ
  historyEvent : UnsignedEvent → Hash
  executionKey : ExecutionDescriptor → Hash
  executionArtifact : UnsignedArtifact → Hash
  claimRecord : UnsignedClaim → Hash
  inventory : List (String × Bool) → Hash
  sourceSnapshot : List (String × Hash) → Hash
  sourceClosure : UnsignedClosure → Hash
  producerImplementation : List (String × Hash) → Hash
  validToolIdentity : ToolIdentity → Bool
  validStreams : ExecutionArtifact → Bytes → Bytes → Bytes → Bool

namespace StoreDocument

open Schema PolicyDocument RequirementWalk

variable (D : Digests)

/-- The key by which members are ordered and distinguished. -/
def memberKey (m : Member) : String := m.claimId ++ "\x00" ++ m.slotId

def members (ms : List Member) (place : String) : Except String Unit := do
  ensure (ms ≠ []) place "expected array"
  ensure (Ascending (ms.map memberKey)) place "set is duplicate or not UTF-8 ordered"

def distinctIds (ids : List String) (place : String) : Except String Unit := do
  ensure (ids ≠ []) place "expected array"
  ensure ids.Nodup place "duplicate identity"

def validateInputState (x : InputState) : Except String Unit := do
  ensure (Ascending (x.files.map SourceFile.path)) "InputState.files"
    "set is duplicate or not UTF-8 ordered"
  CheckedExcept.check (x.inventoryHash = D.inventory (x.files.map (fun f => (f.path,f.executable))))
    "InputState inventory hash mismatch"
  CheckedExcept.check (x.sourceSnapshot = D.sourceSnapshot (x.files.map (fun f => (f.path,f.hash))))
    "InputState source snapshot mismatch"

def validateClosure (x : Closure) : Except String Unit := do
  CheckedExcept.check (x.hash = D.sourceClosure x.toUnsignedClosure) "Closure hash mismatch"
  CheckedExcept.check (x.mode = .verifiedInputs → x.prefixes = []) "whole closure has prefixes"
  CheckedExcept.check (x.mode = .prefixes → x.prefixes ≠ [] ∧ x.basis ≠ [])
    "prefix closure lacks reviewed basis"

def validateEnvironmentIdentity (x : EnvironmentIdentity) : Except String Unit :=
  forM x.entries (fun e => CheckedExcept.check (e.present = e.valueHash.isSome)
    "EnvironmentIdentity presence/hash mismatch")

def validateToolIdentity (x : ToolIdentity) : Except String Unit :=
  CheckedExcept.check (D.validToolIdentity x) "tool content digest mismatch"

def toolRules (tools : List ToolIdentity) (cycle missing : String)
    (leave : ID → Except String Unit) : Rules ID String :=
  { requires := fun name => (mapGet (tools.map (fun t => (t.id,t))) name).map ToolIdentity.requires
    enter := fun _ => pure ⟨⟩
    leave := leave
    cycle := fun _ => cycle
    missing := fun name => missing ++ name }

def descriptorTools (x : ExecutionDescriptor) : Except String (List ID) :=
  ("fv-producer" :: x.recipe.toolchain).foldlM
    (visit (toolRules x.toolchain "cyclic descriptor tool closure" "missing descriptor tool: "
      (fun _ => pure ⟨⟩)) (x.toolchain.length+1) []) []

def validateExecutionDescriptor (x : ExecutionDescriptor) : Except String Unit := do
  members x.members "ExecutionDescriptor.members"
  ensure (Ascending (x.toolchain.map ToolIdentity.id)) "ExecutionDescriptor.toolchain"
    "set is duplicate or not UTF-8 ordered"
  validateClosure D x.closure
  validateEnvironmentIdentity x.environment
  forM x.toolchain (validateToolIdentity D)
  CheckedExcept.check (x.recipe.determinism = .fixed → x.distinctSlot = none)
    "fixed descriptor has distinct slot"
  CheckedExcept.check
    (x.recipe.determinism = .distinct →
      x.distinctSlot.isSome ∧
        x.members.map (fun m => some ⟨m.claimId,m.slotId⟩) = [x.distinctSlot])
    "distinct descriptor membership mismatch"
  let required ← descriptorTools x
  CheckedExcept.check (required.length = x.toolchain.length)
    "descriptor includes undeclared tool identities"
  CheckedExcept.check (∀ t ∈ x.toolchain, t.id = "fv-producer" → t.producerRuntime)
    "reserved producer locator mismatch"
  CheckedExcept.check
    (x.recipe.buildCache.map BuildCache.system = x.buildCache.map BuildCacheIdentity.system)
    "descriptor cache system mismatch"

/-- What a passing execution must show about its own completion. -/
def CompletePass (x : ExecutionArtifact) : Prop :=
  x.sourceBefore.clean ∧ x.sourceAfter = some x.sourceBefore ∧
    x.toolchainAfter = some x.descriptor.toolchain ∧
    x.environmentAfter = some x.descriptor.environment ∧
    x.buildCacheAfter = x.descriptor.buildCache ∧ x.termination.Normal ∧ x.markerMatched ∧
    (∀ w ∈ x.ownership.spawnWindows, w.state = .closed) ∧
    ∀ c ∈ x.ownership.children, c.terminatedAt.isSome

instance (x : ExecutionArtifact) : Decidable (CompletePass x) :=
  inferInstanceAs (Decidable (_ ∧ _))

def validateExecutionArtifact (x : ExecutionArtifact) : Except String Unit := do
  validateExecutionDescriptor D x.descriptor
  validateInputState D x.sourceBefore
  forM x.sourceAfter.toList (validateInputState D)
  forM (x.toolchainAfter.getD []) (validateToolIdentity D)
  forM x.environmentAfter.toList validateEnvironmentIdentity
  CheckedExcept.check (x.executionKey = D.executionKey x.descriptor)
    "artifact execution key mismatch"
  CheckedExcept.check (x.artifactId = D.executionArtifact x.toUnsignedArtifact)
    "artifact identity mismatch"
  CheckedExcept.check (x.startedAt ≤ x.finishedAt) "artifact interval reversed"
  CheckedExcept.check (x.result = .pass → CompletePass x)
    "artifact PASS has incomplete or inconsistent completion"

def validateOwnerRecord (x : OwnerRecord) : Except String Unit := do
  ensure (x.spawnWindows.map SpawnWindow.windowId).Nodup "Owner.spawn_windows" "duplicate identity"
  forM x.pendingResults (fun p => members p.members "Owner.pending_results.members")

def validateHistoryView (x : HistoryView) : Except String Unit := do
  CheckedExcept.check (x.events.map HistoryRef.sequence = List.range' 1 x.events.length)
    "history view is not complete contiguous prefix"
  CheckedExcept.check (x.head = x.events.getLast?) "history view head mismatch"

def Selects (x : EventInput) (m : Member) : Prop :=
  x.claimId = some m.claimId ∧ x.slotId = some m.slotId

instance (x : EventInput) (m : Member) : Decidable (Selects x m) :=
  inferInstanceAs (Decidable (_ ∧ _))

def validateHistoryEvent (x : HistoryEvent) : Except String Unit := do
  ensure (x.sequence ≠ 0) "HistoryEvent.sequence" "expected positive integer"
  members x.members "HistoryEvent.members"
  CheckedExcept.check (x.eventId = D.historyEvent x.toUnsignedEvent)
    "history event identity mismatch"
  CheckedExcept.check
    ((x.sequence = 1 ↔ x.previous = none) ∧ ∀ p ∈ x.previous, p.sequence+1 = x.sequence)
    "history predecessor sequence mismatch"
  CheckedExcept.check
    (x.kind = .execution → x.claimId = none ∧ x.slotId = none ∧ x.observation = none ∧
      x.indeterminateOwner = none ∧ (x.result = .pass → x.execution.isSome))
    "execution history fields mismatch"
  CheckedExcept.check
    (x.kind = .observation → (∃ m ∈ x.members, Selects x.toEventInput m) ∧
      x.indeterminateOwner = none ∧
      (x.result = .pass → x.execution.isSome ∧ x.observation.isSome))
    "observation history fields mismatch"
  CheckedExcept.check
    (x.kind = .indeterminate → x.result = .error ∧ x.indeterminateOwner.isSome)
    "indeterminate history requires recovered owner and ERROR"

def validateObservationRequest (x : ObservationRequest) : Except String Unit :=
  distinctIds (x.slots.map RequestSlot.slotId) "ObservationRequest.slots"

def validateObservationResponse (x : ObservationResponse) : Except String Unit := do
  distinctIds (x.slots.map ResponseSlot.slotId) "ObservationResponse.slots"
  ensure (∀ s ∈ x.slots, s.result ≠ .cancelled) "ObservationResponse.slots" "unexpected literal"
  CheckedExcept.check (x.startedAt ≤ x.finishedAt) "observation response interval reversed"

def validateObservationCheck (x : ObservationCheck) : Except String Unit := do
  validateInputState D x.sourceBefore
  forM x.sourceAfter.toList (validateInputState D)
  forM x.toolchain (validateToolIdentity D)
  CheckedExcept.check (x.startedAt ≤ x.finishedAt) "observation interval reversed"
  CheckedExcept.check
    (x.result = .pass → x.response.isSome ∧ x.sourceBefore.clean ∧
      x.sourceAfter = some x.sourceBefore ∧ x.termination.Normal)
    "observation PASS has incomplete completion"

/-- The slot passed with an execution and its own answered passing observation. -/
def PassingSlot (slot : ClaimSlot) : Prop :=
  slot.state = .pass ∧ slot.execution.isSome ∧
    ∃ o ∈ slot.observation, o.result = .pass ∧ o.response.isSome

instance (slot : ClaimSlot) : Decidable (PassingSlot slot) :=
  inferInstanceAs (Decidable (_ ∧ _ ∧ ∃ o ∈ slot.observation, _))

def validateClaimRecord (x : ClaimRecord) : Except String Unit := do
  distinctIds (x.executions.map ClaimSlot.slotId) "ClaimRecord.executions"
  CheckedExcept.check (x.recordId = D.claimRecord x.toUnsignedClaim)
    "claim record identity mismatch"
  CheckedExcept.check (x.executions.map ClaimSlot.tool).Nodup "duplicate claim evidence tool"
  CheckedExcept.check (x.result = .pass → ∀ slot ∈ x.executions, PassingSlot slot)
    "claim PASS lacks eligible execution/observation"

def validateRunManifest (x : RunManifest) : Except String Unit := do
  ensure (x.claims.map RunClaim.claimId).Nodup "RunManifest.claims" "duplicate identity"
  validateHistoryView x.history
  forM x.sourceBefore.toList (validateInputState D)
  forM x.sourceAfter.toList (validateInputState D)
  CheckedExcept.check (x.startedAt ≤ x.finishedAt) "run interval reversed"
  CheckedExcept.check (x.policyPath = x.common.policyPath ∧ x.policyHash = x.common.policyHash)
    "run common policy mismatch"
  CheckedExcept.check (∀ id ∈ x.requiredRecords, id ∈ x.claims.map RunClaim.claimId)
    "run omits required claim references"
  CheckedExcept.check
    (x.result = .pass → (∃ source ∈ x.sourceBefore, source.clean ∧ x.sourceAfter = some source) ∧
      x.preflight.result = .pass ∧ ∀ c ∈ x.preflight.checks, c.result = .pass)
    "run PASS lacks stable clean source/preflight"

end StoreDocument

end EvidenceV4
