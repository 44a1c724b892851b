import EvidenceV4.CandidateSelection
import EvidenceV4.FilePublication

/-!
# Publication of a run

A run manifest names one claim record for each selected claim. Before it is
published the store reads every record again and judges each slot against the
retained history, each claim against its slots and the run against its claims.
A record that passes is backed by a passing execution after every failure
barrier of the member and by a later passing observation of its own.
-/

set_option autoImplicit false

namespace EvidenceV4

namespace Generation

open CheckedExcept StoreDocument RetainedFiles ExecutionArchive RetainedHistory PrefixLog

variable (D : Digests)

def slotMember (claim : ClaimRecord) (slot : ClaimSlot) : Member :=
  ⟨claim.claimId,slot.slotId,slot.tool⟩

def readClaim (s : Store) (manifest : RunManifest) (entry : RunClaim) :
    Except String ClaimRecord := do
  require (entry.record.path = .claim manifest.runId entry.claimId) "claim reference outside run"
  let bytes ← readFileRef D s entry.record
  let claim ← asClaim bytes
  validateClaimRecord D claim
  require (claim.runId = manifest.runId ∧ claim.claimId = entry.claimId ∧
      claim.common = manifest.common ∧ D.claimRecord claim.toUnsignedClaim = claim.recordId)
    "claim canonical/common identity mismatch"
  pure claim

def validateBlocking (history : HistorySnapshot) (slot : ClaimSlot) : Except String Unit :=
  forM slot.blockingEvents (fun blocker =>
    require (history.view.events[blocker.sequence-1]? = some blocker)
      "claim failure reference is not retained history")

def validateSlotExecution (s : Store) (claim : ClaimRecord) (slot : ClaimSlot) :
    Except String Unit :=
  match slot.execution with
  | some execution => do
    let artifact ← readExecution D s execution none
    let descriptor := artifact.descriptor
    require (descriptor.common = claim.common ∧ descriptor.recipe.recipeId = slot.recipeId ∧
        descriptor.recipe.evidenceClass = slot.evidenceClass ∧
        slotMember claim slot ∈ descriptor.members)
      "claim execution association mismatch"
    require (slot.state = .pass → artifact.result = .pass)
      "claim PASS references unsuccessful physical work"
  | none => require (slot.state ≠ .pass) "claim PASS lacks execution"

/-- The history retains this observation of the slot. -/
def Retains (event : HistoryEvent) (claim : ClaimRecord) (slot : ClaimSlot)
    (observation : SlotObservation) : Prop :=
  event.kind = .observation ∧ event.observation = some observation.check ∧
    event.claimId = some claim.claimId ∧ event.slotId = some slot.slotId ∧
    event.result = observation.result ∧ event.execution = slot.execution

instance (event : HistoryEvent) (claim : ClaimRecord) (slot : ClaimSlot)
    (observation : SlotObservation) : Decidable (Retains event claim slot observation) :=
  inferInstanceAs (Decidable (_ ∧ _))

def validateSlotObservation (s : Store) (history : HistorySnapshot) (claim : ClaimRecord)
    (slot : ClaimSlot) : Except String Unit :=
  match slot.observation with
  | some observation => do
    let bytes ← readFileRef D s observation.check
    let check ← asCheck bytes
    validateObservationCheck D check
    require (check.response = observation.response) "claim response reference differs from receipt"
    require (slot.state = .pass → observation.result = .pass)
      "claim PASS lacks passing own observation"
    require (∃ event ∈ history.events, Retains event claim slot observation)
      "claim observation has no matching retained event"
  | none => require (slot.state ≠ .pass) "claim PASS lacks member observations"

def isActual (slot : ClaimSlot) (event : HistoryEvent) : Bool :=
  event.kind = .execution ∧ event.result = .pass ∧ event.execution = slot.execution

/-- A passing observation of the slot, recorded after the execution. -/
def Follows (actual : HistoryEvent) (claim : ClaimRecord) (slot : ClaimSlot)
    (event : HistoryEvent) : Prop :=
  event.kind = .observation ∧ event.result = .pass ∧ actual.sequence < event.sequence ∧
    event.claimId = some claim.claimId ∧ event.slotId = some slot.slotId ∧
    event.execution = slot.execution

instance (actual event : HistoryEvent) (claim : ClaimRecord) (slot : ClaimSlot) :
    Decidable (Follows actual claim slot event) :=
  inferInstanceAs (Decidable (_ ∧ _))

def validateSlotState (history : HistorySnapshot) (claim : ClaimRecord) (slot : ClaimSlot) :
    Except String Unit :=
  let blockers := history.events.filter (fun event => barrierApplies event (slotMember claim slot))
  let cutoff := (blockers.getLast?.map (fun event => event.sequence)).getD 0
  if slot.state = .pass then
    match history.events.find? (isActual slot) with
    | none => throw "v4 store: claim PASS predates own canonical failure cutoff"
    | some actual => do
      require (cutoff < actual.sequence) "claim PASS predates own canonical failure cutoff"
      require (∃ event ∈ history.events, Follows actual claim slot event)
        "claim PASS lacks subsequent own observation"
  else
    require ((∃ event ∈ blockers, event.result = .fail) → slot.state = .fail)
      "claim hides an unsuperseded canonical failure"

def validateSlot (s : Store) (history : HistorySnapshot) (claim : ClaimRecord) (slot : ClaimSlot) :
    Except String Unit := do
  validateBlocking history slot
  validateSlotExecution D s claim slot
  validateSlotObservation D s history claim slot
  validateSlotState history claim slot

def memberResult (claim : ClaimRecord) : ClaimResult :=
  if ∃ slot ∈ claim.executions, slot.state = .fail then .fail
  else if ∀ slot ∈ claim.executions, slot.state = .pass then .pass
  else .incomplete

/-- Dependency or tool coverage can keep a claim incomplete after its own members pass. -/
def ResultAgrees (claim : ClaimRecord) : Prop :=
  if memberResult claim = .pass then claim.result ≠ .fail else claim.result = memberResult claim

instance (claim : ClaimRecord) : Decidable (ResultAgrees claim) :=
  inferInstanceAs (Decidable (ite _ _ _))

def validateClaim (s : Store) (history : HistorySnapshot) (manifest : RunManifest)
    (entry : RunClaim) : Except String ClaimRecord := do
  let claim ← readClaim D s manifest entry
  forM claim.executions (validateSlot D s history claim)
  require (ResultAgrees claim) "claim result contradicts member states"
  pure claim

def validateWork (s : Store) (work : RunWork) : Except String Unit :=
  match work.execution with
  | none => pure ()
  | some execution => do
    let artifact ← readExecution D s execution none
    require (work.executionKey = some artifact.executionKey ∧
        work.recipeId = artifact.descriptor.recipe.recipeId ∧
        work.distinctSlot = artifact.descriptor.distinctSlot)
      "run work association mismatch"

/-- The requirements of a passing run: every required claim passes over one clean source. -/
def StableRequirements (manifest : RunManifest) (states : List ClaimRecord) : Prop :=
  (∀ claim ∈ states, claim.required → claim.result = .pass) ∧
    ∃ source ∈ manifest.sourceBefore, source.clean ∧ manifest.sourceAfter = some source

instance (manifest : RunManifest) (states : List ClaimRecord) :
    Decidable (StableRequirements manifest states) :=
  inferInstanceAs (Decidable (_ ∧ ∃ source ∈ manifest.sourceBefore, _))

def validateGeneration (s : Store) (manifest : RunManifest) : Except String Unit := do
  let history ← readHistory D s (some manifest.history)
  require (manifest.policyPath = manifest.common.policyPath ∧
      manifest.policyHash = manifest.common.policyHash ∧
      manifest.startedAt ≤ manifest.finishedAt)
    "run common/time binding mismatch"
  let states ← manifest.claims.mapM (validateClaim D s history manifest)
  forM manifest.requiredRecords (fun required =>
    require (required ∈ manifest.claims.map RunClaim.claimId) "run omits a required claim")
  forM manifest.preflight.checks (fun item =>
    forM (item.stdout.toList ++ item.stderr.toList) (fun ref => do
      let _ ← readFileRef D s ref
      pure ()))
  forM manifest.work (validateWork D s)
  require ((∃ claim ∈ states, claim.required ∧ claim.result = .fail) → manifest.result = .fail)
    "run erases a required claim failure"
  require (manifest.result = .pass → StableRequirements manifest states)
    "run PASS has missing/unstable requirements"

def underRun (run : UUID) : Path → Bool
  | .observation r _ _ _ => r == run
  | .claim r _ => r == run
  | .run r => r == run
  | _ => false

def publishClaim (outcome : WriteOutcome) (input : UnsignedClaim) : Transaction Store FileRef := do
  let claim : ClaimRecord := { input with recordId := D.claimRecord input }
  Transaction.reading (fun _ => validateClaimRecord D claim)
  writeImmutableJSON D outcome (.claim claim.runId claim.claimId) (.claim claim)

def publishRun (outcome : WriteOutcome) (manifest : RunManifest) : Transaction Store FileRef := do
  Transaction.reading (fun _ => validateRunManifest D manifest)
  Transaction.reading (fun s => validateGeneration D s manifest)
  let result ← writeImmutableJSON D outcome (.run manifest.runId) (.run manifest)
  fsyncTree (underRun manifest.runId)
  pure result

section Backing

variable {D} {s : Store} {history : HistorySnapshot} {claim : ClaimRecord} {slot : ClaimSlot}

/-- A passing execution of the slot after every barrier of the member, with a later passing
observation of the slot's own. -/
def Backed (events : List HistoryEvent) (claim : ClaimRecord) (slot : ClaimSlot) : Prop :=
  slot.execution.isSome ∧ ∃ actual ∈ events, isActual slot actual ∧
    (∀ b ∈ events, barrierApplies b (slotMember claim slot) → b.sequence < actual.sequence) ∧
    ∃ event ∈ events, Follows actual claim slot event

theorem validateSlot_backed (chain : Chain D s history.events)
    (h : validateSlot D s history claim slot = .ok ()) (pass : slot.state = .pass) :
    Backed history.events claim slot := by
  simp only [validateSlot, bind_ok, exists_unit] at h
  obtain ⟨_,executed,_,state⟩ := h
  have some : slot.execution.isSome := by
    cases found : slot.execution with
    | none => simp [validateSlotExecution, found, pass] at executed
    | some _ => rfl
  rw [validateSlotState, if_pos pass] at state
  cases found : history.events.find? (isActual slot) with
  | none => simp [found] at state
  | some actual =>
    have mem := List.mem_of_find?_eq_some found
    simp only [found, bind_ok, exists_unit, require_ok] at state
    have clear := (cutoff_lt_iff (p := fun event => barrierApplies event (slotMember claim slot))
      (chain_increasing chain) (numbered_pos (chain_numbered chain) mem)).mp state.1
    exact ⟨some,actual,mem,List.find?_some found,clear,state.2⟩

theorem memberResult_fail (h : ∃ slot ∈ claim.executions, slot.state = .fail) :
    memberResult claim = .fail := if_pos h

theorem memberResult_pass (h : memberResult claim = .pass) :
    ∀ slot ∈ claim.executions, slot.state = .pass := by
  unfold memberResult at h
  split at h
  · simp at h
  · split at h
    · assumption
    · simp at h

/-- A claim that agrees with its slots passes only when all of them do. -/
theorem resultAgrees_pass (agrees : ResultAgrees claim) (pass : claim.result = .pass) :
    ∀ slot ∈ claim.executions, slot.state = .pass := by
  refine memberResult_pass ?_
  unfold ResultAgrees at agrees
  split at agrees
  · assumption
  · exact agrees ▸ pass

theorem resultAgrees_fail (agrees : ResultAgrees claim)
    (h : ∃ slot ∈ claim.executions, slot.state = .fail) : claim.result = .fail := by
  have result := memberResult_fail h
  rw [ResultAgrees, result, if_neg (by decide)] at agrees
  exact agrees

theorem validateClaim_ok {manifest : RunManifest} {entry : RunClaim}
    (h : validateClaim D s history manifest entry = .ok claim) :
    readClaim D s manifest entry = .ok claim ∧
      (∀ slot ∈ claim.executions, validateSlot D s history claim slot = .ok ()) ∧
      ResultAgrees claim := by
  simp only [validateClaim, bind_ok, exists_unit, forM_ok, require_ok, pure_ok] at h
  obtain ⟨_,read,slots,agrees,rfl⟩ := h
  exact ⟨read,slots,agrees⟩

theorem publishRun_validated {outcome : WriteOutcome} {manifest : RunManifest} {ref : FileRef}
    (h : (publishRun D outcome manifest s).1 = .ok ref) :
    validateRunManifest D manifest = .ok () ∧ validateGeneration D s manifest = .ok () := by
  unfold publishRun at h
  cases valid : validateRunManifest D manifest with
  | error message => simp [bind, Transaction.reading, valid] at h
  | ok _ =>
    cases generation : validateGeneration D s manifest with
    | error message => simp [bind, Transaction.reading, valid, generation] at h
    | ok _ => exact ⟨rfl,rfl⟩

end Backing

/-- The claim records of a published run are those read back from the store. Each passing one is
backed slot by slot, a failed slot fails its claim, a failed required claim fails the run, and a
passing run has passing required claims over one clean source. -/
theorem publishRun_backed (D : Digests) (s : Store) (outcome : WriteOutcome)
    (manifest : RunManifest) (ref : FileRef)
    (published : (publishRun D outcome manifest s).1 = .ok ref) :
    ∃ history claims, readHistory D s (some manifest.history) = .ok history ∧
      List.Forall₂ (fun entry claim => readClaim D s manifest entry = .ok claim)
        manifest.claims claims ∧
      (∀ claim ∈ claims, claim.result = .pass → claim.executions ≠ [] ∧
        ∀ slot ∈ claim.executions, Backed history.events claim slot) ∧
      (∀ claim ∈ claims, (∃ slot ∈ claim.executions, slot.state = .fail) → claim.result = .fail) ∧
      ((∃ claim ∈ claims, claim.required ∧ claim.result = .fail) → manifest.result = .fail) ∧
      (manifest.result = .pass → StableRequirements manifest claims) := by
  have generation := (publishRun_validated published).2
  simp only [validateGeneration, bind_ok, exists_unit, require_ok] at generation
  obtain ⟨history,loaded,_,claims,validated,_,_,_,failed,passed⟩ := generation
  obtain ⟨chain,_⟩ := loadHistory_chain loaded
  have each := (mapM_ok _ _ _).mp validated
  refine ⟨history,claims,loaded,each.imp (fun _ _ h => (validateClaim_ok h).1),?_,?_,failed,passed⟩
  · intro claim hc pass
    obtain ⟨entry,_,valid⟩ := forall₂_mem_right each hc
    obtain ⟨read,slots,agrees⟩ := validateClaim_ok valid
    refine ⟨?_,fun slot hs => validateSlot_backed chain (slots slot hs)
      (resultAgrees_pass agrees pass slot hs)⟩
    simp only [readClaim, bind_ok, exists_unit, require_ok, pure_ok, validateClaimRecord,
      distinctIds, Schema.ensure_ok] at read
    obtain ⟨_,_,_,_,_,⟨⟨some,_⟩,_⟩,_,rfl⟩ := read
    simpa using some
  · intro claim hc fail
    obtain ⟨_,_,valid⟩ := forall₂_mem_right each hc
    exact resultAgrees_fail (validateClaim_ok valid).2.2 fail

section Samples

open CandidateSelection

def sampleSlot : ClaimSlot where
  slotId := "s1"
  tool := "t1"
  recipeId := "recipe"
  evidenceClass := sampleDescriptor.recipe.evidenceClass
  execution := some (sampleExecution "a1")
  state := .pass
  reason := none
  observationBinding := ⟨"report.json",""⟩
  blockingEvents := []
  observation := some
    { check := ⟨observationPath "r1" "check.json","check-5r1",1⟩
      response := some (canonicalRef sampleDigests (observationPath "r1" "response.json")
        (.response (sampleResponse "r1" [("s1",.pass)])))
      result := .pass }

def sampleClaim : UnsignedClaim where
  runId := "run"
  claimId := "claim"
  required := true
  evidenceClass := sampleSlot.evidenceClass
  scope := ""
  common := sampleCommon
  executions := [sampleSlot]
  result := .pass

/-- The store after the claim of the sample history was published. -/
def claimStore : Store := (publishClaim sampleDigests .durable sampleClaim sampleStore).2

def sampleManifest : RunManifest where
  runId := "run"
  policyPath := "policy.json"
  policyHash := "policy"
  common := sampleCommon
  implementationHash := "implementation"
  history := (sampleHistory sampleStore sampleInputs).view
  startedAt := "1"
  finishedAt := "9"
  jobs := 1
  selectedRecords := ["claim"]
  requiredRecords := ["claim"]
  sourceBefore := some sampleSource
  sourceAfter := some sampleSource
  preflight := ⟨.pass,none,[]⟩
  work := []
  claims := [⟨"claim",.claim "run" "claim","claim-claim",1⟩]
  result := .pass
  reason := none

theorem publishRun_backed_sample :
    ∃ history claims, readHistory sampleDigests claimStore (some sampleManifest.history) =
        .ok history ∧
      List.Forall₂ (fun entry claim =>
        readClaim sampleDigests claimStore sampleManifest entry = .ok claim)
        sampleManifest.claims claims ∧
      (∀ claim ∈ claims, claim.result = .pass → claim.executions ≠ [] ∧
        ∀ slot ∈ claim.executions, Backed history.events claim slot) ∧
      (∀ claim ∈ claims, (∃ slot ∈ claim.executions, slot.state = .fail) → claim.result = .fail) ∧
      ((∃ claim ∈ claims, claim.required ∧ claim.result = .fail) →
        sampleManifest.result = .fail) ∧
      (sampleManifest.result = .pass → StableRequirements sampleManifest claims) :=
  publishRun_backed sampleDigests claimStore .durable sampleManifest
    ⟨.run "run","run-run",1⟩ (by decide +kernel)

end Samples

end Generation

end EvidenceV4
