import EvidenceV4.RetainedFiles

/-!
# Reading a committed execution

An execution is a directory that holds its artifact, its streams and its
attachments, and nothing else. Reading it re-derives every binding between the
artifact, the files and the reference that names it. What is read depends only
on files that a store never changes, so a later store reads the same artifact.
-/

set_option autoImplicit false

namespace EvidenceV4

namespace ExecutionArchive

open CheckedExcept PolicyDocument StoreDocument RequirementWalk RetainedFiles

variable (D : Digests)

/-- A tool whose version or discovery probe ended with a failure. -/
def FailedProbe (tool : ToolIdentity) : Prop := ∃ code ∈ tool.probes, code ≠ 0

instance (tool : ToolIdentity) : Decidable (FailedProbe tool) :=
  inferInstanceAs (Decidable (∃ code ∈ tool.probes, _))

def assertToolchainIdentity (tools : List ToolIdentity) : Except String Unit := do
  forM tools (validateToolIdentity D)
  let provenance (name : ID) : Except String Unit :=
    require (∀ tool ∈ (mapGet (tools.map (fun t : ToolIdentity => (t.id,t))) name),
        ¬ FailedProbe tool)
      "tool has unsuccessful discovery provenance"
  let rules := toolRules tools "v4 store: tool dependency cycle"
    "v4 store: tool dependency missing: " provenance
  let _ ← (tools.map ToolIdentity.id).foldlM (visit rules (tools.length+1) []) []
  pure ()

def implementationFiles (producer : ToolIdentity) : List (String × Hash) :=
  (producer.regularFiles.filter
    (fun file => "implementation/".toList.isPrefixOf file.1.toList)).map
    (fun file => (String.ofList (file.1.toList.drop "implementation/".length),file.2))

def commonFiles (common : CommonBindings) : List PathHash :=
  [⟨common.intentPath,common.intentHash⟩,⟨common.manifestPath,common.manifestHash⟩] ++
    common.definitionFiles

def RegisteredWithin (artifact : ExecutionArtifact) (child : OwnedRegistration) : Prop :=
  artifact.startedAt ≤ child.registeredAt ∧ child.registeredAt ≤ artifact.finishedAt ∧
    ∀ ended ∈ child.terminatedAt, child.registeredAt ≤ ended ∧ ended ≤ artifact.finishedAt

instance (artifact : ExecutionArtifact) (child : OwnedRegistration) :
    Decidable (RegisteredWithin artifact child) :=
  inferInstanceAs (Decidable (_ ∧ _ ∧ ∀ ended ∈ child.terminatedAt, _))

/-- Every process and window of a passing execution has ended. -/
def OwnershipClosed (artifact : ExecutionArtifact) : Prop :=
  artifact.ownership.children ≠ [] ∧ artifact.ownership.spawnWindows ≠ [] ∧
    (∀ child ∈ artifact.ownership.children, child.terminatedAt.isSome) ∧
    ∀ window ∈ artifact.ownership.spawnWindows, window.state = .closed ∧
      window.executionKey = some artifact.executionKey ∧
      window.attemptId = some artifact.attemptId

instance (artifact : ExecutionArtifact) : Decidable (OwnershipClosed artifact) :=
  inferInstanceAs (Decidable (_ ∧ _))

def assertPassOwnership (artifact : ExecutionArtifact) : Except String Unit := do
  require (OwnershipClosed artifact) "PASS ownership not completely closed"
  require (artifact.descriptor.recipe.ownershipProtocol → artifact.ownership.protocolLog.isSome)
    "hosted ownership missing protocol log"
  require (artifact.descriptor.recipe.attestation.isSome → artifact.attachments ≠ [])
    "collector attestation has no retained attachments"

def assertArtifactIdentity (artifact : ExecutionArtifact)
    (expected : Option ExecutionDescriptor) : Except String Unit := do
  let descriptor := artifact.descriptor
  require (∀ wanted ∈ expected, descriptor = wanted)
    "candidate descriptor differs from current descriptor"
  match descriptor.toolchain.find? (fun tool => tool.id = "fv-producer") with
  | none => throw "v4 store: execution lacks producer tool identity"
  | some producer =>
    require (implementationFiles producer ≠ [] ∧
        D.producerImplementation (implementationFiles producer) = artifact.implementationHash)
      "producer implementation binding mismatch"
  require (artifact.sourceBefore.verifiedInputsPolicyHash = descriptor.verifiedInputsPolicyHash ∧
      artifact.sourceBefore.inventoryHash = descriptor.inventoryHash)
    "artifact source/descriptor mismatch"
  forM descriptor.closure.files (fun file => require (file ∈ artifact.sourceBefore.files)
    ("closure member missing from original input state: " ++ file.path))
  require (descriptor.closure.mode = .verifiedInputs →
      descriptor.closure.files = artifact.sourceBefore.files)
    "whole-source closure omits original inputs"
  forM (commonFiles descriptor.common) (fun binding =>
    require (∃ file ∈ artifact.sourceBefore.files,
        file.path = binding.path ∧ file.hash = binding.hash)
      "common binding differs from original input state")
  forM artifact.ownership.children (fun child => do
    require (child.windowId ∈ artifact.ownership.spawnWindows.map SpawnWindow.windowId)
      "registration references unknown window"
    require (RegisteredWithin artifact child) "registration outside execution interval")
  if artifact.result = .pass then assertPassOwnership artifact else pure ()

def executionFile (artifact : ExecutionArtifact) (name : List String) : Path :=
  .execution artifact.executionKey artifact.attemptId name

def underAttachments (artifact : ExecutionArtifact) : Path → Bool
  | .execution key attempt ("attachments" :: _ :: _) =>
    key == artifact.executionKey && attempt == artifact.attemptId
  | _ => false

/-- The files of an execution besides the artifact, with a separate protocol log last. -/
def executionReferences (artifact : ExecutionArtifact) : List FileRef :=
  let references := [artifact.stdout,artifact.stderr,artifact.rawOutput] ++ artifact.attachments
  references ++ artifact.ownership.protocolLog.toList.filter (fun log => log ∉ references)

def validateStreams (artifact : ExecutionArtifact) (stdout stderr raw : Bytes) :
    Except String Unit :=
  require (D.validStreams artifact stdout stderr raw) "raw output reconstruction mismatch"

/-- The reads and comparisons that follow once the artifact itself is accepted. -/
def readExecutionFiles (s : Store) (artifact : ExecutionArtifact) (path : Path) :
    Except String Unit := do
  require (artifact.stdout.path = executionFile artifact ["stdout.bin"] ∧
      artifact.stderr.path = executionFile artifact ["stderr.bin"] ∧
      artifact.rawOutput.path = executionFile artifact ["raw.log"])
    "execution streams escape owner"
  require (∀ attachment ∈ artifact.attachments, underAttachments artifact attachment.path)
    "attachment escapes execution owner"
  require (∀ log ∈ artifact.ownership.protocolLog, underAttachments artifact log.path)
    "ownership protocol log escapes owner"
  let references := executionReferences artifact
  require (references.map FileRef.path).Nodup "duplicate execution file ownership"
  forM references (fun reference => do
    let _ ← readFileRef D s reference
    pure ())
  let actual ← walk s (underExecution artifact.executionKey artifact.attemptId)
  require (actual.Perm (references.map FileRef.path ++ [path]))
    "execution tree contains unbound or missing files"
  let stdout ← readFileRef D s artifact.stdout
  let stderr ← readFileRef D s artifact.stderr
  let raw ← readFileRef D s artifact.rawOutput
  validateStreams D artifact stdout stderr raw

def readExecution (s : Store) (reference : ExecutionRef) (expected : Option ExecutionDescriptor) :
    Except String ExecutionArtifact := do
  match reference.path with
  | .execution key attempt ["execution.json"] => do
    require (key = reference.executionKey) "noncanonical execution path"
    let bytes ← readBytes s reference.path
    require (D.bytes bytes = reference.hash) "execution reference hash mismatch"
    let artifact ← asExecution bytes
    validateExecutionArtifact D artifact
    require (artifact.artifactId = reference.artifactId ∧
        artifact.executionKey = reference.executionKey ∧ artifact.attemptId = attempt)
      "execution reference identity mismatch"
    assertArtifactIdentity D artifact expected
    readExecutionFiles D s artifact reference.path
    pure artifact
  | _ => throw "v4 store: noncanonical execution path"

/-- What a successful read says about the artifact it returns. -/
structure Archived (s : Store) (reference : ExecutionRef) (artifact : ExecutionArtifact) :
    Prop where
  path : reference.path = executionPath reference.executionKey artifact.attemptId
  stored : ∃ spelling, lookup s reference.path =
    some ⟨reference.path,⟨.execution artifact,spelling⟩,1⟩
  key : artifact.executionKey = reference.executionKey
  valid : validateExecutionArtifact D artifact = .ok ()

section Facts

variable {D} {s s' : Store} {reference : ExecutionRef} {expected : Option ExecutionDescriptor}
  {artifact : ExecutionArtifact}

theorem asExecution_ok {b : Bytes} : asExecution b = .ok artifact ↔ b.content = .execution artifact := by
  rw [asExecution, decoded_ok]
  cases b.content <;> simp

theorem readExecution_archived (h : readExecution D s reference expected = .ok artifact) :
    Archived D s reference artifact := by
  unfold readExecution at h
  split at h
  · next key attempt path =>
    simp only [bind_ok, exists_unit, require_ok, readBytes_ok, pure_ok, asExecution_ok] at h
    obtain ⟨rfl,bytes,stored,_,decoded,content,valid,⟨_,hkey,hattempt⟩,_,_,rfl⟩ := h
    obtain ⟨_,spelling⟩ := bytes
    obtain rfl := content
    exact ⟨by rw [path, hattempt, executionPath],⟨spelling,stored⟩,hkey,valid⟩
  · simp at h

theorem readExecution_key (h : readExecution D s reference expected = .ok artifact) :
    artifact.executionKey = D.executionKey artifact.descriptor := by
  have valid := (readExecution_archived h).valid
  simp only [validateExecutionArtifact, bind_ok, exists_unit, check_ok] at valid
  obtain ⟨_,_,_,_,_,key,_⟩ := valid
  exact key

theorem readExecution_descriptor (h : readExecution D s reference expected = .ok artifact) :
    validateExecutionDescriptor D artifact.descriptor = .ok () := by
  have valid := (readExecution_archived h).valid
  simp only [validateExecutionArtifact, bind_ok, exists_unit] at valid
  exact valid.1

/-- Two references to one place that both read give one artifact. -/
theorem readExecution_unique {reference' : ExecutionRef} {expected' : Option ExecutionDescriptor}
    {artifact' : ExecutionArtifact} (h : readExecution D s reference expected = .ok artifact)
    (h' : readExecution D s reference' expected' = .ok artifact')
    (e : reference.path = reference'.path) : artifact = artifact' := by
  obtain ⟨_,stored⟩ := (readExecution_archived h).stored
  obtain ⟨_,stored'⟩ := (readExecution_archived h').stored
  rw [← e, stored] at stored'
  simp only [Option.some.injEq, File.mk.injEq, Bytes.mk.injEq, Content.execution.injEq] at stored'
  exact stored'.2.1.1

theorem walk_ok {inside : Path → Bool} {paths : List Path} :
    walk s inside = .ok paths ↔
      (∀ f ∈ s.files.filter (fun f => inside f.path), f.links = 1) ∧
        (s.files.filter (fun f => inside f.path)).map File.path = paths := by
  simp only [walk, bind_ok, exists_unit, forM_ok, require_ok, pure_ok]

theorem readExecutionFiles_extends (h : Extends s s') {path : Path}
    (hc : Committed s artifact.executionKey artifact.attemptId)
    (hr : readExecutionFiles D s artifact path = .ok ()) :
    readExecutionFiles D s' artifact path = .ok () := by
  have same := h.closed _ _ hc
  unfold executionFiles at same
  have kept := fun reference b => readFileRef_stable D reference s s' b h
  simp only [readExecutionFiles, bind_ok, exists_unit, require_ok, forM_ok, pure_ok, and_true,
    walk_ok] at hr ⊢
  obtain ⟨streams,attached,logged,distinct,each,paths,walked,complete,
    out,hout,err,herr,raw,hraw,valid⟩ := hr
  refine ⟨streams,attached,logged,distinct,?_,paths,same ▸ walked,complete,
    out,kept _ _ hout,err,kept _ _ herr,raw,kept _ _ hraw,valid⟩
  intro ref href
  obtain ⟨bytes,hb⟩ := each ref href
  exact ⟨bytes,kept _ _ hb⟩

/-- A committed execution reads the same in every later store. -/
theorem readExecution_stable (reference : ExecutionRef) (expected : Option ExecutionDescriptor) :
    Stable Extends (fun s => readExecution D s reference expected) := by
  intro s s' artifact h hr
  have archived := readExecution_archived hr
  have committed : Committed s artifact.executionKey artifact.attemptId := by
    obtain ⟨_,stored⟩ := archived.stored
    rw [Committed, archived.key, ← archived.path, stored]
    rfl
  simp only [readExecution] at hr ⊢
  split at hr
  · next key attempt path =>
    simp only [bind_ok, exists_unit, require_ok, pure_ok] at hr ⊢
    obtain ⟨hk,bytes,read,hashed,decoded,hd,valid,identity,bound,files,rfl⟩ := hr
    exact ⟨hk,bytes,h.kept _ _ read,hashed,decoded,hd,valid,identity,bound,
      readExecutionFiles_extends h committed files,rfl⟩
  · simp at hr

end Facts

end ExecutionArchive

end EvidenceV4
