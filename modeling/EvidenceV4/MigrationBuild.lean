import EvidenceV4.MigrationInputs

/-!
# A migration from inventory to preflight

After the translators ran, every legacy file without a verbatim mapping is planned
below the history root, and each destination is compared with what the project
holds. Nothing is written: a migration with an unsupported row or a conflict is
blocked.
-/

set_option autoImplicit false

namespace EvidenceV4

namespace Migration

open CheckerJson (PyString points)
open PolicyDocument (mapGet)
open PythonData
open RepositoryTree (parsePath)

section History

variable (project : Project)

def isExecutable (path : PyString) : Bool :=
  match mapGet project.files path with
  | some file => file.2
  | none => false

def historyWrite (path : PyString) (data : Bytes) : PlannedWrite :=
  ⟨historyPath path,data,.create,if isExecutable project path then some 0o755 else none,false,false,[]⟩

/-- A file that no row classifies yet is history. -/
def classifyHistory (classified : List PyString) (path : PyString) : Step Unit :=
  if path ∈ classified then pure () else preserved path "legacy history, byte-for-byte"

def copyHistory (classified : List PyString) (path : PyString) : Step Unit := do
  let data ← readBytes project path
  match data with
  | none => pure ()
  | some data => do
    planWrite (historyWrite project path data)
    classifyHistory classified path

def preserveFile (classified : List PyString) (path : PyString) : Step Unit := do
  let skip ← Raising.asking (fun plan => pure plan.historySkip)
  if path ∈ skip then pure () else copyHistory project classified path

/-- `_preserve_history` -/
def preserveHistory : Step Unit := do
  let plan ← Raising.asking (fun plan => pure plan)
  forM plan.legacyFiles (preserveFile project (plan.artifacts.map Artifact.source))

end History

section Preflight

variable (project : Project) (library : Library)

/-- What preflight finds at a destination: the action of the write, and a conflict. -/
structure Verdict where
  write : PlannedWrite
  conflicts : List PyString

def inConflict (write : PlannedWrite) (message : PyString) : Verdict :=
  ⟨{ write with action := .conflict },[say [write.path,": ",message]]⟩

/-- The first ancestor of a missing destination that is no directory. -/
def blockingAncestor (path : PyString) : Option PyString :=
  let ancestors := ((parsePath path).parts.dropLast.inits.drop 1).reverse
  (ancestors.find? (fun parts => project.present (project.root ++ parts) &&
    !project.isDir (project.root ++ parts))).map asPosix

def whenMissing (write : PlannedWrite) : Verdict :=
  match blockingAncestor project write.path with
  | some ancestor => inConflict write (say [ancestor," is not a directory"])
  | none => ⟨write,[]⟩

def withDetail (write : PlannedWrite) (detail : PyString) : PlannedWrite :=
  { write with detail := if write.detail = [] then detail else write.detail }

/-- A destination whose bytes are those of the write. -/
def whenIdentical (write : PlannedWrite) : PlannedWrite :=
  let settled := { write with action := .identical }
  if write.keepExisting then withDetail settled (say [write.path,
    " already holds exactly these bytes: it is identical to the ",
    "source, so there is nothing to stage and nothing was written"])
  else settled

def whenPresentWith (write : PlannedWrite) (current : Bytes) (mode : ℕ) : Verdict :=
  if current = write.data then ⟨whenIdentical write,[]⟩
  else if write.adopt then ⟨{ write with action := .adopt, mode := some mode },[]⟩
  else if write.keepExisting then
    ⟨withDetail { write with action := .alreadyStaged } (say [write.path,
      " already exists and differs from the source (have sha256:",library.sha256 current,
      ", source sha256:",library.sha256 write.data,"): ",
      "kept exactly as it is, because a staged remediation is expected to differ ",
      "from the ledger it was staged from. Nothing was written"]),[]⟩
  else inConflict write (say ["exists with different content (have sha256:",library.sha256 current,
    ", would write sha256:",library.sha256 write.data,")"])

def checkContent (write : PlannedWrite) : Verdict :=
  let destination := project.at write.path
  match project.readBytes destination with
  | .error error => inConflict write (say ["destination is unreadable (",error,")"])
  | .ok current => whenPresentWith library write current (project.mode destination)

/-- One destination of the preflight. -/
def checkDestination (write : PlannedWrite) : Verdict :=
  let destination := project.at write.path
  match symlinkedComponent project write.path, unwritableAncestor project write.path with
  | some link, _ => inConflict write (say [link,
      " is a symlink; a write through it would leave the .fv ",
      "tree this migration is allowed to write"])
  | none, some ancestor => inConflict write (say [ancestor,
      " is not writable, so this destination cannot be created"])
  | none, none =>
    if project.isDir destination then inConflict write "destination is a directory"
    else if project.present destination = false then whenMissing project write
    else checkContent project library write

def stagingRelative : PyString := ".fv/.migrate-staging"

/-- `_preflight_staging` -/
def checkStaging : List PyString :=
  let staging := project.at stagingRelative
  match symlinkedComponent project stagingRelative,
      unwritableAncestor project (child stagingRelative "run") with
  | some link, _ => [say [stagingRelative,": ",link,
      " is a symlink; every migrated byte is staged ",
      "under this prefix first, so a write through it would leave the .fv tree this ",
      "migration is allowed to write"]]
  | none, unwritable =>
    if project.present staging = true ∧ project.isDir staging = false then
      [say [stagingRelative,": staging prefix exists and is not a directory, so no run ",
        "can stage under it"]]
    else match unwritable with
      | some ancestor => [say [stagingRelative,": ",ancestor,
          " is not writable, so this migration cannot stage its writes"]]
      | none => []

def pending (write : PlannedWrite) : Bool := write.action = .create ∨ write.action = .adopt

/-- `_preflight`, over the writes by destination. -/
def preflight : Step Unit :=
  Raising.modify (fun plan =>
    let verdicts := (plan.writes.insertionSort (fun a b => a.path ≤ b.path)).map
      (checkDestination project library)
    let writes := verdicts.map Verdict.write
    { plan with
      writes := writes
      conflicts := plan.conflicts ++ verdicts.flatMap Verdict.conflicts ++
        (if writes.any pending then checkStaging project else []) })

end Preflight

section Build

variable (project : Project) (installation : Installation)

def electTarget : Step (Option PyString) := do
  let target ← migrateIntent project installation.toHost
  Raising.modify (fun plan => { plan with targetSpec := target })
  pure target

/-- The translators, between the inventory and the history. -/
def translate : Step Unit := do
  let target ← electTarget project installation
  migrateLedger project installation.toLibrary
  migrateObligations project installation.toHost
  migratePlan project installation.toHost
  checkRequiredEvidence installation.toHost
  migrateVerifiedInputs project installation
  migrateDispatch project installation.toHost installation.template target

def gather : Step Unit := do
  scan project
  translate project installation
  preserveHistory project

/-- `build` -/
def buildStep : Step Unit := do
  gather project installation
  preflight project installation.toLibrary

/-- The plan of a migration that was built without an exception. -/
def build : Except MigrationFailure Plan :=
  match buildStep project installation emptyPlan with
  | (.ok _,plan) => .ok plan
  | (.error failure,_) => .error failure

def blocked (plan : Plan) : Bool := !plan.unsupported.isEmpty || !plan.conflicts.isEmpty

end Build

end Migration

end EvidenceV4
