import EvidenceV4.MigrationBuild
import EvidenceV4.RaisingTriples
import EvidenceV4.DiskTree

/-!
# The writes of a migration

`apply` stages every new file below a directory of its own, moves what is already
at a destination aside, moves the staged file there, and rolls back when a call
fails. Any call of the file system can fail, also those of the roll-back.
-/

set_option autoImplicit false

namespace EvidenceV4

namespace MigrationApply

open DiskTree
open CheckerJson (PyString points)
open Migration (PlannedWrite)
open RepositoryTree (parsePath)

/-- A file with what a rename keeps of it. -/
structure Inode where
  number : ℕ
  bytes : List UInt8
  mode : ℕ
  deriving DecidableEq

abbrev Place := DiskTree.Path PyString

abbrev Disk := DiskTree.Disk PyString Inode

/-- What becomes of a call: a write can leave a part of its bytes. -/
inductive Fault
  | passed
  | refused
  | torn (length : ℕ)
  | kept (paths : List Place)
  deriving DecidableEq

inductive ApplyError
  | osError
  | appeared (path : PyString)
  | blocked
  deriving DecidableEq

structure Moved where
  write : PlannedWrite
  destination : Place
  original : Option Place
  landed : Bool

/-- The disk and the variables of `apply`. -/
structure Work where
  disk : Disk
  made : Option Place
  staging : Option Place
  created : List Place
  touched : List Moved
  current : Option PlannedWrite

/-- The work with what becomes of the calls ahead and the number of the next new file. -/
structure Run extends Work where
  faults : List Fault
  next : ℕ

abbrev Act (α : Type) := Raising ApplyError Run α

section Paths

def fv : PyString := points ".fv"

def stagingRoot : Place := [fv,points ".migrate-staging"]

def destination (write : PlannedWrite) : Place := (parsePath write.path).parts

/-- The path relative to `.fv`. -/
def inside (write : PlannedWrite) : Place := (destination write).tail

def staged (staging : Place) (write : PlannedWrite) : Place :=
  staging ++ points "new" :: inside write

def aside (staging : Place) (write : PlannedWrite) : Place :=
  staging ++ points "saved" :: inside write

end Paths

section Calls

/-- What a call leaves behind, apart from the disk. -/
def Run.spent (run : Run) : Run := { run with faults := run.faults.tail, next := run.next + 1 }

def Run.onDisk (run : Run) (disk : Disk) : Run := { run with disk := disk }

/-- A call of the file system; `part` is what a write leaves that fails half way. -/
def system (part : ℕ → Run → Option Disk) (effect : Run → Option Disk) : Act Unit := fun run =>
  match run.faults.headD .passed with
  | .passed =>
    match effect run with
    | some disk => (.ok (),run.spent.onDisk disk)
    | none => (.error .osError,run.spent)
  | .torn length => (.error .osError,run.spent.onDisk ((part length run).getD run.disk))
  | _ => (.error .osError,run.spent)

def untorn : ℕ → Run → Option Disk := fun _ _ => none

def call (effect : Disk → Option Disk) : Act Unit := system untorn (fun run => effect run.disk)

/-- A question to the file system that can fail, or a guard that it answers. -/
def check : Act Unit := call some

def content (mode : ℕ) (bytes : List UInt8) (run : Run) : Option Inode → Inode
  | some inode => { inode with bytes := bytes }
  | none => ⟨run.next,bytes,mode⟩

/-- `write_bytes`, for a new file with the mode that the umask leaves. -/
def writeBytes (mode : ℕ) (path : Place) (bytes : List UInt8) : Act Unit :=
  system (fun length run => write run.disk path (content mode (bytes.take length) run))
    (fun run => write run.disk path (content mode bytes run))

def remode (disk : Disk) (path : Place) (mode : ℕ) : Option Disk :=
  match get disk path with
  | some (.file inode) => some (put disk path (.file { inode with mode := mode }))
  | _ => none

def chmod (path : Place) (mode : ℕ) : Act Unit := call (fun disk => remode disk path mode)

/-- The components that do not exist, deepest first. -/
def missing (disk : Disk) (directory : Place) : List Place :=
  directory.inits.reverse.takeWhile (fun path => get disk path = none)

def addMissing (directory : Place) : Act (List Place) := do
  check
  let paths ← Raising.asking (fun run => .ok (missing run.disk directory))
  forM paths.reverse (fun path => call (fun disk => mkdir disk path))
  pure paths.reverse

/-- `created.extend(self._make_dirs(directory))` -/
def makeDirs (directory : Place) : Act Unit := do
  let made ← addMissing directory
  Raising.modify (fun run => { run with created := run.created ++ made })

def isDir (disk : Disk) (path : Place) : Option Disk := if get disk path = some .dir then some disk else none

/-- `mkdir(parents=True, exist_ok=True)` -/
def mkdirParents (directory : Place) : Act Unit := do
  let _ ← addMissing directory
  call (fun disk => isDir disk directory)

end Calls

section Apply

variable (mode : ℕ) (name : PyString)

def Work.change (work : Work) (f : Moved → Moved) : Work :=
  { work with touched := work.touched.modifyHead f }

/-- The directory of this run, whose unused name `mkdtemp` picks. -/
def runDirectory : Place := stagingRoot ++ [name]

def makeRunDirectory : Act Unit := do
  check
  makeDirs stagingRoot
  call (fun disk => mkdir disk (runDirectory name))
  Raising.modify (fun run => { run with made := some (runDirectory name) })
  check
  Raising.modify (fun run => { run with staging := some (runDirectory name) })

def begin (write : PlannedWrite) : Act Unit :=
  Raising.modify (fun run => { run with current := some write })

/-- The first loop of `apply`: a file with the bytes and the mode of each write. -/
def stage (write : PlannedWrite) : Act Unit := do
  begin write
  let path := staged (runDirectory name) write
  mkdirParents path.dropLast
  writeBytes mode path write.data
  match write.mode with
  | some mode => chmod path mode
  | none => pure ()

/-- The touched destinations stand newest first. -/
def touch (write : PlannedWrite) : Act Unit :=
  Raising.modify (fun run => { run with touched := ⟨write,destination write,none,false⟩ :: run.touched })

def setAside (write : PlannedWrite) : Act Unit := do
  let path := aside (runDirectory name) write
  mkdirParents path.dropLast
  call (fun disk => replace disk (destination write) path)
  Raising.modify (fun run => { run with
    toWork := run.change (fun moved => { moved with original := some path }) })

def land (write : PlannedWrite) : Act Unit := do
  call (fun disk => replace disk (staged (runDirectory name) write) (destination write))
  Raising.modify (fun run => { run with
    toWork := run.change (fun moved => { moved with landed := true }) })

def isFile (disk : Disk) (path : Place) : Bool :=
  match get disk path with
  | some (.file _) => true
  | _ => false

def moveIn (disk : Disk) (write : PlannedWrite) : Act Unit := do
  touch write
  check
  if isFile disk (destination write) then do
    setAside name write
    land name write
  else
    land name write

/-- The second loop of `apply`. -/
def move (write : PlannedWrite) : Act Unit := do
  begin write
  makeDirs (destination write).dropLast
  check
  let disk ← Raising.asking (fun run => .ok run.disk)
  if write.keepExisting ∧ get disk (destination write) ≠ none then
    Raising.lift (.error (.appeared write.path))
  else
    moveIn name disk write

def body (writes : List PlannedWrite) : Act Unit := do
  makeRunDirectory name
  forM writes (stage mode name)
  forM writes (move name)

end Apply

section Recovery

def restore (moved : Moved) : Act Unit :=
  match moved.original with
  | some original => call (fun disk => replace disk original moved.destination)
  | none => if moved.landed then call (fun disk => unlink disk moved.destination) else pure ()

structure Losses where
  stranded : List PyString
  lost : List PyString

def Losses.add (losses : Losses) (moved : Moved) : Losses :=
  if moved.landed then { losses with stranded := moved.write.path :: losses.stranded }
  else { losses with lost := moved.write.path :: losses.lost }

/-- `_rollback`, over the touched destinations from the newest. -/
def rollback : List Moved → Losses → Run → Losses × Run
  | [],losses,run => (losses,run)
  | moved :: rest,losses,run =>
    match restore moved run with
    | (.ok _,run) => rollback rest losses run
    | (.error _,run) => rollback rest (losses.add moved) run

/-- `shutil.rmtree(path, ignore_errors=True)` -/
def removeTree (path : Place) (run : Run) : Run :=
  let kept := match run.faults.headD .passed with
    | .passed => []
    | .kept paths => paths
    | _ => [path]
  run.spent.onDisk (rmtree run.disk path kept)

/-- A call whose failure is ignored. -/
def attempt (effect : Disk → Option Disk) (run : Run) : Run := (call effect run).2

def discardStaging (staging : Option Place) (run : Run) : Run :=
  let run := match staging with
    | some staging => removeTree staging run
    | none => run
  attempt (fun disk => rmdir disk stagingRoot) run

def removeCreated (created : List Place) (run : Run) : Run :=
  created.foldr (fun path run => attempt (fun disk => rmdir disk path) run) run

/-- A run directory that its guard has refused. -/
def dropRunDirectory (run : Run) : Run :=
  match run.made, run.staging with
  | some path, none => attempt (fun disk => rmdir disk path) run
  | _, _ => run

inductive Outcome
  | written
  | lost
  | rolledBack
  | failed
  | pending
  deriving DecidableEq

def outcome (run : Run) (losses : Losses) (write : PlannedWrite) : Outcome :=
  if write.path ∈ losses.stranded then .written
  else if write.path ∈ losses.lost then .lost
  else if ∃ moved ∈ run.touched, moved.landed ∧ moved.write.path = write.path then .rolledBack
  else if run.current.map PlannedWrite.path = some write.path then .failed
  else .pending

/-- What an `apply` returns or raises, what it leaves on disk and what it reports of each write. -/
structure Applied where
  result : Except ApplyError (List PyString)
  disk : Disk
  outcome : PlannedWrite → Outcome

def recover (error : ApplyError) (run : Run) : Applied :=
  let after := dropRunDirectory run
  let (losses,restored) := rollback run.touched ⟨[],[]⟩ after
  let cleaned :=
    if losses.stranded = [] ∧ losses.lost = [] then discardStaging run.staging restored else restored
  ⟨.error error,(removeCreated run.created cleaned).disk,outcome run losses⟩

def start (disk : Disk) (faults : List Fault) (next : ℕ) : Run :=
  ⟨⟨disk,none,none,[],[],none⟩,faults,next⟩

variable (mode : ℕ) (name : PyString)

def applyWrites (writes : List PlannedWrite) (run : Run) : Applied :=
  match body mode name writes run with
  | (.ok _,after) =>
    ⟨.ok (after.touched.reverse.map (fun moved => moved.write.path)),(discardStaging after.staging after).disk,
      fun _ => .written⟩
  | (.error error,after) => recover error after

def pendingWrites (plan : Migration.Plan) : List PlannedWrite :=
  (plan.writes.insertionSort (fun a b => a.path ≤ b.path)).filter Migration.pending

def apply (plan : Migration.Plan) (run : Run) : Applied :=
  if Migration.blocked plan then ⟨.error .blocked,run.disk,fun _ => .pending⟩
  else if pendingWrites plan = [] then ⟨.ok [],run.disk,fun _ => .pending⟩
  else applyWrites mode name (pendingWrites plan) run

end Recovery

end MigrationApply

end EvidenceV4
