import EvidenceV4.Raising
import EvidenceV4.RepositoryTree
import EvidenceV4.ScalarText

/-!
# The state of a migration

A migration inventories the legacy tree, plans writes below `.fv` and classifies
what it read. Each step changes the plan; a step may also end the migration with
an exception. Rows and writes are only ever added.
-/

set_option autoImplicit false

namespace EvidenceV4

namespace Migration

open CheckerJson (PyString points)
open PolicyDocument (mapGet)
open PythonData
open RepositoryTree (parsePath)

abbrev Bytes := List UInt8

inductive Classification where
  | mapped | preservedHistory | unsupported
  deriving DecidableEq

structure Artifact where
  source : PyString
  classification : Classification
  destination : Option PyString
  detail : PyString

inductive Action where
  | create | identical | adopt | alreadyStaged | conflict
  deriving DecidableEq

/-- Intended bytes for one destination below `.fv`. -/
structure PlannedWrite where
  path : PyString
  data : Bytes
  action : Action
  mode : Option ℕ
  adopt : Bool
  keepExisting : Bool
  detail : PyString

/-- An exception that ends a migration before it has a report. -/
inductive MigrationFailure where
  | migrationError (message : PyString)
  | unicodeEncodeError
  | runtimeError
  deriving DecidableEq

/-- What a migration gathered so far. -/
structure Plan where
  artifacts : List Artifact
  unsupported : List PyString
  conflicts : List PyString
  targetSpec : Option PyString
  writes : List PlannedWrite
  historySkip : List PyString
  legacyFiles : List PyString
  rebound : List (PyString × PyString)
  requiredLayers : Option (List PyString)
  claimLayers : List (PyString × List PyString)
  planTools : Option (List PyString)
  planBlocked : Bool

def emptyPlan : Plan := ⟨[],[],[],none,[],[],[],[],none,[],none,false⟩

abbrev Step := Raising MigrationFailure Plan

/-- The interpreter's library, as far as a migration passes values through it. -/
structure Host extends Library where
  dumps : PyData → PyString
  decodeError : Bytes → PyString
  wordCharacter : ℕ → Bool

section Paths

def legacyDirname : PyString := ".colosseum"

def legacyPath (name : PyString) : PyString := say [legacyDirname,"/",name]

def historyRelative : PyString := ".fv/history/colosseum"

/-- The path below a directory, when it is one. -/
def below (directory path : PyString) : Option PyString :=
  if (directory ++ [47]).isPrefixOf path then some (path.drop (directory.length+1)) else none

/-- A fragment names an item inside a file and is dropped. -/
def historyPath (source : PyString) : PyString :=
  let relative := source.takeWhile (· ≠ 35)
  say [historyRelative,"/",(below legacyDirname relative).getD relative]

/-- `path.as_posix()` of a relative path. -/
def asPosix (parts : List PyString) : PyString :=
  if parts = [] then "." else joined "/" parts

end Paths

section Bookkeeping

def mapped (source destination detail : PyString) (verbatim : Bool) : Step Unit :=
  Raising.modify (fun plan => { plan with
    artifacts := plan.artifacts ++ [⟨source,.mapped,some destination,detail⟩]
    historySkip := if verbatim then plan.historySkip ++ [source] else plan.historySkip })

def preserved (source detail : PyString) : Step Unit :=
  Raising.modify (fun plan => { plan with
    artifacts := plan.artifacts ++ [⟨source,.preservedHistory,some (historyPath source),detail⟩] })

def deviation (source destination detail : PyString) : Step Unit :=
  Raising.modify (fun plan => { plan with
    artifacts := plan.artifacts ++ [⟨source,.mapped,some destination,detail⟩] })

def unsupported (source detail : PyString) : Step Unit :=
  Raising.modify (fun plan => { plan with
    artifacts := plan.artifacts ++ [⟨source,.unsupported,none,detail⟩]
    unsupported := plan.unsupported ++ [say [source,": ",detail]] })

def conflict (message : PyString) : Step Unit :=
  Raising.modify (fun plan => { plan with conflicts := plan.conflicts ++ [message] })

def raise {α : Type} (failure : MigrationFailure) : Step α := Raising.lift (.error failure)

/-- The writes with one more, unless its destination has these bytes already. -/
def recordWrite (writes : List PlannedWrite) (write : PlannedWrite) :
    Except MigrationFailure (List PlannedWrite) :=
  match writes.find? (fun existing => existing.path = write.path) with
  | some existing =>
    if existing.data = write.data then pure writes
    else throw (.migrationError (say ["two sources disagree about ",write.path]))
  | none => pure (writes ++ [write])

def planWrite (write : PlannedWrite) : Step Unit := do
  Raising.lift (CheckedExcept.check (points ".fv/" <+: write.path)
    (.migrationError (say ["refusing to write outside .fv: ",write.path])))
  let writes ← Raising.asking (fun plan => recordWrite plan.writes write)
  Raising.modify (fun plan => { plan with writes := writes })

/-- A write with the defaults of `_plan_write`. -/
def plainWrite (path : PyString) (data : Bytes) : PlannedWrite :=
  ⟨path,data,.create,none,false,false,[]⟩

/-- `canonical_json`, which raises on a lone surrogate. -/
def canonicalJson (host : Host) (document : PyData) : Except MigrationFailure Bytes :=
  let text := host.dumps document ++ [10]
  if text.all (fun point => !JsonText.isSurrogate point) then pure (ScalarText.encode text)
  else throw .unicodeEncodeError

/-- `data.decode("utf-8")`: the bytes of some text, or none. -/
def decodeStrict (data : Bytes) : Option PyString :=
  let text := EvidenceArtifact.decode data
  if ScalarText.encode text = data then some text else none

end Bookkeeping

section Inventory

/-- An entry of the legacy tree as its owner finds it, the children of a directory in the order
of their names. -/
inductive LegacyEntry where
  | file (data : Except PyString Bytes) (executable : Bool)
  | directory (children : List (PyString × LegacyEntry))
  | unlistable (error : PyString)
  | symlink
  | special

/-- What reading a file gives, and whether it is executable. -/
abbrev LegacyFile := Except PyString Bytes × Bool

def child (path name : PyString) : PyString := say [path,"/",name]

mutual

/-- The regular files of an entry by path, in the order of the walk. -/
def filesOf (path : PyString) : LegacyEntry → List (PyString × LegacyFile)
  | .file data executable => [(path,data,executable)]
  | .directory children => filesBelow path children
  | _ => []

def filesBelow (path : PyString) : List (PyString × LegacyEntry) → List (PyString × LegacyFile)
  | [] => []
  | (name,entry) :: rest => filesOf (child path name) entry ++ filesBelow path rest

end

def addLegacyFile (path : PyString) : Step Unit :=
  Raising.modify (fun plan => { plan with legacyFiles := plan.legacyFiles ++ [path] })

mutual

def walk (path : PyString) : LegacyEntry → Step Unit
  | .file _ _ => addLegacyFile path
  | .directory children => walkBelow path children
  | .unlistable error => unsupported path (say ["directory cannot be listed: ",error,
      "; the files under it cannot be inventoried, so none of them can be classified"])
  | .symlink => unsupported path (say ["symlink: copying it would either duplicate its target's ",
      "bytes under a different identity or leave a dangling link"])
  | .special => unsupported path "not a regular file: no bytes to preserve"

def walkBelow (path : PyString) : List (PyString × LegacyEntry) → Step Unit
  | [] => pure ()
  | (name,entry) :: rest => do
    walk (child path name) entry
    walkBelow path rest

end

inductive GateOutcome where
  | passed | rejected | unavailable
  deriving DecidableEq

/-- The project as the migration finds it: the legacy tree, the paths below the root, and the
verdict of Gate A over a ledger at one of them. -/
structure Project where
  root : List PyString
  legacy : Option LegacyEntry
  isSymlink : List PyString → Bool
  isDir : List PyString → Bool
  isFile : List PyString → Bool
  present : List PyString → Bool
  writable : List PyString → Bool
  resolve : List PyString → Except MigrationFailure (List PyString)
  readBytes : List PyString → Except PyString Bytes
  mode : List PyString → ℕ
  gateA : PyString → GateOutcome × PyString

variable (project : Project)

/-- `self.project / path` for a relative path. -/
def Project.at (path : PyString) : List PyString := project.root ++ (parsePath path).parts

/-- The text of an absolute path. -/
def shown (parts : List PyString) : PyString := say ["/",joined "/" parts]

def Project.files : List (PyString × LegacyFile) :=
  match project.legacy with
  | some entry => filesOf legacyDirname entry
  | none => []

def Project.readLegacy (path : PyString) : Except PyString Bytes :=
  match mapGet project.files path with
  | some file => file.1
  | none => .error "[Errno 2] No such file or directory"

/-- `_scan`, which takes only a directory. -/
def scan : Step Unit :=
  match project.legacy with
  | some (.directory children) => walkBelow legacyDirname children
  | some (.unlistable error) => walk legacyDirname (.unlistable error)
  | _ => raise (.migrationError (say [shown (project.root ++ [legacyDirname]),
      ": no legacy .colosseum directory to migrate"]))

def inventoried (path : PyString) : Step Bool :=
  Raising.asking (fun plan => pure (plan.legacyFiles.contains path))

def readBytes (path : PyString) : Step (Option Bytes) :=
  match project.readLegacy path with
  | .ok data => pure (some data)
  | .error error => do
    unsupported path (say ["unreadable: ",error])
    pure none

/-- The decoded document, or nothing when the bytes are no JSON text. -/
def parseDocument (host : Host) (data : Bytes) : Option PyData :=
  (decodeStrict data).bind host.loads

/-- A document that cannot be read is reported and then looks like a null document. -/
def readJson (host : Host) (path : PyString) : Step PyData := do
  let data ← readBytes project path
  match data with
  | none => pure .none
  | some data =>
    match parseDocument host data with
    | some document => pure document
    | none => do
      unsupported path (say ["not readable JSON: ",host.decodeError data])
      pure .none

/-- The first symbolic link on the way from the root to a path. -/
def symlinkedComponent (path : PyString) : Option PyString :=
  (((parsePath path).parts.inits.drop 1).find? (fun parts =>
    project.isSymlink (project.root ++ parts))).map asPosix

/-- The nearest directory above a path that exists, when nothing can be written to it. -/
def unwritableAncestor (path : PyString) : Option PyString :=
  let ancestors := (parsePath path).parts.dropLast.inits.reverse
  let nearest := (ancestors.find? (fun parts => project.present (project.root ++ parts))).getD []
  let place := project.root ++ nearest
  if project.present place = false ∨ project.writable place = false then some (asPosix nearest)
  else none

end Inventory

end Migration

end EvidenceV4
