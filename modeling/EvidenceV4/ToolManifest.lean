import EvidenceV4.RawLog
import EvidenceV4.RequirementWalk

/-!
# The files of a tool

A tool identity lists the files of an installation, its directories and its
links. A link states what it resolves to: the facts of a file, or the digest of
a directory. The producer and the checker judge the list, and the producer fills
in the digests of the directories that links resolve to.
-/

set_option autoImplicit false

namespace EvidenceV4

namespace ToolManifest

open CheckedExcept
open PolicyDocument (mapGet)
open RawLog (encode)

section Files

abbrev FilePath := List Char

inductive ToolFile where
  | file (path : FilePath) (hash : Hash) (size : ℕ) (executable : Bool)
  | directory (path : FilePath)
  | symlinkFile (path target resolvedPath : FilePath) (resolvedHash : Hash) (resolvedSize : ℕ)
      (executable : Bool)
  | symlinkDirectory (path target resolvedPath : FilePath) (resolvedHash : Hash)
  deriving DecidableEq

def ToolFile.path : ToolFile → FilePath
  | .file path _ _ _ => path
  | .directory path => path
  | .symlinkFile path _ _ _ _ _ => path
  | .symlinkDirectory path _ _ _ => path

/-- The same entry under another path. -/
def ToolFile.moved (path : FilePath) : ToolFile → ToolFile
  | .file _ hash size executable => .file path hash size executable
  | .directory _ => .directory path
  | .symlinkFile _ target resolved hash size executable =>
    .symlinkFile path target resolved hash size executable
  | .symlinkDirectory _ target resolved hash => .symlinkDirectory path target resolved hash

def ToolFile.isLink : ToolFile → Bool
  | .symlinkFile .. => true
  | .symlinkDirectory .. => true
  | _ => false

def ToolFile.isDirectory : ToolFile → Bool
  | .directory _ => true
  | _ => false

def ToolFile.isFile : ToolFile → Bool
  | .file .. => true
  | _ => false

def ToolFile.executable : ToolFile → Bool
  | .file _ _ _ executable => executable
  | .symlinkFile _ _ _ _ _ executable => executable
  | _ => false

def byPath (files : List ToolFile) (path : FilePath) : Option ToolFile :=
  mapGet (files.map (fun file => (file.path,file))) path

def prefixOf (directory : FilePath) : FilePath := if directory = ['.'] then [] else directory ++ ['/']

def Below (directory path : FilePath) : Prop := path ≠ directory ∧ prefixOf directory <+: path

instance (directory path : FilePath) : Decidable (Below directory path) :=
  inferInstanceAs (Decidable (_ ∧ _))

def descendants (files : List ToolFile) (directory : FilePath) : List ToolFile :=
  files.filter (fun entry => Below directory entry.path)

/-- An entry as its directory names it. -/
def relative (directory : FilePath) (entry : ToolFile) : ToolFile :=
  entry.moved (entry.path.drop (prefixOf directory).length)

def pathOrder (a b : ToolFile) : Bool := decide (encode a.path ≤ encode b.path)

def sorted (files : List ToolFile) : List ToolFile := files.insertionSort (fun a b => pathOrder a b)

end Files

section Identity

inductive Kind where
  | executable | file | tree
  deriving DecidableEq

inductive Source where
  | registry (id checksum : List Char)
  | git (id revision : List Char)
  | path (path : FilePath)
  deriving DecidableEq

structure Package where
  name : List Char
  version : List Char
  source : Source
  deriving DecidableEq

/-- The digests of canonical encodings; that of a package is without its algorithm. -/
structure ToolDigests where
  directory : List ToolFile → Hash
  package : Package → List Char
  content : Kind → List ToolFile → List Package → String → Hash

/-- An identity that matches the schema; of a probe only its exit code is judged. -/
structure Identity where
  kind : Kind
  files : List ToolFile
  packages : List Package
  version : Option ℤ
  discovery : List ℤ
  systemDependencies : String
  digest : Hash
  filled : files ≠ []
  ascending : files.Pairwise (fun a b => encode a.path < encode b.path)

inductive Stop where
  | refused (message : String)
  | exhausted
  deriving DecidableEq

def demand (condition : Prop) [Decidable condition] (message : String) : Except Stop Unit :=
  check condition (.refused message)

/-- The path up to its last separator. -/
def parent (path : FilePath) : Option FilePath :=
  if '/' ∈ path then some ((path.reverse.dropWhile (· ≠ '/')).tail.reverse) else none

/-- The loop over the parents of a path; each is shorter than the one before. -/
def parents : ℕ → FilePath → List FilePath
  | 0, _ => []
  | n+1, path =>
    match parent path with
    | none => []
    | some above => above :: parents n above

/-- A git source names its revision behind the last hash sign of its id. -/
def packageIntrinsics (package : Package) : Except Stop Unit :=
  match package.source with
  | .git id revision =>
    demand ('#' ∈ id ∧ (id.reverse.takeWhile (· ≠ '#')).reverse = revision)
      "PackageIdentity git revision mismatch"
  | _ => pure ()

variable (D : ToolDigests)

def directoryDigest (files : List ToolFile) (directory : FilePath) : Hash :=
  D.directory (sorted ((descendants files directory).map (relative directory)))

/-- The producer's walk over a link and the links below what it resolves to. -/
def checkLink (files : List ToolFile) :
    ℕ → List FilePath → List FilePath → ToolFile → Except Stop (List FilePath)
  | _, _, done, .file .. => pure done
  | _, _, done, .directory _ => pure done
  | 0, _, _, _ => throw .exhausted
  | _+1, visiting, done, .symlinkFile path _ resolved hash size executable =>
    if path ∈ done then pure done
    else do
      demand (path ∉ visiting) "cyclic tool target-hash graph"
      demand (byPath files resolved = some (.file resolved hash size executable))
        "tool symlink-file target mismatch"
      pure (path :: done)
  | fuel+1, visiting, done, .symlinkDirectory path _ resolved hash =>
    if path ∈ done then pure done
    else do
      demand (path ∉ visiting) "cyclic tool target-hash graph"
      demand (byPath files resolved = some (.directory resolved))
        "tool symlink-directory target missing"
      let done ← (descendants files resolved).foldlM (checkLink files fuel (path :: visiting)) done
      demand (hash = directoryDigest D files resolved) "tool symlink-directory hash mismatch"
      pure (path :: done)

def checkLinks (files : List ToolFile) : Except Stop (List FilePath) :=
  files.foldlM (checkLink D files (files.length + 1) []) []

def checkParents (files : List ToolFile) : Except Stop Unit :=
  forM files (fun file => forM (parents file.path.length file.path) (fun above =>
    demand (byPath files above = some (.directory above))
      ("tool path has missing/non-directory parent: " ++ String.ofList file.path)))

/-- A tool that is no tree is one file. -/
def Single (x : Identity) : Prop :=
  x.files.length = 1 ∧ ∀ file ∈ x.files.head?, file.path = ['.'] ∧ file.isFile = true

instance (x : Identity) : Decidable (Single x) := inferInstanceAs (Decidable (_ ∧ _))

def packageRoot (package : Package) : FilePath := "packages/".toList ++ D.package package

def checkPackages (x : Identity) : Except Stop Unit :=
  forM x.packages (fun package =>
    demand (byPath x.files (packageRoot D package) = some (.directory (packageRoot D package)))
      "source-qualified package root missing")

def checkContent (x : Identity) : Except Stop Unit :=
  demand (x.digest = D.content x.kind x.files x.packages x.systemDependencies)
    "tool content digest mismatch"

/-- The producer. -/
def validateToolIdentity (x : Identity) : Except Stop Unit := do
  forM x.packages packageIntrinsics
  demand ((∀ code ∈ x.version, code = 0) ∧ ∀ code ∈ x.discovery, code = 0)
    "tool probe did not complete successfully"
  demand (x.kind ≠ .tree → Single x) "non-tree tool must have one regular root file"
  demand (x.kind = .executable →
      ∀ file ∈ x.files.head?, file.isFile = true ∧ file.executable = true)
    "tool executable bit absent"
  checkParents x.files
  let _ ← checkLinks D x.files
  checkPackages D x
  checkContent D x

end Identity

section Checker

variable (D : ToolDigests)

/-- The facts of a regular file. -/
def facts : ToolFile → Option (Hash × ℕ × Bool)
  | .file _ hash size executable => some (hash,size,executable)
  | _ => none

/-- The checker's walk. -/
def checkerLink (files : List ToolFile) :
    ℕ → List FilePath → List FilePath → ToolFile → Except Stop (List FilePath)
  | fuel, visiting, done, entry =>
    if entry.isLink = false then pure done
    else match fuel with
      | 0 => throw .exhausted
      | fuel+1 =>
        if entry.path ∈ done then pure done
        else do
          demand (entry.path ∉ visiting) "cyclic tool target-hash graph"
          let visiting := entry.path :: visiting
          let done ← match entry with
            | .symlinkFile _ _ resolved hash size executable => do
              demand ((byPath files resolved).bind facts = some (hash,size,executable))
                "tool symlink-file target mismatch"
              pure done
            | .symlinkDirectory _ _ resolved hash => do
              demand (((byPath files resolved).map ToolFile.isDirectory).getD false = true)
                "tool symlink-directory target missing"
              let start := if resolved = ['.'] then [] else resolved ++ ['/']
              let children := files.filter (fun child =>
                child.path ≠ resolved && start.isPrefixOf child.path)
              let done ← children.foldlM (checkerLink files fuel visiting) done
              let moved := children.map (fun child => child.moved (child.path.drop start.length))
              demand (hash = D.directory (sorted moved)) "tool symlink-directory hash mismatch"
              pure done
            | _ => pure done
          pure (entry.path :: done)

/-- The checker's `_tool_intrinsics`. -/
def toolIntrinsics (x : Identity) : Except Stop Unit := do
  demand (x.kind ≠ .tree → Single x) "non-tree tool must have one regular root file"
  demand (x.kind = .executable → ∀ file ∈ x.files.head?, file.executable = true)
    "tool executable bit absent"
  checkParents x.files
  let _ ← x.files.foldlM (checkerLink D x.files (x.files.length + 1) []) []
  checkPackages D x
  checkContent D x
  demand (∀ code ∈ x.version, code = 0) "tool version probe did not complete successfully"
  demand (∀ code ∈ x.discovery, code = 0) "tool discovery probe did not complete successfully"

/-- The checker judges the packages before the tool. -/
def sets (x : Identity) : Except Stop Unit := do
  forM x.packages packageIntrinsics
  toolIntrinsics D x

end Checker

end ToolManifest

end EvidenceV4
