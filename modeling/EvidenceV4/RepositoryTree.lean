import EvidenceV4.EvidenceArtifact

/-!
# Paths of the repository

A path in a record is text. The gate joins it to the root, lets the file system
resolve it, and reads the file only when the result is inside the root. Without
symbolic links, resolving drops each component that a parent step cancels.
-/

set_option autoImplicit false

namespace EvidenceV4

namespace RepositoryTree

open CheckerJson (PyString points)
open EvidenceArtifact (decode)
open PythonData

structure PosixPath where
  absolute : Bool
  parts : List PyString

def parent : PyString := ".."

/-- `Path(text)`: empty components and single dots are dropped, parent steps stay. -/
def parsePath (text : PyString) : PosixPath :=
  { absolute := text.head? == some 47
    parts := (text.splitOn 47).filter (fun part => part != [] && part != [46]) }

structure Tree where
  root : List PyString
  resolve : List PyString → Except PyError (List PyString)
  isFile : List PyString → Except PyError Bool
  readBytes : List PyString → Except PyError (List UInt8)

/-- `(repo_root / text)` before it is resolved. -/
def Tree.join (tree : Tree) (path : PosixPath) : List PyString :=
  if path.absolute then path.parts else tree.root ++ path.parts

def Tree.inside (tree : Tree) (path : List PyString) : Bool := tree.root.isPrefixOf path

/-- One component of a path in a tree without links. -/
def climb (above : List PyString) (part : PyString) : List PyString :=
  if part = parent then above.dropLast else above ++ [part]

def collapse (parts : List PyString) : List PyString := parts.foldl climb []

/-- The tree has no symbolic links, so that resolving is a matter of the components. -/
def Linkless (tree : Tree) : Prop :=
  ∀ parts path, tree.resolve parts = .ok path → path = collapse parts

variable (library : Library) (tree : Tree)

/-- A path of the record that stays inside the repository. -/
def containedPathDefect (value : PyData) (field label : PyString) : Except PyError (List PyString) :=
  match (textOf value).filter (fun text => !blank text) with
  | none => pure [say [label,field," is not a repo-relative path: ",library.repr value]]
  | some text =>
    let candidate := parsePath text
    let escapes := [say [label,field," escapes repository root: ",library.repr value]]
    if candidate.absolute = true ∨ parent ∈ candidate.parts then pure escapes
    else do
      let resolved ← tree.resolve (tree.join candidate)
      pure (if tree.inside resolved = true then [] else escapes)

/-- The decoded bytes, when their digest is the stored one. -/
def committed (expected : PyData) (label : PyString) (raw : List UInt8) :
    List PyString × Option PyString :=
  let actual := library.sha256 raw
  if equal expected (.str actual) = true then ([],some (decode raw))
  else ([say [label,"raw output hash mismatch: stored=",library.repr expected," recomputed=",
    actual]],none)

def readResolved (relative : PyString) (expected : PyData) (label : PyString)
    (path : List PyString) : Except PyError (List PyString × Option PyString) := do
  let found ← tree.isFile path
  match found with
  | false => pure ([say [label,"unresolvable raw artifact: ",relative]],none)
  | true => do
    let raw ← tree.readBytes path
    pure (committed library expected label raw)

/-- The text of an artifact, when the record commits to the bytes of the file. -/
def readArtifact (relative expected : PyData) (label : PyString) :
    Except PyError (List PyString × Option PyString) :=
  match (textOf relative).filter (fun text => !blank text) with
  | none => pure ([say [label,"unresolvable raw artifact: missing binding raw_output_path"]],none)
  | some text => do
    let path ← tree.resolve (tree.join (parsePath text))
    if (parsePath text).absolute = true ∨ tree.inside path = false then
      pure ([say [label,"unresolvable raw artifact: path escapes repository root"]],none)
    else readResolved library tree text expected label path

end RepositoryTree

end EvidenceV4
