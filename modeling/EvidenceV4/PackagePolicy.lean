import EvidenceV4.PortableHistory

/-!
# Package provenance of adapter tools

A tool that an adapter found names the packages it was built from. Packages of
a registry or of git are looked up in the lock files of the current sources, and
a package of a path is compared with its manifest and with the files of the
tool. The documents are TOML, and an entry that is no table has no `get`.
-/

set_option autoImplicit false

namespace EvidenceV4

/-- A TOML value. A scalar that is no text is known by the name of its Python type. -/
inductive Toml where
  | text (value : String)
  | scalar (type : String)
  | array (items : List Toml)
  | table (fields : List (String × Toml))

inductive PackageSource where
  | registry (id checksum : String)
  | git (id revision : String)
  | path (directory : String)
  deriving DecidableEq

structure CargoPackage where
  name : String
  version : String
  source : PackageSource
  deriving DecidableEq

structure FileFacts where
  hash : Hash
  size : ℕ
  executable : Bool
  deriving DecidableEq

inductive ToolFile where
  | file (facts : FileFacts)
  | directory
  | symlinkFile (resolvedPath : String)
  | symlinkDirectory (resolvedPath : String)
  deriving DecidableEq

/-- The part of a tool identity that says where the tool comes from. `adapter` says that its locator
is that of cargo or of kani. -/
structure PackagedTool where
  adapter : Bool
  subject : List String
  packages : List CargoPackage
  files : List (String × ToolFile)

/-- Files of the sources, their reading as TOML and the digest of a package. -/
structure CargoSources where
  file : String → Except Reported Bytes
  toml : Bytes → Except String (List (String × Toml))
  label : CargoPackage → String

namespace PackagePolicy

open CheckedExcept PortableHistory
open PolicyDocument (mapGet)

abbrev Table := List (String × Toml)

variable (D : Digests) (cargo : CargoSources)

def Toml.type : Toml → String
  | .text _ => "str"
  | .scalar type => type
  | .array _ => "list"
  | .table _ => "dict"

/-- The table on which `get` is called. -/
def tableOf : Toml → Except Failure Table
  | .table fields => pure fields
  | value => throw ⟨.attributeError,"'" ++ Toml.type value ++ "' object has no attribute 'get'"⟩

def textAt (fields : Table) (key : String) : Option String :=
  match mapGet fields key with
  | some (.text value) => some value
  | _ => none

/-- The elements that a loop over the value sees. -/
def elements : Toml → Except Failure (List Toml)
  | .array items => pure items
  | .table fields => pure (fields.map (fun field => .text field.1))
  | .text value => pure (value.toList.map (fun c => .text (String.ofList [c])))
  | .scalar type => throw ⟨.typeError,"'" ++ type ++ "' object is not iterable"⟩

def isLock (path : String) : Bool := path == "Cargo.lock" || path.endsWith "/Cargo.lock"

/-- The packages of one lock file. -/
def lockPackages (entry : SourceFile) : Except Failure (List Toml) := do
  let data ← safely (cargo.file entry.path)
  check (D.bytes data = entry.hash) (v4Error "current Cargo.lock differs from closure")
  match cargo.toml data with
  | .error _ => throw (v4Error "invalid Cargo.lock package provenance")
  | .ok fields =>
    match mapGet fields "package" with
    | none => throw (v4Error "invalid Cargo.lock package provenance")
    | some packages => elements packages

def lockEntries (files : List SourceFile) : Except Failure (List Toml) := do
  let locks ← (files.filter (fun entry => isLock entry.path)).mapM (lockPackages D cargo)
  pure locks.flatten

/-- The file at a path of the recorded view, through the links that the view holds. -/
def toolFileAt (byPath : List (String × ToolFile)) : String → List String → Option FileFacts
  | _, [] => none
  | current, part :: rest =>
    let place := if current = "" ∨ current = "." then part else current ++ "/" ++ part
    match mapGet byPath place, rest with
    | none, _ => none
    | some (.file facts), [] => some facts
    | some (.symlinkFile resolved), [] =>
      match mapGet byPath resolved with
      | some (.file facts) => some facts
      | _ => none
    | some _, [] => none
    | some .directory, rest => toolFileAt byPath place rest
    | some (.symlinkDirectory resolved), rest =>
      match mapGet byPath resolved with
      | some .directory => toolFileAt byPath resolved rest
      | _ => none
    | some _, _ => none

def manifestOf (directory : String) : String :=
  if directory = "." then "Cargo.toml" else directory ++ "/Cargo.toml"

/-- Every bound input of the package stands unchanged in the tool. -/
def checkFiles (tool : PackagedTool) (label directory : String) (files : List SourceFile) :
    Except Failure Unit :=
  let start := if directory = "." then "" else directory ++ "/"
  forM (files.filter (fun file => file.path.startsWith start)) (fun expected =>
    let virtual := label ++ "/" ++ String.ofList (expected.path.toList.drop start.length)
    match toolFileAt tool.files.reverse "" (virtual.splitOn "/") with
    | none => throw (v4Error ("bound path-package input missing from tool manifest: " ++
        expected.path))
    | some supplied => check (supplied = ⟨expected.hash,expected.size,expected.executable⟩)
        (v4Error ("path package bytes differ from verified source closure: " ++ expected.path)))

/-- The declaration in the manifest of a package. -/
def declarationOf (directory : String) : Except Failure Table := do
  let data ← safely (cargo.file (manifestOf directory))
  match cargo.toml data with
  | .error message => throw ⟨.valueError,message⟩
  | .ok fields => tableOf ((mapGet fields "package").getD (.table []))

def checkDeclared (files : List SourceFile) (tool : PackagedTool) (package : CargoPackage)
    (directory : String) : Except Failure Unit := do
  let declaration ← declarationOf cargo directory
  check (textAt declaration "name" = some package.name)
    (v4Error "path package name differs from source manifest")
  check (∀ version ∈ textAt declaration "version", version = package.version)
    (v4Error "path package version differs from source manifest")
  checkFiles tool ("packages/" ++ cargo.label package) directory files

/-- The lock entries of a package. Each entry is asked for its fields. -/
def matchingEntries (lock : List Toml) (package : CargoPackage) (id : String) :
    Except Failure (List Table) := do
  let tables ← lock.mapM tableOf
  pure (tables.filter (fun fields => textAt fields "name" = some package.name ∧
    textAt fields "version" = some package.version ∧ textAt fields "source" = some id))

def checkLocked (lock : List Toml) (package : CargoPackage) (id : String)
    (checksum : Option String) : Except Failure Unit := do
  let matching ← matchingEntries lock package id
  check (matching ≠ []) (v4Error "recorded package not selected by bound Cargo.lock source")
  check (∀ sum ∈ checksum, ∃ fields ∈ matching, textAt fields "checksum" = some sum)
    (v4Error "registry package checksum differs from bound lock")

def checkPackage (lock : List Toml) (files : List SourceFile) (tool : PackagedTool)
    (package : CargoPackage) : Except Failure Unit :=
  match package.source with
  | .path directory => checkDeclared cargo files tool package directory
  | .registry id checksum => checkLocked lock package id (some checksum)
  | .git id _ => checkLocked lock package id none

def runtimeOnly : List String → Bool
  | [_] => true
  | [_,toolchain] => toolchain.startsWith "+"
  | _ => false

def checkTool (lock : List Toml) (files : List SourceFile) (tool : PackagedTool) :
    Except Failure Unit :=
  if tool.adapter then do
    check (runtimeOnly tool.subject ∨ tool.packages ≠ [])
      (v4Error "application adapter lacks source-qualified package graph")
    forM tool.packages (checkPackage cargo lock files tool)
  else pure ()

def packagePolicy (tools : List PackagedTool) (files : List SourceFile) : Except Failure Unit := do
  let lock ← lockEntries D cargo files
  forM tools (checkTool cargo lock files)

section Failures

variable {D cargo}

/-- A value on which `get` is not defined. -/
def Untabled : Toml → Prop
  | .table _ => False
  | _ => True

theorem tableOf_ok {value : Toml} : (∃ fields, tableOf value = .ok fields) ↔ ¬ Untabled value := by
  cases value <;> simp [tableOf, Untabled]

theorem tableOf_error {value : Toml} {failure : Failure} (h : tableOf value = .error failure) :
    Untabled value ∧ Escaping failure := by
  cases value
  case table fields => simp [tableOf] at h
  all_goals
    simp only [tableOf, throw_error] at h
    exact ⟨trivial,h ▸ rfl⟩

theorem tableOf_escapes {value : Toml} :
    (∃ failure, tableOf value = .error failure ∧ Escaping failure) ↔ Untabled value := by
  constructor
  · intro ⟨failure,h,_⟩
    exact (tableOf_error h).1
  · intro h
    cases found : tableOf value with
    | error failure => exact ⟨failure,rfl,(tableOf_error found).2⟩
    | ok fields => exact absurd h (tableOf_ok.mp ⟨fields,found⟩)

/-- The lookup of the package calls `get` on a value that is no table. -/
def PackageEscapes (cargo : CargoSources) (lock : List Toml) (package : CargoPackage) : Prop :=
  match package.source with
  | .path directory => ∃ data fields value, cargo.file (manifestOf directory) = .ok data ∧
      cargo.toml data = .ok fields ∧ mapGet fields "package" = some value ∧ Untabled value
  | _ => ∃ entry ∈ lock, Untabled entry

theorem tables_escape {lock : List Toml} :
    (∃ failure, lock.mapM tableOf = .error failure ∧ Escaping failure) ↔
      ∃ entry ∈ lock, Untabled entry := by
  induction lock with
  | nil => simp
  | cons entry lock ih =>
    simp only [List.mapM_cons, bind_error, pure_error, exists_false, and_false, or_false,
      List.exists_mem_cons_iff]
    constructor
    · rintro ⟨failure,h,escapes⟩
      rcases h with first | ⟨_,_,later⟩
      · exact .inl (tableOf_error first).1
      · exact .inr (ih.mp ⟨failure,later,escapes⟩)
    · intro h
      by_cases first : Untabled entry
      · obtain ⟨failure,raised,escapes⟩ := tableOf_escapes.mpr first
        exact ⟨failure,.inl raised,escapes⟩
      · obtain ⟨fields,passed⟩ := tableOf_ok.mpr first
        obtain ⟨failure,raised,escapes⟩ := ih.mpr (h.resolve_left first)
        exact ⟨failure,.inr ⟨fields,passed,raised⟩,escapes⟩

theorem checkLocked_escapes {lock : List Toml} {package : CargoPackage} {id : String}
    {checksum : Option String} :
    (∃ failure, checkLocked lock package id checksum = .error failure ∧ Escaping failure) ↔ ∃ entry ∈ lock, Untabled entry := by
  rw [← tables_escape]
  constructor
  · rintro ⟨failure,h,escapes⟩
    simp only [checkLocked, matchingEntries, bind_error, check_error, pure_error, or_false,
      exists_false, and_false] at h
    rcases h with raised | ⟨_,_,⟨_,rfl⟩ | ⟨_,_,_,rfl⟩⟩
    · exact ⟨failure,raised,escapes⟩
    · cases escapes
    · cases escapes
  · rintro ⟨failure,h,escapes⟩
    apply Exists.intro failure
    apply And.intro _ escapes
    simp only [checkLocked, matchingEntries, bind_error, h, true_or]

theorem checkFiles_reported {tool : PackagedTool} {label directory : String}
    {files : List SourceFile} :
    FailsIn Listed (checkFiles tool label directory files) := by
  apply failsIn_forM
  intro expected _
  dsimp only
  split
  · exact failsIn_throw rfl
  · exact failsIn_check rfl

theorem declarationOf_escapes {directory : String} :
    (∃ failure, declarationOf cargo directory = .error failure ∧ Escaping failure) ↔
      ∃ data fields value, cargo.file (manifestOf directory) = .ok data ∧
        cargo.toml data = .ok fields ∧ mapGet fields "package" = some value ∧ Untabled value := by
  constructor
  · rintro ⟨failure,h,escapes⟩
    simp only [declarationOf, bind_error, safely_error, safely_ok] at h
    rcases h with ⟨reported,_⟩ | ⟨data,read,h⟩
    · exact absurd escapes (not_escaping reported)
    · cases parsed : cargo.toml data with
      | error message =>
        rw [parsed] at h
        simp only [throw_error] at h
        subst h
        cases escapes
      | ok fields =>
        simp only [parsed] at h
        cases found : mapGet fields "package" with
        | none => simp [found, tableOf] at h
        | some value =>
          rw [found, Option.getD_some] at h
          exact ⟨data,fields,value,read,parsed,found,(tableOf_error h).1⟩
  · rintro ⟨data,fields,value,read,parsed,found,untabled⟩
    obtain ⟨failure,raised,escapes⟩ := tableOf_escapes.mpr untabled
    apply Exists.intro failure
    apply And.intro _ escapes
    rw [declarationOf, bind_error]
    apply Or.inr
    apply Exists.intro data
    apply And.intro ((safely_ok _ _).mpr read)
    simp only [parsed, found, Option.getD_some, raised]

theorem checkDeclared_escapes {files : List SourceFile} {tool : PackagedTool}
    {package : CargoPackage} {directory : String} :
    (∃ failure, checkDeclared cargo files tool package directory = .error failure ∧
      Escaping failure) ↔
      ∃ failure, declarationOf cargo directory = .error failure ∧ Escaping failure := by
  constructor
  · rintro ⟨failure,h,escapes⟩
    simp only [checkDeclared, bind_error, check_error] at h
    rcases h with raised | ⟨_,_,⟨_,rfl⟩ | ⟨_,_,⟨_,rfl⟩ | ⟨_,_,raised⟩⟩⟩
    · exact ⟨failure,raised,escapes⟩
    · cases escapes
    · cases escapes
    · exact absurd escapes (not_escaping (checkFiles_reported failure raised))
  · rintro ⟨failure,raised,escapes⟩
    exact ⟨failure,by simp only [checkDeclared, bind_error, raised, true_or],escapes⟩

theorem checkPackage_escapes {lock : List Toml} {files : List SourceFile} {tool : PackagedTool}
    {package : CargoPackage} :
    (∃ failure, checkPackage cargo lock files tool package = .error failure ∧
      Escaping failure) ↔ PackageEscapes cargo lock package := by
  unfold checkPackage PackageEscapes
  cases package.source with
  | path directory => exact checkDeclared_escapes.trans declarationOf_escapes
  | registry id checksum => exact checkLocked_escapes
  | git id revision => exact checkLocked_escapes

/-- Of the tools in turn, one is an adapter and reaches a package whose lookup fails so. -/
def ToolsEscape (D : Digests) (cargo : CargoSources) (tools : List PackagedTool)
    (files : List SourceFile) : Prop :=
  ∃ lock, lockEntries D cargo files = .ok lock ∧
    ∃ before tool after, tools = before ++ tool :: after ∧
      (∀ other ∈ before, checkTool cargo lock files other = .ok ()) ∧ tool.adapter = true ∧
      ∃ earlier package later, tool.packages = earlier ++ package :: later ∧
        (∀ other ∈ earlier, checkPackage cargo lock files tool other = .ok ()) ∧
        PackageEscapes cargo lock package

theorem checkTool_escapes {lock : List Toml} {files : List SourceFile} {tool : PackagedTool} :
    (∃ failure, checkTool cargo lock files tool = .error failure ∧ Escaping failure) ↔
      tool.adapter = true ∧ ∃ earlier package later, tool.packages = earlier ++ package :: later ∧
        (∀ other ∈ earlier, checkPackage cargo lock files tool other = .ok ()) ∧
        PackageEscapes cargo lock package := by
  unfold checkTool
  by_cases adapter : tool.adapter = true
  · simp only [adapter, if_true, true_and, bind_error, check_error, forM_error]
    constructor
    · rintro ⟨failure,⟨_,rfl⟩ | ⟨_,_,earlier,package,later,split,passed,raised⟩,escapes⟩
      · cases escapes
      · exact ⟨earlier,package,later,split,passed,checkPackage_escapes.mp ⟨failure,raised,escapes⟩⟩
    · rintro ⟨earlier,package,later,split,passed,escapes⟩
      obtain ⟨failure,raised,escapes⟩ := checkPackage_escapes.mpr escapes
      refine ⟨failure,.inr ⟨⟨⟩,?_,earlier,package,later,split,passed,raised⟩,escapes⟩
      apply check_of
      exact .inr (by simp [split])
  · simp [adapter]

theorem lockPackages_reported {entry : SourceFile} :
    FailsIn Listed (lockPackages D cargo entry) := by
  unfold lockPackages
  apply failsIn_bind (safely_listed _)
  intro data _
  refine failsIn_bind (failsIn_check rfl) ?_
  intro _ _
  cases cargo.toml data with
  | error message => exact failsIn_throw rfl
  | ok fields =>
    cases found : mapGet fields "package" with
    | none =>
      simp only [found]
      exact failsIn_throw rfl
    | some packages =>
      simp only [found]
      cases packages
      case scalar type => exact failsIn_throw rfl
      all_goals exact failsIn_pure _

/-- Exactly these current sources let a failure out of the package rules that no handler catches. -/
theorem packagePolicy_escapes {tools : List PackagedTool} {files : List SourceFile} :
    (∃ failure, packagePolicy D cargo tools files = .error failure ∧ Escaping failure) ↔
      ToolsEscape D cargo tools files := by
  simp only [packagePolicy, bind_error, forM_error]
  constructor
  · rintro ⟨failure,raised | ⟨lock,read,before,tool,after,split,passed,raised⟩,escapes⟩
    · simp only [lockEntries, bind_error, pure_error, and_false, exists_false, or_false] at raised
      have listed := failsIn_mapM (fun entry _ => lockPackages_reported) failure raised
      exact absurd escapes (not_escaping listed)
    · exact ⟨lock,read,before,tool,after,split,passed,
        checkTool_escapes.mp ⟨failure,raised,escapes⟩⟩
  · rintro ⟨lock,read,before,tool,after,split,passed,escapes⟩
    obtain ⟨failure,raised,escapes⟩ := checkTool_escapes.mpr escapes
    exact ⟨failure,.inr ⟨lock,read,before,tool,after,split,passed,raised⟩,escapes⟩

end Failures

end PackagePolicy

end EvidenceV4
