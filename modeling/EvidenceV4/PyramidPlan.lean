import EvidenceV4.RepositoryTree
import Mathlib.Data.List.Basic

/-!
# The verification plan of a crate

A plan declares the commands of layers by name: known layers of the pyramid and
layers of its own. The runner accepts a document only when every command is an
argument vector with a timeout and a directory inside the crate.
-/

set_option autoImplicit false

namespace EvidenceV4

namespace PyramidPlan

open CheckedExcept
open CheckerJson (PyString points)
open PolicyDocument (mapGet)
open PythonData
open RepositoryTree (parsePath parent)

def layerOrder : List PyString :=
  ["types","lints","proptests","fuzz","floors","kani","verus","lean"].map points

def planSchema : PyString := "fv-verification-plan/v1"

def planRelative : PyString := ".fv/verification-plan.json"

def planReservedLayers : List PyString := [points "floors"]

def planLayers : List PyString := layerOrder.filter (· ∉ planReservedLayers)

def planTopKeys : List PyString := [points "schema",points "layers"]

def planLayerKeys : List PyString := [points "required",points "executions"]

def planExecKeys : List PyString :=
  ["argv","cwd","timeout_seconds","env","evidence_tool"].map points

def planCustomPattern : PyString := "[A-Za-z0-9][A-Za-z0-9._:+/-]*"

def customStart (c : ℕ) : Bool :=
  (65 ≤ c && c ≤ 90) || (97 ≤ c && c ≤ 122) || (48 ≤ c && c ≤ 57)

def customRest (c : ℕ) : Bool := customStart c || c ∈ points "._:+/-"

/-- `PLAN_CUSTOM_ID.fullmatch(name)` -/
def planCustomId : PyString → Bool
  | [] => false
  | c :: rest => customStart c && rest.all customRest

/-- Known layers in the order of the pyramid, then the others lexically. -/
def planLayerOrder (names : List PyString) : List PyString :=
  layerOrder.filter (· ∈ names) ++ sortedNames (names.filter (· ∉ layerOrder))

/-- The directories of the crate, as the file system resolves them. -/
structure Directories where
  root : List PyString
  resolve : List PyString → Except PyError (List PyString)
  isDir : List PyString → Except PyError Bool

structure Execution where
  argv : List PyString
  cwd : List PyString
  timeoutSeconds : ℤ
  env : List (PyString × PyString)
  evidenceTool : Option PyString
  deriving DecidableEq

structure Layer where
  required : Bool
  executions : List Execution
  deriving DecidableEq

structure Plan where
  schema : PyString
  source : PyString
  layers : List (PyString × Layer)

/-- Why a document is no plan, or what the interpreter raised while it was read. -/
inductive Refusal where
  | planError (message : PyString)
  | raised (error : PyError)

variable (library : Library) (crate : Directories)

def shownNames (names : List PyString) : PyString := library.repr (.list (names.map .str))

def typeName : PyData → PyString
  | .none => "NoneType"
  | .bool _ => "bool"
  | .int _ => "int"
  | .float _ => "float"
  | .str _ => "str"
  | .list _ => "list"
  | .dict _ => "dict"

def shownPath (path : List PyString) : PyString := path.flatMap (fun part => 47 :: part)

def refuse {α : Type} (parts : List PyString) : Except Refusal α := throw (.planError (say parts))

def reading {α : Type} : Except PyError α → Except Refusal α
  | .ok value => .ok value
  | .error error => .error (.raised error)

/-- The keys of a document that the schema does not know. -/
def unknownKeys (fields : PyFields) (allowed : List PyString) : List PyString :=
  sortedNames ((fields.map Prod.fst).filter (· ∉ allowed))

section Executions

/-- The directory that a resolved working directory is relative to the crate. -/
def containedCwd (raw : PyData) (place : PyString) (resolved : List PyString) :
    Except Refusal (List PyString) := do
  check (crate.root <+: resolved) (.planError (say [place,": cwd escapes the crate root: ",
    library.repr raw," -> ",shownPath resolved]))
  let found ← reading (crate.isDir resolved)
  check (found = true) (.planError (say [place,": cwd is not a directory: ",library.repr raw]))
  pure (resolved.drop crate.root.length)

/-- `_plan_cwd` -/
def planCwd (raw : PyData) (place : PyString) : Except Refusal (List PyString) :=
  match (textOf raw).filter (fun text => !blank text) with
  | none => refuse [place,": cwd must be a non-empty repo-relative string, got ",library.repr raw]
  | some text =>
    let candidate := parsePath text
    if candidate.absolute = true then
      refuse [place,": cwd must be repo-relative, got absolute ",library.repr raw]
    else if parent ∈ candidate.parts then
      refuse [place,": cwd escapes the crate root: ",library.repr raw]
    else do
      let resolved ← reading (crate.resolve (crate.root ++ candidate.parts))
      containedCwd library crate raw place resolved

def envEntry (place : PyString) (entry : PyString × PyData) :
    Except Refusal (PyString × PyString) :=
  if entry.1 = [] ∨ 61 ∈ entry.1 ∨ 0 ∈ entry.1 then
    refuse [place,": env name must be a non-empty string without '=' or NUL, got ",
      library.repr (.str entry.1)]
  else
    match (textOf entry.2).filter (fun text => 0 ∉ text) with
    | none => refuse [place,": env[",library.repr (.str entry.1),
        "] must be a string without NUL, got ",library.repr entry.2]
    | some value => pure (entry.1,value)

/-- `_plan_env` -/
def planEnv (raw : PyData) (place : PyString) : Except Refusal (List (PyString × PyString)) :=
  match raw with
  | .none => pure []
  | .dict fields => fields.mapM (envEntry library place)
  | other => refuse [place,": env must be an object mapping string to string, got ",typeName other]

def argvWord (place : PyString) (entry : PyData × ℕ) : Except Refusal PyString :=
  match (textOf entry.1).filter (fun word => word ≠ [] ∧ 0 ∉ word) with
  | some word => pure word
  | none => refuse [place,": argv[",number entry.2,
      "] must be a non-empty string without NUL, got ",library.repr entry.1]

def planArgv (raw : PyData) (place : PyString) : Except Refusal (List PyString) :=
  match (entriesOf raw).filter (fun words => !words.isEmpty) with
  | none => refuse [place,": argv must be a non-empty array of strings ",
      "(a shell string is not a command), got ",library.repr raw]
  | some words => words.zipIdx.mapM (argvWord library place)

def planTimeout (raw : PyData) (place : PyString) : Except Refusal ℤ :=
  let refused := refuse [place,": timeout_seconds must be a positive integer, got ",
    library.repr raw]
  match raw with
  | .int seconds => if seconds ≤ 0 then refused else pure seconds
  | _ => refused

def planTool (raw : PyData) (place : PyString) : Except Refusal (Option PyString) :=
  match raw with
  | .none => pure none
  | other =>
    match (textOf other).filter (fun text => !blank text) with
    | some tool => pure (some tool)
    | none => refuse [place,": evidence_tool must be a non-empty string when present, got ",
        library.repr other]

/-- `_plan_execution` -/
def planExecution (raw : PyData) (place : PyString) : Except Refusal Execution :=
  match fieldsOf raw with
  | none => refuse [place,": execution must be an object"]
  | some fields => do
    check (unknownKeys fields planExecKeys = []) (.planError (say [place,": unknown key(s) ",
      shownNames library (unknownKeys fields planExecKeys),"; allowed ",
      shownNames library planExecKeys]))
    let argv ← planArgv library (PythonData.get fields "argv") place
    let timeout ← planTimeout library (PythonData.get fields "timeout_seconds") place
    let tool ← planTool library (PythonData.get fields "evidence_tool") place
    let cwd ← planCwd library crate (PythonData.get fields "cwd") place
    let env ← planEnv library (PythonData.get fields "env") place
    pure ⟨argv,cwd,timeout,env,tool⟩

end Executions

section Documents

variable (source : PyString)

def nameAllowed (name : PyString) : Except Refusal Unit :=
  if name ∈ planLayers then pure ()
  else if name ∈ planReservedLayers then
    refuse [source,": layer ",library.repr (.str name)," is not plannable (it is computed ",
      "from .fv/floors.json, not declared); known layers ",shownNames library planLayers]
  else check (planCustomId name = true) (.planError (say [source,": custom layer id ",
    library.repr (.str name)," is malformed; expected ",planCustomPattern," or a known layer ",
    shownNames library planLayers]))

def executionPlace (name : PyString) (index : ℕ) : PyString :=
  say [source,": layers.",name,".executions[",number index,"]"]

/-- The executions of a layer, each at its place. -/
def layerExecutions (name : PyString) (raws : List PyData) : Except Refusal (List Execution) :=
  raws.zipIdx.mapM (fun entry => planExecution library crate entry.1
    (executionPlace source name entry.2))

/-- One tool names one invocation of the whole plan. -/
def claimTool (name : PyString) (origins : List (PyString × PyString)) (entry : Execution × ℕ) :
    Except Refusal (List (PyString × PyString)) :=
  match entry.1.evidenceTool with
  | none => pure origins
  | some tool =>
    let origin := say ["layers.",name,".executions[",number entry.2,"]"]
    match mapGet origins tool with
    | none => pure (origins ++ [(tool,origin)])
    | some first =>
      if first = origin then pure origins
      else refuse [source,": evidence_tool ",library.repr (.str tool)," is declared twice (",first,
        " and ",origin,"); one tool id names exactly one invocation, so two runs need two ids"]

structure Parsing where
  layers : List (PyString × Layer)
  origins : List (PyString × PyString)

def requiredFlag (raw : PyData) (place : PyString) : Except Refusal Bool :=
  match raw with
  | .bool required => pure required
  | other => refuse [place,": required must be a boolean, got ",library.repr other]

def declaredExecutions (name : PyString) (raw : PyData) (place : PyString) :
    Except Refusal (List Execution) :=
  match (entriesOf raw).filter (fun raws => !raws.isEmpty) with
  | none => refuse [place,": executions must be a non-empty array"]
  | some raws => layerExecutions library crate source name raws

/-- The layer of a plan that the fields of its declaration describe. -/
def parseLayer (name : PyString) (spec : PyData) : Except Refusal Layer :=
  let place := say [source,": layers.",name]
  match fieldsOf spec with
  | none => refuse [place,": layer must be an object"]
  | some fields => do
    check (unknownKeys fields planLayerKeys = []) (.planError (say [place,": unknown key(s) ",
      shownNames library (unknownKeys fields planLayerKeys),"; allowed ",
      shownNames library planLayerKeys]))
    let required ← requiredFlag library (PythonData.get fields "required") place
    let executions ← declaredExecutions library crate source name
      (PythonData.get fields "executions") place
    pure ⟨required,executions⟩

def addLayer (declared : PyFields) (parsing : Parsing) (name : PyString) :
    Except Refusal Parsing := do
  let layer ← parseLayer library crate source name (PythonData.get declared name)
  let origins ← layer.executions.zipIdx.foldlM (claimTool library source name) parsing.origins
  pure ⟨parsing.layers ++ [(name,layer)],origins⟩

def planSchemaOf (fields : PyFields) : PyData :=
  (mapGet fields (points "schema")).getD (.str planSchema)

def parseLayers (declared : PyFields) : Except Refusal Plan := do
  forM (declared.map Prod.fst) (nameAllowed library source)
  let parsing ← (planLayerOrder (declared.map Prod.fst)).foldlM
    (addLayer library crate source declared) ⟨[],[]⟩
  pure ⟨planSchema,source,parsing.layers⟩

/-- `parse_plan` -/
def parsePlan (document : PyData) : Except Refusal Plan :=
  match fieldsOf document with
  | none => refuse [source,": plan must be a JSON object"]
  | some fields => do
    check (unknownKeys fields planTopKeys = []) (.planError (say [source,
      ": unknown top-level key(s) ",shownNames library (unknownKeys fields planTopKeys),
      "; allowed ",shownNames library planTopKeys]))
    check (equal (planSchemaOf fields) (.str planSchema) = true) (.planError (say [source,
      ": unsupported schema ",library.repr (planSchemaOf fields),"; expected ",
      library.repr (.str planSchema)]))
    match (fieldsOf (PythonData.get fields "layers")).filter (fun declared => !declared.isEmpty) with
    | none => refuse [source,": layers must be a non-empty object"]
    | some declared => parseLayers library crate source declared

end Documents

end PyramidPlan

end EvidenceV4
