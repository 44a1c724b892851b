import EvidenceV4.GateManifest
import EvidenceV4.MigrationManifest

/-!
# The verification plan of a migration

The legacy run manifest records one shell string per run of a layer. Each string
becomes a list of executions, and the executions of a layer a cohort of the plan.
A layer that cannot be translated blocks the plan, and every tool that a migrated
claim requires must be declared by some execution.
-/

set_option autoImplicit false

namespace EvidenceV4

namespace Migration

open CheckedExcept
open CheckerJson (PyString points)
open GateManifest (evidenceToolId)
open PolicyDocument (mapGet)
open PythonData
open RepositoryTree (parsePath parent)

def legacyLayerRuns : PyString := legacyPath "evidence/runs/layer-runs.json"

def planPath : PyString := ".fv/verification-plan.json"

def layerOrder : List PyString :=
  ["types","lints","proptests","fuzz","floors","kani","verus","lean"]

def reservedLayers : List PyString := ["floors"]

def planLayers : List PyString := layerOrder.filter (fun name => name ∉ reservedLayers)

section Commands

variable (host : Host)

def shellCharacters : List ℕ := points "|&<>$`()\x7b\x7d[]*?~!\n\r\\" ++ [0]

def shellOnlyCommands : List PyString :=
  [".",":","alias","bg","builtin","cd","chdir","command","declare","disown","eval","exec","exit",
    "export","fg","hash","jobs","let","local","logout","popd","pushd","read","readonly","return",
    "set","shift","shopt","source","suspend","times","trap","type","typeset","ulimit","umask",
    "unalias","unset","wait"]

/-- Between two words, in a word, or in a quotation. -/
inductive LexState where
  | between
  | word
  | quotation (mark : ℕ)

def shellSpace (c : ℕ) : Bool := c == 32 || c == 9 || c == 13 || c == 10

def quotes (c : ℕ) : Bool := c == 39 || c == 34

/-- `shlex.split` of a text without backslashes, where `quoted` says that a part of the word
stands in quotation marks. -/
def shellWords (state : LexState) (token : PyString) (quoted : Bool) :
    PyString → Except PyString (List PyString)
  | [] =>
    match state with
    | .quotation _ => throw (points "No closing quotation")
    | _ => pure (if token.isEmpty = false ∨ quoted = true then [token] else [])
  | c :: rest =>
    match state with
    | .quotation mark =>
      if c = mark then shellWords .word token true rest
      else shellWords (.quotation mark) (token ++ [c]) true rest
    | .between =>
      if shellSpace c then shellWords .between token quoted rest
      else if quotes c then shellWords (.quotation c) token quoted rest
      else shellWords .word [c] quoted rest
    | .word =>
      if shellSpace c then
        if token.isEmpty = false ∨ quoted = true then do
          let words ← shellWords .between [] false rest
          pure (token :: words)
        else shellWords .between token quoted rest
      else if quotes c then shellWords (.quotation c) token quoted rest
      else shellWords .word (token ++ [c]) quoted rest

/-- The word starts with `NAME=`. -/
def assigns (word : PyString) : Bool :=
  let letter := fun c => (65 ≤ c && c ≤ 90) || (97 ≤ c && c ≤ 122) || c == 95
  let name := word.takeWhile (fun c => letter c || (48 ≤ c && c ≤ 57))
  (name.head?.map letter).getD false && (word.drop name.length).head? == some 61

def sortedPoints (text : PyString) : PyString := text.dedup.insertionSort (fun a b => a ≤ b)

/-- The words of one segment of a command, or why it is none. -/
def splitSegment (segment : PyString) : Except PyString (List PyString) := do
  let named := host.repr (.str (strip segment))
  let offending := sortedPoints (segment.filter (fun c => shellCharacters.contains c))
  check (offending = []) (say ["segment ",named," uses shell construct(s) ",
    host.repr (.str offending),": no argv represents it"])
  let argv ← match shellWords .between [] false segment with
    | .ok argv => pure argv
    | .error error => throw (say ["segment ",named," does not tokenize: ",error])
  check (argv ≠ [] ∧ [] ∉ argv) (say ["segment ",named," tokenizes to no command"])
  let first := argv.headD []
  check (assigns first = false) (say ["segment ",named," begins with the environment assignment ",
    host.repr (.str first),": an assignment prefix is shell state and not argv[0], and the ",
    "run's own `environment` object is the only environment this translation carries"])
  check (first ∉ shellOnlyCommands) (say ["segment ",named," runs the shell builtin ",
    host.repr (.str first),", whose effect does not survive the process that runs it: no argv ",
    "represents it, and executing it as one would silently drop what the recorded command did"])
  pure argv

/-- `split_command`: one argv for each segment that is not blank. -/
def splitCommand (command : PyData) : Except PyString (List (List PyString)) :=
  match (textOf command).filter (fun text => !blank text) with
  | none => throw (say ["command must be a non-empty string, got ",host.repr command])
  | some text => do
    let executions ← ((text.splitOn 59).filter (fun segment => !blank segment)).mapM
      (splitSegment host)
    check (executions ≠ []) (say ["command ",host.repr command," carries no argv"])
    pure executions

end Commands

section Runs

variable (project : Project) (host : Host)

structure Execution where
  argv : List PyString
  cwd : PyString
  env : PyFields

/-- `_plan_cwd`: the directory below the root that a run names, or why it names none. -/
def planCwd (raw : PyData) : Except MigrationFailure (Except PyString PyString) :=
  match (textOf raw).filter (fun text => !blank text) with
  | none => pure (.error (say ["cwd must be a non-empty repo-relative string, got ",host.repr raw]))
  | some text =>
    let candidate := parsePath text
    if candidate.absolute = true then
      pure (.error (say ["cwd ",host.repr raw," is absolute"]))
    else if parent ∈ candidate.parts then
      pure (.error (say ["cwd ",host.repr raw," escapes the project root"]))
    else do
      let resolved ← project.resolve (project.root ++ candidate.parts)
      pure (if project.root.isPrefixOf resolved = false then
          .error (say ["cwd ",host.repr raw," escapes the project root"])
        else if project.isDir resolved = false then
          .error (say ["cwd ",host.repr raw," is not a directory in this project"])
        else .ok (asPosix (resolved.drop project.root.length)))

def envEntry (entry : PyString × PyData) : Except PyString Unit :=
  if entry.1 = [] ∨ 61 ∈ entry.1 ∨ 0 ∈ entry.1 then
    throw (say ["environment name ",host.repr (.str entry.1)," is not a usable variable name"])
  else
    match (textOf entry.2).filter (fun text => !text.contains 0) with
    | some _ => pure ()
    | none => throw (say ["environment[",host.repr (.str entry.1),
        "] must be a string without NUL, got ",host.repr entry.2])

/-- The name of a type in a message. -/
def typeName : PyData → PyString
  | .none => "NoneType"
  | .bool _ => "bool"
  | .int _ => "int"
  | .float _ => "float"
  | .str _ => "str"
  | .list _ => "list"
  | .dict _ => "dict"

def planEnv (raw : PyData) : Except PyString PyFields :=
  match raw with
  | .none => pure []
  | .dict fields => do
    forM fields (envEntry host)
    pure fields
  | other => throw (say ["environment must be an object, got ",typeName other])

def planLayerDefect (planned : PyString) : Option PyString :=
  if planned ∈ reservedLayers then
    some (say ["plan layer id ",host.repr (.str planned)," is reserved: the runner computes it from ",
      ".fv/floors.json and rejects it as a declared layer"])
  else if planned ∉ planLayers ∧ evidenceToolId planned = false then
    some (say ["plan layer id ",host.repr (.str planned),
      " is not a usable fv-verification-plan/v1 layer id"])
  else none

def executionsOf (run : PyFields) (cwd : Except PyString PyString) :
    Except PyString (List Execution) := do
  let cwd ← cwd
  let env ← planEnv host (get run "environment")
  let argvs ← splitCommand host (get run "command")
  pure (argvs.map (fun argv => ⟨argv,cwd,env⟩))

/-- `_plan_executions`: one recorded run as executions, or why it blocks the plan. -/
def planExecutions (planned : PyString) (run : PyFields) :
    Except MigrationFailure (Except PyString (List Execution)) :=
  match planLayerDefect host planned with
  | some refusal => pure (.error refusal)
  | none => do
    let cwd ← planCwd project host (get run "cwd")
    pure (executionsOf host run cwd)

/-- Per layer of the plan and legacy layer, the executions of each recorded run. -/
abbrev Layers := List (PyString × List (PyString × List (List Execution)))

structure Gathered where
  layers : Layers
  blocked : List PyString

def addRun (layers : Layers) (planned legacy : PyString) (executions : List Execution) : Layers :=
  upsert layers planned [] (fun groups => upsert groups legacy [] (fun runs => runs ++ [executions]))

def plannedLayer (legacy : PyString) : PyString :=
  if legacy = points "proptest" then "proptests" else legacy

def runAt (position : ℕ) : PyString := say ["runs[",number position,"]"]

def layerNamed (relative legacy : PyString) : PyString := say [relative,"#layers.",legacy]

def layerRefusal (required : Option (List PyString)) (legacy refusal : PyString) : PyString :=
  if (required.getD []).contains legacy then
    say [refusal,": a migrated system claim requires ",host.repr (.str legacy)," evidence, and no ",
      "plan execution can produce it"]
  else say [refusal,": no plan execution can carry layer ",host.repr (.str legacy),", and a plan ",
    "omitting a recorded layer would present unrun verification as complete"]

def gatherLayer (relative legacy : PyString) (run : PyFields) (gathered : Gathered) :
    Step Gathered := do
  let executions ← Raising.lift (planExecutions project host (plannedLayer legacy) run)
  let required ← Raising.asking (fun plan => pure plan.requiredLayers)
  match executions with
  | .ok executions =>
    pure { gathered with
      layers := addRun gathered.layers (plannedLayer legacy) legacy executions }
  | .error refusal => do
    unsupported (layerNamed relative legacy) (layerRefusal host required legacy refusal)
    pure { gathered with blocked := gathered.blocked ++ [legacy] }

def gatherRun (relative : PyString) (gathered : Gathered) (run : PyData × ℕ) : Step Gathered :=
  let blocked := { gathered with blocked := gathered.blocked ++ [runAt run.2] }
  match run.1 with
  | .dict fields =>
    match (textOf (get fields "layer")).filter evidenceToolId with
    | some legacy => gatherLayer project host relative legacy fields gathered
    | none => do
      unsupported (say [relative,"#",runAt run.2])
        (say ["malformed layer ",host.repr (get fields "layer")])
      pure blocked
  | _ => do
    unsupported (say [relative,"#",runAt run.2]) "run is not an object"
    pure blocked

end Runs

section Cohorts

/-- The last execution of the last run carries the id of the layer. -/
def toolName (legacy : PyString) (runs run total index : ℕ) : PyString :=
  if run = runs ∧ index = total then legacy
  else if runs = 1 then say [legacy,":",number index]
  else say [legacy,":run",number run,".",number index]

structure PlannedExecution where
  execution : Execution
  tool : PyString

/-- The executions of one legacy layer, run by run. -/
def groupExecutions (group : PyString × List (List Execution)) : List PlannedExecution :=
  group.2.zipIdx.flatMap (fun run => run.1.zipIdx.map (fun execution =>
    ⟨execution.1,toolName group.1 group.2.length (run.2+1) run.1.length (execution.2+1)⟩))

def planLayerOrder (names : List PyString) : List PyString :=
  layerOrder.filter (fun name => name ∈ names) ++
    sortedNames (names.filter (fun name => name ∉ layerOrder))

structure PlannedLayer where
  name : PyString
  groups : List (PyString × List (List Execution))
  required : Bool
  executions : List PlannedExecution

def cohort (required : Option (List PyString)) (layers : Layers) (planned : PyString) :
    PlannedLayer :=
  let groups := (mapGet layers planned).getD []
  { name := planned
    groups := groups
    required := match required with
      | none => true
      | some layers => groups.any (fun group => layers.contains group.1)
    executions := groups.flatMap groupExecutions }

def cohorts (required : Option (List PyString)) (layers : Layers) : List PlannedLayer :=
  (planLayerOrder (layers.map Prod.fst)).map (cohort required layers)

def toolsOf (cohorts : List PlannedLayer) : List PyString :=
  cohorts.flatMap (fun layer => layer.executions.map PlannedExecution.tool)

def repeated (tools : List PyString) : List PyString :=
  sortedNames (tools.filter (fun tool => 1 < tools.count tool))

def executionDocument (planned : PlannedExecution) : PyData :=
  .dict ([(points "argv",strings planned.execution.argv),
    (points "cwd",.str planned.execution.cwd),(points "timeout_seconds",.int 3600),
    (points "evidence_tool",.str planned.tool)] ++
    (if planned.execution.env.isEmpty then [] else [(points "env",.dict planned.execution.env)]))

def layerDocument (layer : PlannedLayer) : PyData :=
  .dict [(points "required",.bool layer.required),
    (points "executions",.list (layer.executions.map executionDocument))]

/-- The verification plan. -/
def planDocument (cohorts : List PlannedLayer) : PyData :=
  .dict [(points "schema",.str "fv-verification-plan/v1"),
    (points "layers",.dict (cohorts.map (fun layer => (layer.name,layerDocument layer))))]

end Cohorts

section Plan

variable (project : Project) (host : Host)

def blockPlan : Step Unit := Raising.modify (fun plan => { plan with planBlocked := true })

/-- `str(value)` -/
def shownValue (value : PyData) : PyString :=
  match value with
  | .str text => text
  | other => host.repr other

def mergedRuns (cohorts : List PlannedLayer) : List (PyString × ℕ) :=
  ((cohorts.flatMap PlannedLayer.groups).filter (fun group => 1 < group.2.length)).map
    (fun group => (group.1,group.2.length))

def reportMerged (relative : PyString) (merged : PyString × ℕ) : Step Unit :=
  deviation (layerNamed relative merged.1) planPath (say [number merged.2,
    " independently recorded runs of layer ",host.repr (.str merged.1)," are merged ",
    "into one plan cohort: the legacy manifest states no relation between them, so ",
    "their executions are keyed ",merged.1,":run<k>.<segment> and only the last ",
    "execution of the last recorded run carries the bare id ",host.repr (.str merged.1),
    " that required_evidence names"])

def provenance (document : PyFields) : PyString :=
  let named := [points "generated",points "source_snapshot"].filter
    (fun name => (textOf (get document name)).isSome)
  if named = [] then []
  else say [" (",joined ", " (named.map (fun name =>
    say [name,"=",host.repr (get document name)])),")"]

def exitStatuses (runs : List PyData) : PyString :=
  let recorded := (runs.filterMap fieldsOf).filter (fun run => has run "exit_status")
  if recorded = [] then []
  else say [", recorded exit status(es) ",joined ", " (recorded.map (fun run =>
    say [shownValue host (get run "layer"),"=",shownValue host (get run "exit_status")]))]

def planDetail (relative : PyString) (document : PyFields) (runs : List PyData)
    (cohorts : List PlannedLayer) : PyString :=
  let translated := joined ", " (cohorts.map (fun layer =>
    say [joined "+" (layer.groups.map Prod.fst)," -> ",layer.name]))
  let custom := (cohorts.map PlannedLayer.name).filter (fun name => name ∉ planLayers)
  let loose := (cohorts.filter (fun layer => !layer.required)).map PlannedLayer.name
  say ["colosseum-layer-runs/v2 command strings translated to argv executions (",translated,")",
    (if custom = [] then [] else say ["; ",joined ", " custom,
      " declared as fv-verification-plan/v1 custom layer(s), having ",
      "no built-in pyramid step of their own"]),
    (if loose = [] then [] else say ["; ",joined ", " loose,
      " written required: false, named by no migrated claim, so ",
      "a failure there does not gate the pyramid verdict"]),
    "; translated from ",relative,provenance host document,exitStatuses host runs,
    ", which fv-verification-plan/v1 has no field for: the recorded results are history, ",
    "not evidence, and the plan declares only what to run"]

def refuseRepeated (relative : PyString) (tools : List PyString) : Step Unit := do
  blockPlan
  unsupported relative (say ["evidence tool id(s) ",joined ", " (repeated tools),
    " would be declared by more than one ",
    "execution: one id cannot stand for two recorded verifications, and the colliding ",
    "legacy layer names must be resolved in the run manifest first"])

def writePlan (relative : PyString) (document : PyFields) (runs : List PyData)
    (cohorts : List PlannedLayer) : Step Unit := do
  let data ← Raising.lift (canonicalJson host (planDocument cohorts))
  planWrite (plainWrite planPath data)
  Raising.modify (fun plan => { plan with planTools := some (toolsOf cohorts) })
  forM (mergedRuns cohorts) (reportMerged host relative)
  mapped relative planPath (planDetail host relative document runs cohorts) false

def refuseBlocked (relative : PyString) (blocked : List PyString) : Step Unit := do
  blockPlan
  unsupported relative (say ["layer(s) ",joined ", " (dedup blocked)," cannot be translated into ",
    "fv-verification-plan/v1 execution(s), see the ",relative,"#layers.* row(s): no ",
    "partial plan is written, since a plan omitting a recorded layer would present ",
    "unrun verification as complete"])

def translateRuns (relative : PyString) (document : PyFields) (runs : List PyData) :
    Step Unit := do
  let gathered ← runs.zipIdx.foldlM (gatherRun project host relative) ⟨[],[]⟩
  let required ← Raising.asking (fun plan => pure plan.requiredLayers)
  let planned := cohorts required gathered.layers
  if gathered.blocked ≠ [] then refuseBlocked relative gathered.blocked
  else if repeated (toolsOf planned) ≠ [] then refuseRepeated relative (toolsOf planned)
  else writePlan host relative document runs planned

/-- Why a document is no run manifest. -/
def runsDefect (document : PyFields) : Option PyString :=
  if equal (get document "schema") (.str "colosseum-layer-runs") = false ∨
      equal (get document "version") (.int 2) = false then
    some (say ["unknown run manifest ",host.repr (get document "schema")," version ",
      host.repr (get document "version"),", expected 'colosseum-layer-runs' version 2"])
  else if ((entriesOf (get document "runs")).getD []).isEmpty then
    some "runs is not a nonempty array"
  else none

def blockRuns (relative defect : PyString) : Step Unit := do
  blockPlan
  unsupported relative defect

def migrateRuns (relative : PyString) (document : PyFields) : Step Unit :=
  match runsDefect host document, (entriesOf (get document "runs")).getD [] with
  | some defect, _ => blockRuns relative defect
  | none, runs => translateRuns project host relative document runs

/-- `_migrate_plan`. A null document is taken for one that was reported already. -/
def migratePlan : Step Unit := do
  let present ← inventoried legacyLayerRuns
  match present with
  | false => pure ()
  | true => do
    let document ← readJson project host legacyLayerRuns
    match document with
    | .none => blockPlan
    | .dict fields => migrateRuns project host legacyLayerRuns fields
    | _ => blockRuns legacyLayerRuns "document is not an object"

end Plan

section Completeness

def missingTools (produced layers : List PyString) : List PyString :=
  layers.filter (fun layer => layer ∉ produced)

def checkClaim (host : Host) (planTools : Option (List PyString))
    (claim : PyString × List PyString) : Step Unit :=
  let produced := planTools.getD []
  if missingTools produced claim.2 = [] then pure ()
  else unsupported (say [legacyClaims,"#claims.",claim.1,".required_evidence"])
    (say ["required_evidence ",shownNames host (missingTools produced claim.2),
      " names no execution the migrated plan declares ",
      (match planTools with
        | none => say ["(the legacy tree records no evidence/runs/layer-runs.json, so the plan ",
            "declares nothing at all)"]
        | some tools => say ["(declared evidence tools: ",joined ", " (sortedNames tools),")"]),
      ": the migrated claim would require evidence no migrated run can produce, so ",
      "the legacy manifests must agree on the tool's spelling, or the run manifest ",
      "must record it, before the migration can be honest about coverage"])

/-- Every tool that a migrated claim requires is declared by an execution of the plan. -/
def checkRequiredEvidence (host : Host) : Step Unit := do
  let plan ← Raising.asking (fun plan => pure plan)
  match plan.planBlocked with
  | true => pure ()
  | false => forM plan.claimLayers (checkClaim host plan.planTools)

end Completeness

end Migration

end EvidenceV4
