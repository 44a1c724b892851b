import EvidenceV4.PyramidFloors

/-!
# A headless run of the pyramid

The runner takes the layers in order: the commands of the plan where the plan
names the layer, its own commands elsewhere. Each layer is recorded once, with
its status and the commands that it started. The verdict reads the statuses of
the layers that the profile, the crate and the plan require.
-/

set_option autoImplicit false

namespace EvidenceV4

namespace PyramidRun

open CheckedExcept
open CheckerJson (PyString points)
open PolicyDocument (mapGet)
open PyramidFloors
open PyramidPlan (layerOrder planLayerOrder Execution parsePlan)
open PythonData

inductive Profile where
  | tested
  | bounded
  | proved
  deriving DecidableEq

def profileLayers : Profile → List PyString
  | .tested => ["types","lints","proptests","floors"].map points
  | .bounded => ["types","lints","proptests","floors","kani"].map points
  | .proved => ["types","lints","proptests","floors","kani","verus","lean"].map points

structure Arguments where
  profile : Profile
  skip : List PyString
  fuzzSeconds : ℤ
  plan : Option PyString
  noPlan : Bool

/-- The machine of a run: the crate, its plan files, and what the commands do. -/
structure Host where
  library : Library
  alphabet : Alphabet
  crate : Crate
  discovered : Option PyString
  readPlan : PyString → Except PyString PyData
  which : PyString → Bool
  machine : Machine
  unwritable : Option PyString

/-- The layers of the plan in effect. -/
abbrev PlanLayers := List (PyString × PyramidPlan.Layer)

structure LaunchError where
  execution : ℕ
  evidenceTool : Option PyString
  argv0 : PyString
  error : PyString

inductive Detail where
  | note (text : PyString)
  | command (result : PyramidFloors.Result)
  | planned (required : Bool) (executions : List (Execution × PyramidFloors.Result))
      (durations : List (PyString × ℚ)) (launchErrors : List LaunchError)
  | fuzzed (targets : List PyString) (durations : List (PyString × ℚ)) (results : List PyramidFloors.Result)
  | floors (workspace : Bool) (checks : SubChecks)

/-- What the runner records of a layer, with the commands that it started for it. -/
structure Record where
  layer : PyString
  status : Status
  detail : Detail
  commands : List (Invocation × PyramidFloors.Result)

def noted (layer : PyString) (status : Status) (text : PyString) : Record :=
  ⟨layer,status,.note text,[]⟩

def skippedByFlag (layer : PyString) : Record := noted layer .skipped "skipped by flag"

inductive Verdict where
  | failed
  | incomplete
  | verified (profile : Profile)
  deriving DecidableEq

def Verdict.code : Verdict → ℕ
  | .failed => 1
  | .incomplete => 3
  | .verified _ => 0

section Layers

variable (host : Host) (arguments : Arguments) (plan : PlanLayers)

def execution (layer : PyString) (entry : Execution × ℕ) : Except Crash (Invocation × PyramidFloors.Result) :=
  execute host.machine layer entry.2 ⟨entry.1.argv,host.crate.root ++ entry.1.cwd,
    entry.1.timeoutSeconds,entry.1.env⟩

def launchErrors (results : List (Execution × PyramidFloors.Result)) : List LaunchError :=
  results.zipIdx.filterMap (fun entry => entry.1.2.launchError.map (fun error =>
    ⟨entry.2,entry.1.1.evidenceTool,entry.1.1.argv.headD [],error⟩))

def measuredTools (results : List (Execution × PyramidFloors.Result)) : List (PyString × ℚ) :=
  results.filterMap (fun entry => entry.1.evidenceTool.map (fun tool => (tool,entry.2.duration)))

/-- The record of a layer of the plan: every declared execution runs. -/
def declaredRecord (layer : PyString) (spec : PyramidPlan.Layer) : Except Crash Record := do
  let ran ← spec.executions.zipIdx.mapM (execution host layer)
  let results := spec.executions.zip (ran.map Prod.snd)
  pure ⟨layer,statusOf (∀ command ∈ ran, command.2.returncode = 0),
    .planned spec.required results (measuredTools results) (launchErrors results),ran⟩

/-- The record of a layer when the plan owns it, or what the runner does by default. -/
def planLayer (layer : PyString) (builtIn : Except Crash (Option Record)) :
    Except Crash (Option Record) :=
  match mapGet plan layer with
  | none => builtIn
  | some spec =>
    if layer ∈ arguments.skip then pure (some (skippedByFlag layer))
    else some <$> declaredRecord host layer spec

def commandRecord (layer : PyString) (argv : List PyString) : Except Crash Record := do
  let ran ← execute host.machine layer 0 (inCrate host.crate.root argv 1800)
  pure ⟨layer,statusOf (ran.2.returncode = 0),.command ran.2,[ran]⟩

/-- `cargo_layer` -/
def cargoLayer (layer : PyString) (argv : List PyString) : Except Crash (Option Record) :=
  planLayer host arguments plan layer
    (if layer ∈ arguments.skip then pure (some (skippedByFlag layer))
    else some <$> commandRecord host layer argv)

/-- `text.split()` -/
def words (text : PyString) : List PyString := (text.splitOnP isSpace).filter (· ≠ [])

def fuzzInvocation (target : PyString) : Invocation :=
  inCrate host.crate.root [points "cargo",points "fuzz",points "run",target,points "--",
    say ["-max_total_time=",points (toString arguments.fuzzSeconds)]] (arguments.fuzzSeconds + 300)

def fuzzRun (entry : PyString × ℕ) : Except Crash (Invocation × PyramidFloors.Result) :=
  execute host.machine "fuzz" (entry.2 + 1) (fuzzInvocation host arguments entry.1)

/-- The targets of the fuzz layer are the words of what was kept of the listing. -/
def listedTargets (listing : PyramidFloors.Result) : List PyString := words (listing.stdoutPreview.getD [])

def fuzzTargets : Except Crash Record := do
  let listing ← execute host.machine "fuzz" 0
    (inCrate host.crate.root (["cargo","fuzz","list"].map points) 1800)
  let targets := listedTargets listing.2
  let ran ← targets.zipIdx.mapM (fuzzRun host arguments)
  pure ⟨"fuzz",statusOf (targets ≠ [] ∧ ∀ command ∈ ran, command.2.returncode = 0),
    .fuzzed targets (targets.zip (ran.map (fun command => command.2.duration)))
      (ran.map Prod.snd),listing :: ran⟩

def fuzzBuiltIn (required : List PyString) : Except Crash (Option Record) :=
  if points "fuzz" ∈ required ∨ host.crate.hasFuzz = true then
    if points "fuzz" ∈ arguments.skip then pure (some (skippedByFlag "fuzz"))
    else if host.crate.hasFuzz = false then
      pure (some (noted "fuzz" .notApplicable "no fuzz/ harnesses"))
    else if host.which "cargo-fuzz" = false then
      pure (some (noted "fuzz" .skipped "cargo-fuzz not installed"))
    else some <$> fuzzTargets host arguments
  else pure none

def Detail.durations : Detail → List (PyString × ℚ)
  | .planned _ _ durations _ => durations
  | .fuzzed _ durations _ => durations
  | _ => []

def measured (record : Record) : Measured := ⟨record.status,record.detail.durations⟩

def measuredFloors (floors : Floors) (fuzz : Option Record) : Except Crash Record := do
  let toml ← host.crate.cargoToml
  let layer ← floorsLayer host.library host.alphabet host.crate host.machine floors
    (isWorkspace toml) (fuzz.map measured)
  pure ⟨"floors",aggregate layer.1.statuses,.floors (isWorkspace toml) layer.1,layer.2⟩

def floorsRecord (fuzz : Option Record) : Except Crash Record :=
  match loadFloors host.library host.crate.floorsPath host.crate.floorsFile with
  | .error (.reported message) => pure (noted "floors" .failed message)
  | .error (.crashed crash) => throw crash
  | .ok floors => measuredFloors host floors fuzz

def floorsBuiltIn (required : List PyString) (fuzz : Option Record) :
    Except Crash (Option Record) :=
  if points "floors" ∈ required then
    if points "floors" ∈ arguments.skip then pure (some (skippedByFlag "floors"))
    else some <$> floorsRecord host fuzz
  else pure none

/-- The harnesses are looked for first: a search that cannot run is a failure. -/
def kaniSearched (search : Invocation × PyramidFloors.Result) : Except Crash Record :=
  if search.2.launchError.isSome = true ∨ search.2.timeout = true then
    pure ⟨"kani",.failed,.command search.2,[search]⟩
  else if search.2.returncode ≠ 0 then
    pure ⟨"kani",.notApplicable,.note "no #[kani::proof] harnesses",[search]⟩
  else do
    let ran ← execute host.machine "kani" 1
      (inCrate host.crate.root (["cargo","kani"].map points) 1800)
    pure ⟨"kani",statusOf (ran.2.returncode = 0),.command ran.2,[search,ran]⟩

def kaniRecord : Except Crash Record := do
  let search ← execute host.machine "kani" 0 (inCrate host.crate.root
    (["grep","-r","-l","kani::proof","src"].map points) 120)
  kaniSearched host search

def kaniBuiltIn (required : List PyString) : Except Crash (Option Record) :=
  if points "kani" ∈ required then
    if points "kani" ∈ arguments.skip then pure (some (skippedByFlag "kani"))
    else if host.which "cargo-kani" = false then
      pure (some (noted "kani" .skipped "cargo-kani not installed"))
    else some <$> kaniRecord host
  else pure none

def verusBuiltIn (required : List PyString) : Except Crash (Option Record) :=
  if points "verus" ∈ required then
    if points "verus" ∈ arguments.skip then pure (some (skippedByFlag "verus"))
    else if host.which "cargo-verus" = false ∧ host.which "verus" = false then
      pure (some (noted "verus" .skipped "verus not installed"))
    else some <$> commandRecord host "verus" (["cargo","verus","verify"].map points)
  else pure none

def leanNote : PyString := say
  ["Aeneas extraction + lean_axiom_gate.py are agent-flow layers; ",
    "the headless runner cannot supply them"]

def leanBuiltIn (required : List PyString) : Except Crash (Option Record) :=
  pure (if points "lean" ∈ required then some (noted "lean" .notRun leanNote) else none)

/-- The layers of the plan that the pyramid does not know. -/
def customLayers : List PyString := (plan.map Prod.fst).filter (· ∉ layerOrder)

def customRecords : Except Crash (List Record) := do
  let records ← (customLayers plan).mapM (fun layer =>
    planLayer host arguments plan layer (pure none))
  pure (records.filterMap id)

def typesLayer : Except Crash (Option Record) :=
  cargoLayer host arguments plan "types" (["cargo","check","--quiet"].map points)

/-- The layers behind a compilation that did not fail. -/
def laterLayers (required : List PyString) : Except Crash (List Record) := do
  let lints ← cargoLayer host arguments plan "lints"
    (["cargo","clippy","--quiet","--","-D","warnings"].map points)
  let proptests ← cargoLayer host arguments plan "proptests" (["cargo","test","--quiet"].map points)
  let fuzz ← planLayer host arguments plan "fuzz" (fuzzBuiltIn host arguments required)
  let floors ← floorsBuiltIn host arguments required fuzz
  let kani ← planLayer host arguments plan "kani" (kaniBuiltIn host arguments required)
  let verus ← planLayer host arguments plan "verus" (verusBuiltIn host arguments required)
  let lean ← planLayer host arguments plan "lean" (leanBuiltIn required)
  let custom ← customRecords host arguments plan
  pure ([lints,proptests,fuzz,floors,kani,verus,lean].filterMap id ++ custom)

/-- A failed compilation leaves every other layer that is required or declared. -/
def abandoned (required : List PyString) : List Record :=
  ((planLayerOrder (required ++ plan.map Prod.fst)).filter (· ≠ points "types")).map
    (fun layer => noted layer .notRun "types layer failed")

def afterTypes (required : List PyString) (types : List Record) : Except Crash (List Record) :=
  if types.any (fun record => record.status = .failed) = true then pure (abandoned plan required)
  else laterLayers host arguments plan required

def runLayers (required : List PyString) : Except Crash (List Record) := do
  let types ← typesLayer host arguments plan
  let others ← afterTypes host arguments plan required types.toList
  pure (types.toList ++ others)

end Layers

section Gating

/-- The profile's layers, with the fuzz layer in its place when the crate has harnesses. -/
def baseLayers (profile : Profile) (hasFuzz : Bool) : List PyString :=
  if hasFuzz = true ∧ points "fuzz" ∉ profileLayers profile then
    (profileLayers profile).insertIdx 3 "fuzz"
  else profileLayers profile

/-- The layers that gate the verdict. -/
def requiredLayers (profile : Profile) (hasFuzz : Bool) (plan : PlanLayers) : List PyString :=
  let planned := (plan.filter (fun entry => entry.2.required)).map Prod.fst
  if planned = [] then baseLayers profile hasFuzz
  else planLayerOrder (baseLayers profile hasFuzz ++ planned)

def statuses (records : List Record) : List (PyString × Status) :=
  records.map (fun record => (record.layer,record.status))

def statusOfLayer (records : List Record) (layer : PyString) : Status :=
  (mapGet (statuses records) layer).getD .notRun

/-- `aggregate_verdict` -/
def aggregateVerdict (profile : Profile) (required : List PyString) (records : List Record) :
    Verdict :=
  let gating := required.map (statusOfLayer records)
  if .failed ∈ gating then .failed
  else if ∃ status ∈ gating, status ≠ .passed then .incomplete
  else .verified profile

end Gating

section Main

/-- Where the commands of a run come from. -/
inductive Discovery where
  | disabled (path : Option PyString)
  | explicit (path : PyString)
  | autodiscovered (path : PyString)
  | absent

def discover (host : Host) (arguments : Arguments) : Discovery :=
  if arguments.noPlan = true then .disabled host.discovered
  else
    match arguments.plan with
    | some path => .explicit path
    | none =>
      match host.discovered with
      | some path => .autodiscovered path
      | none => .absent

/-- Why a run ends without a report. -/
inductive Stop where
  | noManifest
  | planError (message : PyString)
  | planRaised (error : PyError)
  | cargoMissing
  | crashed (crash : Crash)
  | unwritable (error : PyString) (verdict : Verdict)

structure Report where
  profile : Profile
  required : List PyString
  discovery : Discovery
  plan : PlanLayers
  layers : List Record
  verdict : Verdict

/-- `load_plan` -/
def loadPlan (host : Host) (path : PyString) : Except Stop PlanLayers :=
  match host.readPlan path with
  | .error message => .error (.planError message)
  | .ok document =>
    match parsePlan host.library host.crate.toDirectories path document with
    | .ok plan => .ok plan.layers
    | .error (.planError message) => .error (.planError message)
    | .error (.raised error) => .error (.planRaised error)

def planOf (host : Host) : Discovery → Except Stop PlanLayers
  | .explicit path => loadPlan host path
  | .autodiscovered path => loadPlan host path
  | _ => .ok []

def crashing {α : Type} : Except Crash α → Except Stop α
  | .ok value => .ok value
  | .error crash => .error (.crashed crash)

/-- A verdict is reported only when the report can be written. -/
def persist (host : Host) (report : Report) : Except Stop Report :=
  match host.unwritable with
  | none => .ok report
  | some error => .error (.unwritable error report.verdict)

def main (host : Host) (arguments : Arguments) : Except Stop Report := do
  check (host.crate.hasManifest = true) Stop.noManifest
  let plan ← planOf host (discover host arguments)
  check (host.which "cargo" = true) Stop.cargoMissing
  let required := requiredLayers arguments.profile host.crate.hasFuzz plan
  let records ← crashing (runLayers host arguments plan required)
  persist host ⟨arguments.profile,required,discover host arguments,plan,records,
    aggregateVerdict arguments.profile required records⟩

end Main

end PyramidRun

end EvidenceV4
