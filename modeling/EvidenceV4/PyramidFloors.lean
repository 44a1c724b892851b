import EvidenceV4.PyramidPlan

/-!
# The floors of a crate

The floors are read from a document of the crate, section by section over the
defaults. Three sub-checks measure them: the feature combinations compile, each
public module has its tests, and each declared surface was fuzzed long enough.
Every command of a layer has one outcome, which the machine supplies.
-/

set_option autoImplicit false

namespace EvidenceV4

namespace PyramidFloors

open CheckedExcept
open CheckerJson (PyString points)
open PolicyDocument (mapGet)
open PythonData

inductive Status where
  | passed
  | failed
  | skipped
  | notApplicable
  | notRun
  deriving DecidableEq

/-- What the interpreter raises and the runner does not catch. -/
inductive Crash where
  | attributeError
  | typeError
  | valueError
  | overflowError
  | osError
  | decodeError
  deriving DecidableEq

section Commands

structure Invocation where
  argv : List PyString
  cwd : List PyString
  timeout : ℤ
  env : List (PyString × PyString)
  deriving DecidableEq

/-- How a child process ended. -/
inductive Completion where
  | finished (returncode : ℤ) (duration : ℚ) (stdout stderr : PyString)
  | timedOut (duration : ℚ)
  | unlaunched (error : PyString) (duration : ℚ)
  deriving DecidableEq

structure Result where
  command : List PyString
  returncode : ℤ
  duration : ℚ
  timeout : Bool
  launchError : Option PyString
  stdoutPreview : Option PyString
  stderrPreview : Option PyString
  deriving DecidableEq

/-- `text[-500:]` -/
def preview (text : PyString) : PyString := text.drop (text.length - 500)

/-- `run_cmd` -/
def runCmd (argv : List PyString) : Completion → Result
  | .finished returncode duration stdout stderr =>
    ⟨argv,returncode,duration,false,none,some (preview stdout),some (preview stderr)⟩
  | .timedOut duration => ⟨argv,-1,duration,true,none,none,none⟩
  | .unlaunched error duration => ⟨argv,-1,duration,false,some error,none,none⟩

def Completion.stdout : Completion → PyString
  | .finished _ _ stdout _ => stdout
  | _ => []

def exitedZero : Completion → Prop
  | .finished returncode _ _ _ => returncode = 0
  | _ => False

theorem runCmd_returncode {argv : List PyString} {completion : Completion} :
    (runCmd argv completion).returncode = 0 ↔ exitedZero completion := by
  cases completion <;> simp [runCmd, exitedZero]

/-- How the commands that a layer starts end, in the order in which it starts them. -/
abbrev Machine := PyString → ℕ → Except Crash Completion

/-- The command that a layer starts after the given number of others, and its result. -/
def execute (machine : Machine) (layer : PyString) (index : ℕ) (invocation : Invocation) :
    Except Crash (Invocation × Result) := do
  let completion ← machine layer index
  pure (invocation,runCmd invocation.argv completion)

/-- `run_cmd(cmd, crate)` with the timeout that it has by default. -/
def inCrate (crate : List PyString) (argv : List PyString) (timeout : ℤ) : Invocation :=
  ⟨argv,crate,timeout,[]⟩

end Commands

section Patterns

/-- The character classes of the interpreter's patterns and numbers. -/
structure Alphabet where
  word : ℕ → Bool
  digit : ℕ → Option ℕ

variable (alphabet : Alphabet)

def boundaryBefore : Option ℕ → Bool
  | none => true
  | some c => !alphabet.word c

def boundaryAfter (rest : PyString) : Bool := boundaryBefore alphabet rest.head?

/-- What follows a literal text, when the subject starts with it. -/
def after (literal : PyString) (subject : PyString) : Option PyString :=
  if literal <+: subject then some (subject.drop literal.length) else none

def skipSpace (subject : PyString) : PyString := subject.dropWhile isSpace

/-- A pattern: what is left behind a match at this place, given the character before it. -/
abbrev Pattern := Option ℕ → PyString → Option PyString

/-- `len(pattern.findall(text))`: a match is searched again behind the last one. -/
def findAll (pattern : Pattern) : ℕ → Option ℕ → PyString → ℕ
  | 0, _, _ => 0
  | _, _, [] => 0
  | fuel + 1, before, c :: rest =>
    match pattern before (c :: rest) with
    | some left => 1 + findAll pattern fuel (((c :: rest).take
        ((c :: rest).length - left.length)).getLast?.or before) left
    | none => findAll pattern fuel (some c) rest

def occurrences (pattern : Pattern) (text : PyString) : ℕ :=
  findAll pattern text.length none text

/-- `\bpub\s+(?:fn|struct|enum|trait)\b` -/
def pubItem : Pattern := fun before subject =>
  if boundaryBefore alphabet before then
    (after "pub" subject).bind (fun rest =>
      if (rest.head?.map isSpace) = some true then
        (["fn","struct","enum","trait"].map points).findSome? (fun item =>
          (after item (skipSpace rest)).filter (boundaryAfter alphabet))
      else none)
  else none

/-- `#\[\s*test\s*\]` -/
def testAttr : Pattern := fun _ subject =>
  (after "#[" subject).bind (fun rest => (after "test" (skipSpace rest)).bind (fun rest =>
    after "]" (skipSpace rest)))

/-- `\bname\s*!|#\[\s*name\b` -/
def macroUse (name : PyString) : Pattern := fun before subject =>
  let called := if boundaryBefore alphabet before then
    (after name subject).bind (fun rest => after "!" (skipSpace rest)) else none
  called.or ((after "#[" subject).bind (fun rest =>
    (after name (skipSpace rest)).filter (boundaryAfter alphabet)))

def hasPublicApi (source : PyString) : Bool := occurrences (pubItem alphabet) source != 0

def countTests (source : PyString) (propertyOnly : Bool) : ℕ :=
  occurrences (macroUse alphabet "proptest") source +
    occurrences (macroUse alphabet "quickcheck") source +
    (if propertyOnly then 0 else occurrences testAttr source)

/-- The places where a line of the text starts. -/
def lineStarts : PyString → List PyString
  | [] => []
  | c :: rest => if c = 10 then rest :: lineStarts rest else lineStarts rest

/-- `^\s*\[workspace\]` at the start of some line. -/
def isWorkspace (toml : PyString) : Bool :=
  (toml :: lineStarts toml).any (fun subject => (points "[workspace]").isPrefixOf (skipSpace subject))

end Patterns

section Numbers

variable (alphabet : Alphabet)

/-- The digits of a number, where single underscores may stand between them. -/
def digitsValue : Bool → ℕ → PyString → Option ℕ
  | separated, value, [] => if separated then some value else none
  | separated, value, c :: rest =>
    match alphabet.digit c with
    | some d => digitsValue true (10 * value + d) rest
    | none => if c = 95 ∧ separated = true then digitsValue false value rest else none

def signed : PyString → Option ℤ
  | 45 :: rest => (digitsValue alphabet false 0 rest).map (fun n => -(n : ℤ))
  | 43 :: rest => (digitsValue alphabet false 0 rest).map (fun n => (n : ℤ))
  | text => (digitsValue alphabet false 0 text).map (fun n => (n : ℤ))

/-- `int(value)` -/
def toInt : PyData → Except Crash ℤ
  | .int value => pure value
  | .bool value => pure (if value then 1 else 0)
  | .float (.finite value) => pure (value.num.tdiv value.den)
  | .float (.infinite _) => throw .overflowError
  | .float .nan => throw .valueError
  | .str text =>
    match signed alphabet (strip text) with
    | some value => pure value
    | none => throw .valueError
  | _ => throw .typeError

end Numbers

section Loading

def floorsSchema : PyString := "fv-floors/v2"

/-- The floors document of a crate as the runner finds it. -/
inductive FloorsFile where
  | absent
  | unreadable (error : PyString)
  | document (value : PyData)

structure Floors where
  matrix : PyData
  minPerModule : PyData
  requirePropertyTests : PyData
  surfaces : PyData
  minSeconds : PyData

/-- A failure to load the floors that the runner reports, or one that ends it. -/
inductive LoadError where
  | reported (message : PyString)
  | crashed (crash : Crash)

/-- `{**default, **user.get(section)}.get(key)` where the section may be absent. -/
def sectionValue (user : PyFields) (sectionName key : PyString) (default : PyData) : PyData :=
  match PythonData.get user sectionName with
  | .dict fields => (mapGet fields key).getD default
  | _ => default

def floorsOf (user : PyFields) : Floors :=
  { matrix := sectionValue user "features" "matrix" (.list [])
    minPerModule := sectionValue user "property_tests" "min_per_module" (.int 1)
    requirePropertyTests := sectionValue user "property_tests" "require_property_tests" (.bool false)
    surfaces := sectionValue user "fuzz" "surfaces" (.list [])
    minSeconds := sectionValue user "fuzz" "min_seconds" (.int 30) }

/-- What reading a key of a document that is no object raises. -/
def notAnObject : PyData → Crash
  | .str text => if points "schema" <:+: text then .typeError else .attributeError
  | .list entries => if entries.any (fun entry => equal entry (.str "schema")) then .typeError
      else .attributeError
  | _ => .typeError

/-- `load_floors` -/
def loadFloors (library : Library) (path : PyString) : FloorsFile → Except LoadError Floors
  | .absent => pure (floorsOf [])
  | .unreadable error => throw (.reported error)
  | .document (.dict user) =>
    match mapGet user (points "schema") with
    | none => pure (floorsOf user)
    | some schema =>
      if equal schema (.str floorsSchema) = true then pure (floorsOf user)
      else throw (.reported (say [path,": unsupported schema ",library.repr schema,"; expected ",
        library.repr (.str floorsSchema)]))
  | .document other => throw (.crashed (notAnObject other))

/-- Iterating over a value of a document. -/
def iterate : PyData → Except Crash (List PyData)
  | .list entries => pure entries
  | .dict fields => pure (fields.map (fun field => .str field.1))
  | .str text => pure (text.map (fun c => .str [c]))
  | _ => throw .typeError

/-- `value or []` -/
def orEmpty (value : PyData) : PyData := if truthy value then value else .list []

end Loading

section SubChecks

/-- A crate as the runner reads it. -/
structure Crate extends PyramidPlan.Directories where
  hasManifest : Bool
  hasFuzz : Bool
  cargoToml : Except Crash PyString
  floorsPath : PyString
  floorsFile : FloorsFile
  sources : Except Crash (Option (List (PyString × PyString)))
  fuzzTarget : PyString → Bool

variable (library : Library) (alphabet : Alphabet) (crate : Crate) (machine : Machine)

structure Combo where
  name : PyData
  release : Bool
  result : Result

structure FeatureMatrix where
  status : Status
  combos : List Combo

structure PropertyBar where
  status : Status
  publicModules : List PyString
  belowBar : List PyString

structure FuzzSurfaces where
  status : Status
  missingTargets : List PyData
  belowFloor : List PyData

structure SubChecks where
  featureMatrix : FeatureMatrix
  propertyBar : PropertyBar
  fuzzSurfaces : FuzzSurfaces

def SubChecks.statuses (checks : SubChecks) : List Status :=
  [checks.featureMatrix.status,checks.propertyBar.status,checks.fuzzSurfaces.status]

/-- `",".join(value)` -/
def joinTexts (value : PyData) : Except Crash PyString := do
  let items ← iterate value
  let texts ← items.mapM (fun item =>
    match item with
    | .str text => pure text
    | _ => throw .typeError)
  pure (joined "," texts)

def flagged (combo : PyFields) (key : PyString) (words : List PyString) : List PyString :=
  if truthy (PythonData.get combo key) = true then words else []

def comboArgv (workspace : Bool) (combo : PyFields) (features : PyString) : List PyString :=
  ["cargo","check","--quiet"].map points ++ (if workspace then [points "--workspace"] else []) ++
    flagged combo "no_default_features" [points "--no-default-features"] ++
    flagged combo "features" [points "--features",features] ++
    flagged combo "release" [points "--release"]

def comboName (combo : PyFields) (features : PyString) : PyData :=
  let named := PythonData.get combo "name"
  if truthy named = true then named else if features = [] then .str "default" else .str features

def comboLayer : PyString := "floors"

def runCombo (workspace : Bool) (entry : PyData × ℕ) :
    Except Crash (Combo × Invocation × Result) :=
  match entry.1 with
  | .dict combo => do
    let features ← joinTexts (orEmpty (PythonData.get combo "features"))
    let ran ← execute machine comboLayer entry.2
      (inCrate crate.root (comboArgv workspace combo features) 1800)
    pure (⟨comboName combo features,truthy (PythonData.get combo "release"),ran.2⟩,ran)
  | _ => throw .attributeError

def statusOf (good : Prop) [Decidable good] : Status := if good then .passed else .failed

def runMatrix (workspace : Bool) (matrix : PyData) :
    Except Crash (FeatureMatrix × List (Invocation × Result)) := do
  let entries ← iterate matrix
  let combos ← entries.zipIdx.mapM (runCombo crate machine workspace)
  pure (⟨statusOf (∀ combo ∈ combos, combo.2.2.returncode = 0),combos.map Prod.fst⟩,
    combos.map Prod.snd)

def workspaceCombo (result : Result) : FeatureMatrix :=
  ⟨statusOf (result.returncode = 0),[⟨.str "workspace-default",false,result⟩]⟩

def featureMatrix (workspace : Bool) (floors : Floors) :
    Except Crash (FeatureMatrix × List (Invocation × Result)) :=
  if truthy floors.matrix = true then runMatrix crate machine workspace floors.matrix
  else if workspace = true then do
    let ran ← execute machine comboLayer 0
      (inCrate crate.root (["cargo","check","--workspace","--quiet"].map points) 1800)
    pure (workspaceCombo ran.2,[ran])
  else pure (⟨.notApplicable,[]⟩,[])

/-- The public modules, and those of them that have fewer tests than the bar. -/
def barOf (minimum : ℤ) (propertyOnly : Bool) (sources : List (PyString × PyString)) : PropertyBar :=
  let modules := sources.filter (fun file => hasPublicApi alphabet file.2)
  let below := modules.filter (fun file => (countTests alphabet file.2 propertyOnly : ℤ) < minimum)
  ⟨if modules = [] then .notApplicable else statusOf (below = []),modules.map Prod.fst,
    below.map Prod.fst⟩

/-- `modules_below_bar` -/
def modulesBelowBar (floors : Floors) : Except Crash PropertyBar := do
  let minimum ← toInt alphabet floors.minPerModule
  let sources ← crate.sources
  match sources with
  | none => pure ⟨.notApplicable,[],[]⟩
  | some files => pure (barOf alphabet minimum (truthy floors.requirePropertyTests) files)

/-- `f"{value}"` -/
def shown : PyData → PyString
  | .str text => text
  | other => library.repr other

/-- `durations.get(value, 0)` -/
def durationOf (durations : List (PyString × ℚ)) : PyData → Except Crash ℚ
  | .str name => pure ((mapGet durations name).getD 0)
  | .list _ => throw .typeError
  | .dict _ => throw .typeError
  | _ => pure 0

/-- The surfaces whose measured duration is below the floor. -/
def shortSurfaces (durations : List (PyString × ℚ)) (minimum : ℤ) (surfaces : List PyData) :
    Except Crash (List PyData) := do
  let timed ← surfaces.mapM (fun surface => do
    let duration ← durationOf durations surface
    pure (surface,duration))
  pure ((timed.filter (fun entry => entry.2 < (minimum : ℚ))).map Prod.fst)

/-- The fuzz layer as the floors see it: its status and what it measured. -/
structure Measured where
  status : Status
  durations : List (PyString × ℚ)

/-- `fuzz_surface_check` -/
def fuzzSurfaceCheck (surfaces : PyData) (minimum : ℤ) (fuzz : Option Measured) :
    Except Crash FuzzSurfaces :=
  if truthy surfaces = false then pure ⟨.notApplicable,[],[]⟩
  else do
    let names ← iterate surfaces
    let missing := names.filter (fun surface => !crate.fuzzTarget (say [shown library surface,".rs"]))
    if missing ≠ [] then pure ⟨.failed,missing,[]⟩
    else
      match fuzz.filter (fun measured => measured.status = .passed) with
      | none => pure ⟨.skipped,[],[]⟩
      | some measured => do
        let short ← shortSurfaces measured.durations minimum names
        pure ⟨statusOf (short = []),[],short⟩

def aggregate (statuses : List Status) : Status :=
  if .failed ∈ statuses then .failed else if .skipped ∈ statuses then .skipped else .passed

/-- `floors_layer` -/
def floorsLayer (floors : Floors) (workspace : Bool) (fuzz : Option Measured) :
    Except Crash (SubChecks × List (Invocation × Result)) := do
  let matrix ← featureMatrix crate machine workspace floors
  let bar ← modulesBelowBar alphabet crate floors
  let minimum ← toInt alphabet floors.minSeconds
  let surfaces ← fuzzSurfaceCheck library crate floors.surfaces minimum fuzz
  pure (⟨matrix.1,bar,surfaces⟩,matrix.2)

end SubChecks

end PyramidFloors

end EvidenceV4
