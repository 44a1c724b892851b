import EvidenceV4.ObligationSpec
import EvidenceV4.RepositoryTree
import EvidenceV4.ScalarText

/-!
# Acceptance of obligations

The checker reruns every obligation of a manifest: the specification typechecks,
each invariant is defined, unchanged, about the state and verified, and each
witness and each transition is reached. Every call of the tool has its own place
in the check and its own outcome. An exception anywhere ends the check in error.
-/

set_option autoImplicit false

namespace EvidenceV4

namespace Obligation

open CheckedExcept
open CheckerJson (PyString points)
open EvidenceArtifact (splitlines occurs)
open PolicyDocument (mapGet mapGet_isSome)
open PythonData
open RepositoryTree (parsePath)

/-- The interpreter's library, and the class of the characters of a word. -/
structure Interpreter extends Library where
  dumps : PyData → PyString
  word : ℕ → Bool
  space : word 32 = false

/-- What is raised inside the check is reported as an error, whatever it is. -/
abbrev Raising (α : Type) := Except Unit α

section Tools

structure Outcome where
  returncode : ℤ
  stdout : PyString
  stderr : PyString

/-- Where in the check a call of the tool stands. -/
inductive Site where
  | version
  | typecheck
  | safety (index : ℕ)
  | witnessRun (index : ℕ)
  | witnessVerify (index : ℕ)
  | probeRun (index : ℕ)
  | probeVerify (index : ℕ)
  deriving DecidableEq

/-- The arguments of a call, and the text of the probe file that it reads. -/
structure Invocation where
  args : List PyString
  probe : Option PyString
  deriving DecidableEq

abbrev Tool := Site → Invocation → Raising Outcome

def lowerCase (c : ℕ) : ℕ := if 65 ≤ c ∧ c ≤ 90 then c + 32 else c

/-- `returncode != 0 and "violat" in (stdout + stderr).lower()` -/
def Outcome.violation (outcome : Outcome) : Bool :=
  outcome.returncode != 0 && occurs "violat" ((outcome.stdout ++ outcome.stderr).map lowerCase)

structure Result where
  obligation : PyString
  target : PyData
  ok : Bool
  evidence : PyString
  detail : PyString

structure ProposalDiff where
  invariant : PyString
  pinnedSha256 : PyData
  proposedSha256 : PyString
  proposedDefinition : PyString

end Tools

section Fields

/-- `fields[key] = value` -/
def put (fields : PyFields) (key : PyString) (value : PyData) : PyFields :=
  if has fields key then fields.map (fun field => if field.1 = key then (key,value) else field)
  else fields ++ [(key,value)]

/-- `del fields[key]` -/
def erase (fields : PyFields) (key : PyString) : PyFields := fields.filter (fun field => field.1 ≠ key)

/-- `fields[key]` -/
def item (fields : PyFields) (key : PyString) : Raising PyData :=
  match mapGet fields key with
  | some value => pure value
  | none => throw ()

def textItem (fields : PyFields) (key : PyString) : Raising PyString :=
  match mapGet fields key with
  | some (.str text) => pure text
  | _ => throw ()

/-- Iterating over a value. -/
def members : PyData → Raising (List PyData)
  | .list entries => pure entries
  | .dict fields => pure (fields.map (fun field => .str field.1))
  | .str text => pure (text.map (fun c => .str [c]))
  | _ => throw ()

/-- `fields.get(key, default)` -/
def getOr (fields : PyFields) (key : PyString) (default : PyData) : PyData :=
  (mapGet fields key).getD default

end Fields

section FieldFacts

variable {fields : PyFields} {key other : PyString} {value : PyData}

theorem mapGet_cons (field : PyString × PyData) : mapGet (field :: fields) key =
    (mapGet fields key).or (if field.1 = key then some field.2 else none) := by
  rw [mapGet, mapGet, List.reverse_cons, List.find?_append]
  cases (fields.reverse.find? (fun entry => entry.1 = key)) with
  | some found => rfl
  | none =>
    by_cases same : field.1 = key <;> simp [same]

theorem mapGet_replaced :
    mapGet (fields.map (fun field => if field.1 = key then (key,value) else field)) other =
      if other = key then (mapGet fields key).map (fun _ => value) else mapGet fields other := by
  induction fields with
  | nil => by_cases same : other = key <;> simp [same, mapGet]
  | cons field rest ih =>
    rw [List.map_cons, mapGet_cons, ih, mapGet_cons, mapGet_cons]
    by_cases same : other = key
    · subst same
      rw [if_pos rfl, if_pos rfl]
      by_cases here : field.1 = other
      · cases mapGet rest other <;> simp [here]
      · cases mapGet rest other <;> simp [here]
    · rw [if_neg same, if_neg same]
      by_cases here : field.1 = key
      · have elsewhere : key ≠ other := fun e => same e.symm
        simp [here, elsewhere]
      · simp [here]

@[simp] theorem mapGet_put : mapGet (put fields key value) other =
    if other = key then some value else mapGet fields other := by
  unfold put
  split
  · rename_i known
    rw [mapGet_replaced]
    obtain ⟨found,read⟩ := Option.isSome_iff_exists.mp known
    rw [read, Option.map_some]
  · rename_i unknown
    have missing : mapGet fields key = none := by
      rw [has, Bool.not_eq_true, Option.isSome_eq_false_iff] at unknown
      exact Option.isNone_iff_eq_none.mp unknown
    rw [mapGet, List.reverse_append, List.reverse_singleton, List.singleton_append, List.find?_cons]
    by_cases same : other = key
    · simp [same]
    · have elsewhere : key ≠ other := fun e => same e.symm
      simp [same, elsewhere, mapGet]

theorem mapGet_erase (different : other ≠ key) :
    mapGet (erase fields key) other = mapGet fields other := by
  rw [mapGet, mapGet, erase, ← List.filter_reverse, List.find?_filter]
  apply congrArg (Option.map Prod.snd)
  apply congrArg (fun p => List.find? p fields.reverse)
  ext field
  by_cases here : field.1 = other <;> simp [here, different]

theorem erase_replaced : erase (fields.map (fun field => if field.1 = key then (key,value) else field))
    key = erase fields key := by
  induction fields with
  | nil => rfl
  | cons field rest ih =>
    simp only [erase, List.map_cons, List.filter_cons, ne_eq, decide_not] at ih ⊢
    by_cases here : field.1 = key
    · simp [here, ih]
    · simp [here, ih]

theorem erase_put : erase (put fields key value) key = erase fields key := by
  unfold put
  split
  · exact erase_replaced
  · simp [erase]

theorem put_put {again : PyData} : put (put fields key value) key again = put fields key again := by
  have known : has (put fields key value) key = true := by
    rw [has, mapGet_put, if_pos rfl, Option.isSome_some]
  rw [put, if_pos known]
  unfold put
  split
  · rw [List.map_map]
    apply List.map_congr_left
    intro field _
    by_cases here : field.1 = key <;> simp [here]
  · rename_i unknown
    have absent : ∀ field ∈ fields, field.1 ≠ key := by
      intro field member same
      apply unknown
      rw [has, mapGet_isSome]
      exact List.mem_map.mpr ⟨field,member,same⟩
    rw [List.map_append, List.map_congr_left (fun field member => if_neg (absent field member))]
    simp

theorem getOr_put {default : PyData} (different : other ≠ key) :
    getOr (put fields key value) other default = getOr fields other default := by
  rw [getOr, getOr, mapGet_put, if_neg different]

theorem item_put (different : other ≠ key) : item (put fields key value) other = item fields other := by
  rw [item, item, mapGet_put, if_neg different]

theorem textItem_put (different : other ≠ key) :
    textItem (put fields key value) other = textItem fields other := by
  rw [textItem, textItem, mapGet_put, if_neg different]

end FieldFacts

section Checker

variable (python : Interpreter) (tool : Tool)

def Interpreter.str : PyData → PyString
  | .str text => text
  | value => python.repr value

/-- `sha256(text)` -/
def Interpreter.textSha256 (text : PyString) : PyString := python.sha256 (ScalarText.encode text)

/-- `bound_args` -/
def boundArgs (bounds : PyData) (samples : Bool) : Raising (List PyString) :=
  match bounds with
  | .dict fields =>
    pure (say ["--max-steps=",python.str (getOr fields "max_steps" (.int 20))] ::
      if samples then say ["--max-samples=",python.str (getOr fields "max_samples" (.int 1000))] ::
        if truthy (get fields "seed") then [say ["--seed=",python.str (get fields "seed")]] else []
      else [])
  | _ => throw ()

def boundedChecked (bounds : PyData) : PyString :=
  say ["bounded-checked (verify, depth=",
    python.str ((mapGet ((fieldsOf bounds).getD []) (points "max_steps")).getD (.int 20)),")"]

/-- A specification and the part of the manifest that every obligation reads. -/
structure Subject where
  specText : PyString
  mainName : PyString
  bounds : PyData

variable (subject : Subject)

def inCopy (command : PyString) (options : List PyString) (samples : Bool) : Raising Invocation := do
  let bounds ← boundArgs python subject.bounds samples
  pure ⟨command :: options ++ bounds ++ [subject.mainName],none⟩

def invariantOption (name : PyString) : PyString := say ["--invariant=",name]

/-- `extract_definition(spec_text, name)`, where a name that is no text raises at the first line. -/
def definitionOf (name : PyData) : Raising (Option (PyString × PyString)) :=
  match name with
  | .str text => pure ((extractDefinition python.word subject.specText text).map (fun d => (text,d)))
  | _ => if splitlines subject.specText = [] then pure none else throw ()

/-- What one entry of the manifest adds to the results, and what becomes of it. -/
structure Part where
  results : List Result
  diffs : List ProposalDiff
  entry : PyData

def presence (name : PyData) (ok : Bool) (detail : PyString) : Result :=
  ⟨"presence",name,ok,"textual",detail⟩

def undefinedInvariant : PyString := "required invariant not defined in the spec"

def undefinedWitness : PyString := "witness not defined in the spec"

def unfrozen : PyString :=
  "definition differs from the frozen manifest — recorded as a proposal diff, not accepted"

def noState : PyString :=
  "definition references no state variable (one def level chased) or is literally true"

/-- The comparison with the pin, where there is one. -/
def frozen (name actual : PyString) (pin : PyData) : List Result :=
  if truthy pin then [⟨"frozen",.str name,equal pin (.str actual),"hash-pinned",unfrozen⟩] else []

def frozenDiffs (name actual definition : PyString) (pin : PyData) : List ProposalDiff :=
  if truthy pin = true ∧ equal pin (.str actual) = false then [⟨name,pin,actual,definition⟩] else []

def vacuity (name definition : PyString) : Result :=
  ⟨"vacuity",.str name,!vacuous python.word subject.specText name definition,"heuristic",noState⟩

def lastCharacters (count : ℕ) (text : PyString) : PyString := text.drop (text.length - count)

def safety (name : PyString) (verified : Outcome) : Result :=
  ⟨"safety",.str name,verified.returncode == 0,boundedChecked python subject.bounds,
    lastCharacters 300 (verified.stdout ++ verified.stderr)⟩

/-- The checks of an invariant that is defined. -/
def checkDefinition (index : ℕ) (fields : PyFields) (name definition : PyString) : Raising Part := do
  let pin := get fields "definition_sha256"
  let actual := python.textSha256 definition
  let call ← inCopy python subject "verify" [invariantOption name] false
  let verified ← tool (.safety index) call
  pure ⟨presence (.str name) true undefinedInvariant :: frozen name actual pin ++
      [vacuity python subject name definition,safety python subject name verified],
    frozenDiffs name actual definition pin,.dict (put fields "_observed_sha256" (.str actual))⟩

/-- One entry of `invariants`. -/
def checkInvariant (index : ℕ) : PyData → Raising Part
  | .dict fields => do
    let name ← item fields "name"
    let found ← definitionOf python subject name
    match found with
    | none => pure ⟨[presence name false undefinedInvariant],[],.dict fields⟩
    | some (text,definition) => checkDefinition python tool subject index fields text definition
  | _ => throw ()

/-- A run that reports a violation, or else a verification that does not succeed. -/
def reach (obligation : PyString) (target : PyData) (detail : PyString) (runSite verifySite : Site)
    (run verify : Raising Invocation) : Raising Result := do
  let runCall ← run
  let tried ← tool runSite runCall
  if tried.violation then pure ⟨obligation,target,true,"witnessed (run trace)",[]⟩
  else do
    let verifyCall ← verify
    let verified ← tool verifySite verifyCall
    if verified.returncode = 0 then
      pure ⟨obligation,target,false,boundedChecked python subject.bounds,detail⟩
    else pure ⟨obligation,target,true,"witnessed (verify counterexample)",[]⟩

def unreachableWitness : PyString := say [
  "witness cannot be violated: the state it denies is unreachable within the bound, ",
  "or the witness is a tautology"]

def deadTransition : PyString :=
  "transition never fires within the bound: dead guard or unreachable precondition"

def reachWitness (index : ℕ) (name : PyString) : Raising Result :=
  reach python tool subject "reachability" (.str name) unreachableWitness (.witnessRun index)
    (.witnessVerify index) (inCopy python subject "run" [invariantOption name] true)
    (inCopy python subject "verify" [invariantOption name] false)

/-- One entry of `witnesses`. -/
def checkWitness (index : ℕ) : PyData → Raising (List Result)
  | .dict fields => do
    let name ← item fields "name"
    let found ← definitionOf python subject name
    match found with
    | none => pure [presence name false undefinedWitness]
    | some (text,_) => do
      let reached ← reachWitness python tool subject index text
      pure [presence name true undefinedWitness,reached]
  | _ => throw ()

/-- What the probe of a transition is built from. -/
structure Probes where
  moduleName : PyString
  stem : PyString
  init : PyString
  step : PyString

def probeText (probes : Probes) (transition : PyString) : PyString :=
  say ["module __obligation_probe \x7b\n  import ",probes.moduleName,".* from \"./",probes.stem,
    "\"\n  var __fired: bool\n  action __init = all \x7b ",probes.init,
    ", __fired' = false \x7d\n  action __step = any \x7b\n    all \x7b ",transition,
    ", __fired' = true \x7d,\n    all \x7b ",probes.step,
    ", __fired' = __fired \x7d,\n  \x7d\n  val __unfired = not(__fired)\n\x7d\n"]

def probeOptions : List PyString :=
  ["--init=__init","--step=__step","--invariant=__unfired"].map points

def probeCall (probes : Probes) (transition command : PyString) (samples : Bool) :
    Raising Invocation := do
  let bounds ← boundArgs python subject.bounds samples
  pure ⟨command :: probeOptions ++ bounds ++ [points "__obligation_probe.qnt"],
    some (probeText probes transition)⟩

/-- One entry of `transitions`. -/
def checkTransition (probes : Probes) (index : ℕ) (transition : PyData) : Raising Result :=
  let text := python.str transition
  reach python tool subject "enabledness" transition deadTransition (.probeRun index)
    (.probeVerify index) (probeCall python subject probes text "run" true)
    (probeCall python subject probes text "verify" false)

end Checker

section Runs

/-- What the checker finds beside the manifest: the texts of the files of the specification, in the
order of their names, and the intent. -/
structure Directory where
  inTree : PyString → Bool
  specs : PyString → Raising (List PyString)
  intent : PyString → Raising PyString

variable (python : Interpreter) (tool : Tool) (directory : Directory)

/-- `(spec_copy / main_file).name` -/
def fileName (path : PyString) : PyString :=
  let parsed := parsePath path
  parsed.parts.getLast?.getD (if parsed.absolute then [] else points "spec")

/-- `Path(main_file).stem` -/
def stemOf (path : PyString) : PyString :=
  let name := (parsePath path).parts.getLast?.getD []
  let suffix := name.reverse.takeWhile (· ≠ 46)
  if suffix ≠ [] ∧ suffix.length + 1 < name.length then name.take (name.length - suffix.length - 1)
  else name

def intentChanged : PyString :=
  "intent text changed since the manifest was frozen; regenerate the manifest deliberately"

def intentResults (manifest : PyFields) (path : PyString) : Raising (List Result) :=
  let pin := get manifest "intent_sha256"
  if truthy pin then do
    let text ← directory.intent path
    pure [⟨"intent",.str path,equal (.str (python.textSha256 text)) pin,"hash-pinned",intentChanged⟩]
  else pure []

structure Run where
  results : List Result
  diffs : List ProposalDiff
  manifest : PyFields

def typecheckResult (mainName : PyString) (typechecked : Outcome) : Result :=
  ⟨"typecheck",.str mainName,typechecked.returncode == 0,"mechanical",
    (strip typechecked.stderr).take 300⟩

/-- The invariants of a manifest, as the check leaves them behind. -/
def observed (manifest : PyFields) (parts : List Part) : PyFields :=
  match get manifest "invariants" with
  | .list _ => put manifest "invariants" (.list (parts.map Part.entry))
  | _ => manifest

def checkInvariants (manifest : PyFields) (subject : Subject) : Raising (List Part) := do
  let entries ← members (getOr manifest "invariants" (.list []))
  entries.zipIdx.mapM (fun entry => checkInvariant python tool subject entry.2 entry.1)

def checkWitnesses (manifest : PyFields) (subject : Subject) : Raising (List (List Result)) := do
  let entries ← members (getOr manifest "witnesses" (.list []))
  entries.zipIdx.mapM (fun entry => checkWitness python tool subject entry.2 entry.1)

def probesOf (manifest : PyFields) (mainFile : PyString) : Raising Probes := do
  let moduleName ← item manifest "module"
  pure ⟨python.str moduleName,stemOf mainFile,python.str (getOr manifest "init" (.str "init")),
    python.str (getOr manifest "step" (.str "step"))⟩

def checkTransitions (manifest : PyFields) (mainFile : PyString) (subject : Subject) :
    Raising (List Result) := do
  let probes ← probesOf python manifest mainFile
  let entries ← members (getOr manifest "transitions" (.list []))
  entries.zipIdx.mapM (fun entry => checkTransition python tool subject probes entry.2 entry.1)

/-- The obligations of a specification that typechecks. -/
def checkObligations (manifest : PyFields) (mainFile : PyString) (subject : Subject)
    (before : List Result) : Raising Run := do
  let invariants ← checkInvariants python tool manifest subject
  let witnesses ← checkWitnesses python tool manifest subject
  let transitions ← checkTransitions python tool manifest mainFile subject
  pure ⟨before ++ invariants.flatMap Part.results ++ witnesses.flatten ++ transitions,
    invariants.flatMap Part.diffs,observed manifest invariants⟩

def runTypechecked (manifest : PyFields) (mainFile : PyString) (subject : Subject)
    (before : List Result) (typechecked : Outcome) : Raising Run :=
  let results := before ++ [typecheckResult subject.mainName typechecked]
  if typechecked.returncode = 0 then checkObligations python tool manifest mainFile subject results
  else pure ⟨results,[],manifest⟩

/-- `run_all` -/
def runAll (manifest : PyFields) (specDir intentPath : PyString) : Raising Run := do
  let mainFile ← textItem manifest "main_file"
  let specs ← directory.specs specDir
  let intent ← intentResults python directory manifest intentPath
  let typechecked ← tool .typecheck ⟨[points "typecheck",fileName mainFile],none⟩
  runTypechecked python tool manifest mainFile
    ⟨joined "\n" specs,fileName mainFile,getOr manifest "bounds" (.dict [])⟩ intent typechecked

inductive Verdict where
  | accepted
  | proposal
  | error
  | refused
  deriving DecidableEq

/-- What a check reports, and the text of the manifest that it leaves. -/
structure Report where
  verdict : Verdict
  results : List Result
  diffs : List ProposalDiff
  text : PyString

/-- One invariant with its observed hash in the place of its pin. -/
def pinnedEntry : PyData → PyData
  | .dict fields =>
    match mapGet fields (points "_observed_sha256") with
    | some hash => .dict (put (erase fields "_observed_sha256") "definition_sha256" hash)
    | none => .dict fields
  | value => value

def pinnedManifest (manifest : PyFields) : PyFields :=
  match get manifest "invariants" with
  | .list entries => put manifest "invariants" (.list (entries.map pinnedEntry))
  | _ => manifest

def acceptedRun (run : Run) : Bool := run.results.all Result.ok

def reportRun (pin : Bool) (text : PyString) (run : Run) : Report :=
  if acceptedRun run then
    ⟨.accepted,run.results,run.diffs,
      if pin then python.dumps (.dict (pinnedManifest run.manifest)) ++ [10] else text⟩
  else ⟨.proposal,run.results,run.diffs,text⟩

def failed (verdict : Verdict) (text : PyString) : Report := ⟨verdict,[],[],text⟩

/-- The checker's part of the manifest: `Checker.__init__` up to its look at the tree. -/
def opened (text : PyString) : Raising (PyFields × PyString) :=
  match python.loads text with
  | some (.dict manifest) => do
    let specDir ← textItem manifest "spec_dir"
    pure (manifest,specDir)
  | _ => throw ()

def checkOpened (pin : Bool) (text : PyString) (manifest : PyFields) (specDir : PyString) : Report :=
  let checked : Raising Run := do
    let intentPath ← textItem manifest "intent_path"
    let _ ← tool .version ⟨[points "--version"],none⟩
    runAll python tool directory manifest specDir intentPath
  match checked with
  | .ok run => reportRun python pin text run
  | .error _ => failed .error text

/-- `main`, with or without `--pin`, over the text of the manifest. -/
def obligationCheck (pin : Bool) (text : PyString) : Report :=
  match opened python text with
  | .error _ => failed .error text
  | .ok (manifest,specDir) =>
    if directory.inTree specDir then checkOpened python tool directory pin text manifest specDir
    else failed .refused text

end Runs

end Obligation

end EvidenceV4
