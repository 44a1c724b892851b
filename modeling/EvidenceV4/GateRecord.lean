import EvidenceV4.GateManifest
import EvidenceV4.RepositoryTree

/-!
# The record check of the gate

A record commits to the bindings of a run and, in the cohort schema, to every
execution of it. The check collects defects in stages. A stage with a defect
hides the later ones, and a value that cannot be hashed where a name is expected
raises. The artifacts are read last, through the tree of the repository.
-/

set_option autoImplicit false

namespace EvidenceV4

namespace GateRecord

open CheckedExcept
open CheckerJson (PyString points)
open EvidenceArtifact (passArtifactDefects)
open Findings
open GateManifest
open ObligationManifest (kindName)
open PolicyDocument (mapGet)
open PythonData
open RepositoryTree

section Tables

def evidenceClasses : List PyString :=
  ["code-enforced","proof-discharged","bounded-checked","test-witnessed","conformance-tested",
    "externally-assumed","unverified"]

def compatibility : ObligationKind → List PyString
  | .invariant => ["code-enforced","proof-discharged","bounded-checked","conformance-tested",
      "externally-assumed","unverified"]
  | .witness => ["test-witnessed","conformance-tested","externally-assumed","unverified"]
  | .systemClaim => evidenceClasses

def assumedClasses : List PyString := ["externally-assumed","unverified"]

def results : List PyString := ["PASS","FAIL","INCOMPLETE"]

def waiverFields : List PyString := ["id","approver","scope"]

def producerProfile : PyString := "producer-trusted-execution"

def dirtySuffix : PyString := "+dirty"

def evidenceSchemaV3 : PyString := "fv-evidence-run/v3"

def topFields : List PyString :=
  ["claim_id","required","evidence_class","result","scope","bindings","waiver"]

def bindingFields : List PyString :=
  ["source_snapshot","intent_hash","obligation_manifest_hash","profile","required_targets",
    "environment_policy","toolchain_digests","command","configuration","seeds","raw_output_hash",
    "parser_schema_version","run_id"]

def nullable : List PyString := ["seeds","waiver"]

def v3BindingFields : List PyString := ["intent_path","executions"]

def executionFields : List PyString :=
  ["tool","evidence_class","command","cwd","toolchain_digests","raw_output_path",
    "raw_output_hash","result","run_id"]

/-- `PRODUCER_ARTIFACT.format(...)` -/
def producerArtifact (claim run : PyString) : PyString :=
  say [".fv/evidence/raw/",claim,"-",run,".log"]

end Tables

section Shapes

def nonemptyText : PyData → Bool
  | .str value => !value.isEmpty
  | _ => false

def isText (value : PyData) : Bool := (textOf value).isSome

def isInt : PyData → Bool
  | .int _ => true
  | .bool _ => true
  | _ => false

def isBool : PyData → Bool
  | .bool _ => true
  | _ => false

def isLowerHex (c : ℕ) : Bool := (48 ≤ c && c ≤ 57) || (97 ≤ c && c ≤ 102)

def hexDigest (value : PyString) : Bool := value.length == 64 && value.all isLowerHex

def validToolchain (toolchain : PyData) : Bool :=
  match toolchain with
  | .dict fields => nonemptyText (get fields "executable") &&
      ((textOf (get fields "sha256")).any hexDigest) && isText (get fields "version") &&
      isInt (get fields "version_exit_code")
  | _ => false

/-- A nonempty array of nonempty strings. -/
def argv : PyData → Bool
  | .list entries => !entries.isEmpty && entries.all nonemptyText
  | _ => false

def obligationIds : PyData → Bool
  | .list entries => !entries.isEmpty && entries.all (fun entry => (textOf entry).any obligationId)
  | _ => false

/-- `value in ("", [], {})` -/
def hollow : PyData → Bool
  | .str value => value.isEmpty
  | .list entries => entries.isEmpty
  | .dict fields => fields.isEmpty
  | _ => false

def isNone : PyData → Bool
  | .none => true
  | _ => false

end Shapes

variable (library : Library)

section Text

def waiverDefects (waiver : PyData) : List PyString :=
  if truthy waiver = false then []
  else
    match waiver with
    | .dict fields =>
      let missing := waiverFields.filter (fun field => !written (get fields field))
      finding (missing = []) (say ["waiver is not attributable: ",
        library.repr (.list (missing.map .str))," missing or blank; an ",
        "assumed claim is waived only by a nonempty id, approver, and ","scope: ",
        library.repr waiver])
    | _ => [say ["waiver is not an object: ",library.repr waiver]]

def writtenFields (schemaV3 : Bool) : List PyString :=
  ["intent_hash","obligation_manifest_hash","environment_policy","parser_schema_version","run_id"] ++
    (if schemaV3 = true then ["intent_path"] else [])

def assertedFieldDefects (bindings : PyFields) (schemaV3 : Bool) : List PyString :=
  finding ((textOf (get bindings "profile")).any profileId = true)
      (say ["malformed profile ",library.repr (get bindings "profile")]) ++
    finding (obligationIds (get bindings "required_targets") = true)
      (say ["required_targets is not a nonempty array of obligation ids: ",
        library.repr (get bindings "required_targets")]) ++
    (writtenFields schemaV3).flatMap (fun name => finding (written (get bindings name) = true)
      (say ["binding field ",quoted library name," is not a nonempty string: ",
        library.repr (get bindings name)]))

def dirtySnapshotDefects (fields bindings : PyFields) : List PyString :=
  match get fields "result", get bindings "source_snapshot" with
  | .str result, .str snapshot =>
    finding (result = ("PASS" : PyString) → dirtySuffix.isSuffixOf snapshot = false)
      (say ["PASS record bound to a dirty snapshot ",quoted library snapshot,
        ": its verified inputs ","moved during the run"])
  | _, _ => []

/-- What `expect` means as a condition: an absent or empty expectation is none. -/
def wanted (expect : Option PyString) : Option PyString :=
  expect.filter (fun value => !value.isEmpty)

def manifestBindingDefects (bindings : PyFields) (expectManifest : Option PyString) :
    List PyString :=
  match wanted expectManifest with
  | none => []
  | some expected =>
    finding (equal (get bindings "obligation_manifest_hash") (.str expected) = true)
      (say ["stale record: bound to obligation manifest ",
        library.repr (get bindings "obligation_manifest_hash"),", ","expected ",
        quoted library expected])

/-- The strings of an array. -/
def names (value : PyData) : List PyString :=
  ((entriesOf value).getD []).filterMap textOf

def targetDefects (declared expected : List PyString) : List PyString :=
  let missing := sortedNames (expected.filter (fun name => name ∉ declared))
  let unexpected := sortedNames (declared.filter (fun name => name ∉ expected))
  finding declared.Nodup (say ["required_targets repeats an obligation id: ",
      library.repr (.list (declared.map .str))]) ++
    finding (missing = [] ∧ unexpected = [])
      (say ["required_targets is not the obligation manifest's required ","set: missing ",
        library.repr (.list (missing.map .str)),", unexpected ",
        library.repr (.list (unexpected.map .str))])

def v3ProducerDefects (bindings : PyFields) (expectRequiredTargets : Option (List PyString)) :
    List PyString :=
  finding (equal (get bindings "profile") (.str producerProfile) = true)
      (say ["cohort-schema record declares profile ",library.repr (get bindings "profile"),
        ", not the ","producer profile ",quoted library producerProfile]) ++
    (match expectRequiredTargets, entriesOf (get bindings "required_targets") with
      | some expected, some _ =>
        targetDefects library (names (get bindings "required_targets")) expected
      | _, _ => [])

/-- The schema whose artifacts belong to executions. -/
def cohortSchema (bindings : PyFields) : Bool :=
  equal (get bindings "parser_schema_version") (.str evidenceSchemaV3) || has bindings "executions"

def isSchemaV3 (record : PyData) : Bool :=
  match lookup record "bindings" with
  | .dict bindings => cohortSchema bindings
  | _ => false

def bindingDefects (bindings : PyFields) (schemaV3 : Bool) : List PyString :=
  (bindingFields ++ (if schemaV3 = true then v3BindingFields else [])).flatMap (fun field =>
    if has bindings field = false then [say ["missing binding field ",quoted library field]]
    else finding (hollow (get bindings field) = false ∧
        (isNone (get bindings field) = true → field ∈ nullable))
      (say ["empty binding field ",quoted library field]))

def producerIdentityDefects (bindings : PyFields) : List PyString :=
  finding (equal (get bindings "profile") (.str producerProfile) = true →
      validToolchain (get bindings "toolchain_digests") = true)
    "producer evidence lacks resolved executable identity"

def kindDefects (evidenceClass : PyData) (obligationKind : Option ObligationKind)
    (label : PyString) : List PyString :=
  match obligationKind with
  | none => []
  | some kind =>
    finding ((textOf evidenceClass).any (fun name => decide (name ∈ compatibility kind)) = true)
      (say [label,"incompatible evidence class ",library.repr evidenceClass,
        " for obligation kind ",quoted library (kindName kind)])

end Text

section Cohorts

/-- What an entry of a cohort is judged against. -/
structure Cohort where
  claimId : PyString
  producer : Bool
  obligationKind : Option ObligationKind

/-- The tools and artifacts of the entries before. -/
structure Seen where
  tools : List PyString
  paths : List (PyString × ℕ)

def entryLabel (index : ℕ) : PyString := say ["executions[",number index,"] "]

def toolDefects (tool : PyData) (label : PyString) (seen : Seen) : List PyString × Seen :=
  match (textOf tool).filter evidenceToolId with
  | none => ([say [label,"malformed evidence tool id ",library.repr tool]],seen)
  | some name =>
    if name ∈ seen.tools then
      ([say [label,"duplicate evidence tool ",quoted library name,": cohort coverage is ambiguous"]],
        seen)
    else ([],{ seen with tools := seen.tools ++ [name] })

def classDefects (cohort : Cohort) (evidenceClass : PyData) (label : PyString) :
    Except PyError (List PyString) := do
  let known ← member evidenceClasses evidenceClass
  pure (if known = true then kindDefects library evidenceClass cohort.obligationKind label
    else [say [label,"unknown evidence_class ",library.repr evidenceClass]])

def commandDefects (command : PyData) (label : PyString) : List PyString :=
  finding (argv command = true) (say [label,
    "command is not a nonempty argv array of nonempty strings: ",library.repr command])

def identityDefects (toolchain : PyData) (label : PyString) : List PyString :=
  finding (validToolchain toolchain = true) (say [label,"lacks resolved executable identity"])

def runIdDefects (runId : PyData) (label : PyString) : List PyString :=
  finding (written runId = true) (say [label,"run_id is empty"])

def firstUse (seen : Seen) (index : ℕ) (path : PyString) : ℕ := (mapGet seen.paths path).getD index

def artifactNameDefects (cohort : Cohort) (runId : PyData) (path label : PyString) :
    List PyString :=
  match textOf runId with
  | none => []
  | some run =>
    finding (cohort.producer = true → path = producerArtifact cohort.claimId run)
      (say [label,"raw_output_path ",quoted library path," is not this run's ","producer artifact ",
        quoted library (producerArtifact cohort.claimId run)])

/-- One artifact for each execution, named after its run when the producer wrote the record. -/
def pathDefects (cohort : Cohort) (index : ℕ) (rawRelative runId : PyData) (label : PyString)
    (seen : Seen) : List PyString × Seen :=
  match (textOf rawRelative).filter (fun path => !path.isEmpty) with
  | none => ([],seen)
  | some path =>
    (finding (firstUse seen index path = index) (say [label,"raw_output_path ",quoted library path,
        " duplicates ","executions[",number (firstUse seen index path),
        "]: one artifact cannot discharge two executions"]) ++
      artifactNameDefects library cohort runId path label,
      if (mapGet seen.paths path).isSome = true then seen
      else { seen with paths := seen.paths ++ [(path,index)] })

def markerFieldDefects (execution : PyFields) (label : PyString) : List PyString :=
  finding (has execution "pass_marker" = true → nonemptyText (get execution "pass_marker") = true)
    (say [label,"pass_marker is empty"])

def resultDefects (resultRule : PyString → List PyString) (result : PyData) (label : PyString) :
    Except PyError (List PyString) := do
  let known ← member results result
  pure (if known = true then ((textOf result).map resultRule).getD []
    else [say [label,"unknown result ",library.repr result]])

/-- The defects of an entry as text, with the rules that differ between the readers. -/
def entryDefects (cwdRule : PyData → PyString → Except PyError (List PyString))
    (resultRule : PyString → PyString → List PyString) (cohort : Cohort) (index : ℕ) (seen : Seen)
    (execution : PyFields) : Except PyError (List PyString × Seen) := do
  let label := entryLabel index
  let tool := toolDefects library (get execution "tool") label seen
  let classes ← classDefects library cohort (get execution "evidence_class") label
  let commands := commandDefects library (get execution "command") label
  let cwds ← cwdRule (get execution "cwd") label
  let identities := identityDefects (get execution "toolchain_digests") label
  let outcomes ← resultDefects library (resultRule label) (get execution "result") label
  let runs := runIdDefects (get execution "run_id") label
  let path := pathDefects library cohort index (get execution "raw_output_path")
    (get execution "run_id") label tool.2
  let markers := markerFieldDefects execution label
  pure (tool.1 ++ classes ++ commands ++ cwds ++ identities ++ outcomes ++ runs ++ path.1 ++ markers,
    path.2)

/-- An entry that is no object, or lacks a field, is judged no further. -/
def readableEntry (execution : PyData) (label : PyString) : List PyString ⊕ PyFields :=
  match execution with
  | .dict fields =>
    match executionFields.filter (fun field => !has fields field) with
    | [] => .inr fields
    | missing => .inl (missing.map (fun field => say [label,"missing field ",quoted library field]))
  | _ => .inl [say [label,"is not an object"]]

end Cohorts

section Entries

variable {library : Library} {execution : PyData} {fields : PyFields} {label : PyString}

theorem readableEntry_fields : readableEntry library execution label = .inr fields ↔
    execution = .dict fields ∧ ∀ field ∈ executionFields, has fields field = true := by
  unfold readableEntry
  cases execution with
  | dict entry =>
    simp only [PyData.dict.injEq]
    cases missing : executionFields.filter (fun field => !has entry field) with
    | nil =>
      have present : ∀ field ∈ executionFields, has entry field = true := by
        intro field member
        have absent := List.filter_eq_nil_iff.mp missing field member
        simpa using absent
      constructor
      · intro same
        obtain rfl := Sum.inr.inj same
        exact ⟨rfl,present⟩
      · rintro ⟨rfl,_⟩
        rfl
    | cons field others =>
      constructor
      · intro same
        cases same
      · rintro ⟨rfl,present⟩
        have member : field ∈ executionFields.filter (fun field => !has entry field) := by
          rw [missing]
          exact List.mem_cons_self
        have absent := (List.mem_filter.mp member)
        rw [present field absent.1] at absent
        exact absurd absent.2 Bool.false_ne_true
  | _ => simp

theorem readableEntry_unreadable {unreadable : List PyString}
    (h : readableEntry library execution label = .inl unreadable) : unreadable ≠ [] := by
  unfold readableEntry at h
  cases execution with
  | dict entry =>
    cases missing : executionFields.filter (fun field => !has entry field) with
    | nil => simp [missing] at h
    | cons field others =>
      simp only [missing, Sum.inl.injEq] at h
      simp [← h]
  | _ =>
    simp only [Sum.inl.injEq] at h
    simp [← h]

variable {cwdRule : PyData → PyString → Except PyError (List PyString)}
  {resultRule : PyString → PyString → List PyString} {cohort : Cohort} {index : ℕ}
  {seen seen' : Seen}

/-- A clean entry: each of its checks passes, and its tool and artifact are remembered. -/
theorem entryDefects_clean :
    entryDefects library cwdRule resultRule cohort index seen fields = .ok ([],seen') ↔
      (toolDefects library (get fields "tool") (entryLabel index) seen).1 = [] ∧
      classDefects library cohort (get fields "evidence_class") (entryLabel index) = .ok [] ∧
      argv (get fields "command") = true ∧
      cwdRule (get fields "cwd") (entryLabel index) = .ok [] ∧
      validToolchain (get fields "toolchain_digests") = true ∧
      resultDefects library (resultRule (entryLabel index)) (get fields "result")
        (entryLabel index) = .ok [] ∧
      written (get fields "run_id") = true ∧
      pathDefects library cohort index (get fields "raw_output_path") (get fields "run_id")
        (entryLabel index) (toolDefects library (get fields "tool") (entryLabel index) seen).2 =
          ([],seen') ∧
      (has fields "pass_marker" = true → nonemptyText (get fields "pass_marker") = true) := by
  simp only [entryDefects, commandDefects, identityDefects, runIdDefects, markerFieldDefects,
    bind_ok, pure_ok, Prod.mk.injEq, List.append_eq_nil_iff, finding_nil]
  constructor
  · rintro ⟨_,classed,_,stayed,_,resulted,⟨⟨⟨⟨⟨⟨⟨⟨tool,rfl⟩,command⟩,rfl⟩,identity⟩,rfl⟩,run⟩,path⟩,
      marker⟩,remembered⟩
    exact ⟨tool,classed,command,stayed,identity,resulted,run,Prod.ext path remembered,marker⟩
  · rintro ⟨tool,classed,command,stayed,identity,resulted,run,path,marker⟩
    exact ⟨_,classed,_,stayed,_,resulted,⟨⟨⟨⟨⟨⟨⟨⟨tool,rfl⟩,command⟩,rfl⟩,identity⟩,rfl⟩,run⟩,
      congrArg Prod.fst path⟩,marker⟩,congrArg Prod.snd path⟩

theorem classDefects_clean {evidenceClass : PyData} :
    classDefects library cohort evidenceClass label = .ok [] ↔
      ∃ name ∈ evidenceClasses, evidenceClass = .str name ∧
        ∀ kind ∈ cohort.obligationKind, name ∈ compatibility kind := by
  simp only [classDefects, bind_ok, pure_ok]
  constructor
  · rintro ⟨known,listed,clean⟩
    cases known with
    | false => simp at clean
    | true =>
      obtain ⟨name,among,rfl⟩ := (member_ok listed).mp rfl
      refine ⟨name,among,rfl,?_⟩
      intro kind held
      simpa [kindDefects, Option.mem_def.mp held, textOf] using clean
  · rintro ⟨name,among,rfl,admitted⟩
    refine ⟨true,by simp [member, among],?_⟩
    cases held : cohort.obligationKind with
    | none => simp [kindDefects]
    | some kind => simpa [kindDefects, textOf] using admitted kind held

theorem resultDefects_clean {result : PyData} {rule : PyString → List PyString} :
    resultDefects library rule result label = .ok [] ↔
      ∃ name ∈ results, result = .str name ∧ rule name = [] := by
  simp only [resultDefects, bind_ok, pure_ok]
  constructor
  · rintro ⟨known,listed,clean⟩
    cases known with
    | false => simp at clean
    | true =>
      obtain ⟨name,among,rfl⟩ := (member_ok listed).mp rfl
      exact ⟨name,among,rfl,by simpa [textOf] using clean⟩
  · rintro ⟨name,among,rfl,passes⟩
    exact ⟨true,by simp [member, among],by simpa [textOf] using passes⟩

theorem toolDefects_clean {tool : PyData} {seen : Seen} :
    (toolDefects library tool label seen).1 = [] ↔
      ∃ name, tool = .str name ∧ evidenceToolId name = true ∧ name ∉ seen.tools ∧
        (toolDefects library tool label seen).2 = { seen with tools := seen.tools ++ [name] } := by
  unfold toolDefects
  cases tool with
  | str name =>
    by_cases spelled : evidenceToolId name = true
    · have kept : (textOf (.str name)).filter evidenceToolId = some name := by
        simp [textOf, Option.filter, spelled]
      simp only [kept]
      by_cases known : name ∈ seen.tools
      · simp [known]
      · simp [known, spelled]
    · have dropped : (textOf (.str name)).filter evidenceToolId = none := by
        simp [textOf, Option.filter, spelled]
      simp [dropped, spelled]
  | _ => simp [textOf]

/-- A clean path is new among those before it, and names the run for a producer. -/
theorem pathDefects_clean {rawRelative runId : PyData} {path run : PyString} {seen seen' : Seen}
    (fresh : ∀ entry ∈ seen.paths, entry.2 ≠ index) (raw : rawRelative = .str path)
    (named : path ≠ []) (runs : runId = .str run) :
    pathDefects library cohort index rawRelative runId label seen = ([],seen') ↔
      mapGet seen.paths path = none ∧
      (cohort.producer = true → path = producerArtifact cohort.claimId run) ∧
      seen' = { seen with paths := seen.paths ++ [(path,index)] } := by
  subst raw runs
  have kept : (textOf (.str path)).filter (fun path => !path.isEmpty) = some path := by
    simp [textOf, named]
  have named' : textOf (.str run) = some run := rfl
  simp only [pathDefects, kept, artifactNameDefects, named', Prod.mk.injEq,
    List.append_eq_nil_iff, finding_nil, firstUse]
  rcases Option.eq_none_or_eq_some (mapGet seen.paths path) with found | ⟨first,found⟩
  · simp only [found, Option.getD_none, finding_nil, true_and, Option.isSome_none,
      Bool.false_eq_true, if_false]
    rw [and_congr_right_iff]
    exact fun _ => eq_comm
  · have other : first ≠ index := fresh _ (PolicyDocument.mapGet_mem found)
    simp [found, other]

end Entries

end GateRecord

end EvidenceV4
