import EvidenceV4.GateRecord

/-!
# Validation of a record against the repository

Over the text of a record, the gate reads the artifact of every execution,
compares the older fields with the first execution, and judges freshness against
what the run expects. A clean record is characterized stage by stage, once, and
the later results use only that.
-/

set_option autoImplicit false

namespace EvidenceV4

namespace GateValidation

open CheckedExcept
open CheckerJson (PyString points)
open EvidenceArtifact (passArtifactDefects)
open Findings
open GateManifest (quoted)
open GateRecord
open PolicyDocument (mapGet)
open PythonData
open RepositoryTree

/-- What a run holds its records to. -/
structure Expectations where
  snapshot : Option PyString
  intent : Option PyString
  manifest : Option PyString
  snapshotExact : Bool
  intentPath : Option PyString
  requiredTargets : Option (List PyString)

variable (library : Library)

section Cohort

variable (tree : Tree) (recordPass : Bool)

def beneathPass (label result : PyString) : List PyString :=
  finding (recordPass = true → result = ("PASS" : PyString))
    (say [label,"result ",quoted library result," cannot appear beneath a PASS record"])

def containedCwd (cwd : PyData) (label : PyString) : Except PyError (List PyString) :=
  containedPathDefect library tree cwd "cwd" label

def passText (execution : PyFields) (label : PyString) (text : Option PyString) : List PyString :=
  match text with
  | some text =>
    if equal (get execution "result") (.str "PASS") = true then
      passArtifactDefects library text (get execution "evidence_class")
        (get execution "pass_marker") label
    else []
  | none => []

def artifactDefects (execution : PyFields) (label : PyString) : Except PyError (List PyString) := do
  let artifact ← readArtifact library tree (get execution "raw_output_path")
    (get execution "raw_output_hash") label
  pure (artifact.1 ++ passText library execution label artifact.2)

def executionDefects (cohort : Cohort) (seen : Seen) (entry : PyData × ℕ) :
    Except PyError (List PyString × Seen) :=
  match readableEntry library entry.1 (entryLabel entry.2) with
  | .inl unreadable => pure (unreadable,seen)
  | .inr execution => do
    let judged ← entryDefects library (containedCwd library tree) (beneathPass library recordPass)
      cohort entry.2 seen execution
    let found ← settle judged.1 (artifactDefects library tree execution (entryLabel entry.2))
    pure (found,judged.2)

end Cohort

section Derivation

/-- The command of the older schema is a text or an array. -/
def boundCommand (command : PyData) : PyData :=
  match command with
  | .str text => (library.loads text).getD .none
  | other => other

def derivationDefects (bindings primary : PyFields) : List PyString :=
  finding (equal (get bindings "raw_output_path") (get primary "raw_output_path") = true ∧
      equal (get bindings "raw_output_hash") (get primary "raw_output_hash") = true)
      (points "legacy raw-output bindings are not derived from executions[0]") ++
    finding (equal (boundCommand library (get bindings "command")) (get primary "command") = true)
      (points "legacy command binding is not derived from executions[0]") ++
    finding (equal (lookup (get bindings "configuration") "cwd") (get primary "cwd") = true)
      (points "legacy configuration.cwd binding is not derived from executions[0]") ++
    finding (equal (lookup (get bindings "configuration") "pass_marker")
        (get primary "pass_marker") = true)
      (points "legacy configuration.pass_marker binding is not derived from executions[0]")

end Derivation

section Records

variable (tree : Tree)

def isPass (value : PyData) : Bool := equal value (.str "PASS")

def cohortOf (fields bindings : PyFields) (obligationKind : Option ObligationKind) : Cohort :=
  { claimId := (textOf (get fields "claim_id")).getD []
    producer := equal (get bindings "profile") (.str producerProfile)
    obligationKind := obligationKind }

def cohortDefects (fields bindings : PyFields) (obligationKind : Option ObligationKind) :
    Except PyError (List PyString) :=
  match get bindings "executions" with
  | .list (primary :: rest) => do
    let found ← gather (executionDefects library tree (isPass (get fields "result"))
      (cohortOf fields bindings obligationKind)) ⟨[],[]⟩ (primary :: rest).zipIdx
    settle found.1 (pure (derivationDefects library bindings ((fieldsOf primary).getD [])))
  | _ => pure ["bindings.executions is not a nonempty array"]

/-- The tools of the executions that passed. -/
def passingTools (bindings : PyFields) : List PyString :=
  ((entriesOf (get bindings "executions")).getD []).filterMap (fun execution =>
    if isPass (lookup execution "result") = true then textOf (lookup execution "tool") else none)

def coverageDefects (bindings : PyFields) (requiredEvidence : List PyString) : List PyString :=
  let uncovered := requiredEvidence.filter (fun tool => tool ∉ passingTools bindings)
  finding (uncovered = []) (say ["system claim missing PASS evidence from required tools ",
    library.repr (.list (uncovered.map .str))])

def rawArtifactDefects (fields bindings : PyFields) : Except PyError (List PyString) := do
  let artifact ← readArtifact library tree (get bindings "raw_output_path")
    (get bindings "raw_output_hash") []
  pure (match artifact.2 with
    | none => artifact.1
    | some text => passArtifactDefects library text (get fields "evidence_class")
        (lookup (get bindings "configuration") "pass_marker") [])

def isContentSnapshot (value : PyData) : Bool :=
  match value with
  | .str text => ("sha256:" : PyString).isPrefixOf text &&
      hexDigest (text.drop ("sha256:" : PyString).length)
  | _ => false

def snapshotMatches (expect : Expectations) (expected : PyString) (snapshot : PyData) : Bool :=
  match snapshot with
  | .str text => if expect.snapshotExact = true then text == expected else expected.isPrefixOf text
  | _ => false

def snapshotDefects (bindings : PyFields) (expect : Expectations) : List PyString :=
  match wanted expect.snapshot with
  | none => []
  | some expected =>
    let snapshot := get bindings "source_snapshot"
    let hint : PyString :=
      if isContentSnapshot (.str expected) = true ∧ isContentSnapshot snapshot = false then
        say [" (record schema ",library.repr (get bindings "parser_schema_version"),
          " predates verified-input"," snapshots; pass --expect-snapshot or --allow-unbound ",
          "to validate it)"]
      else []
    finding (snapshotMatches expect expected snapshot = true)
      (say ["stale record: bound to snapshot ",library.repr snapshot,", expected ",
        (if expect.snapshotExact = true then "exactly " else ""),quoted library expected,hint])

def intentDefects (bindings : PyFields) (expect : Expectations) : List PyString :=
  match wanted expect.intent with
  | none => []
  | some expected =>
    finding (equal (get bindings "intent_hash") (.str expected) = true)
      (say ["stale record: bound to intent ",library.repr (get bindings "intent_hash"),
        ", expected ",quoted library expected])

def intentPathDefects (bindings : PyFields) (expect : Expectations) :
    Except PyError (List PyString) := do
  let contained ← containedPathDefect library tree (get bindings "intent_path") "intent_path" []
  settle contained (pure (match expect.intentPath with
    | some expected => finding (equal (get bindings "intent_path") (.str expected) = true)
        (say ["stale record: bound to intent path ",library.repr (get bindings "intent_path"),
          ", ","expected ",quoted library expected])
    | none => []))

def topDefects (fields : PyFields) : Except PyError (List PyString) := do
  let classed ← member evidenceClasses (get fields "evidence_class")
  let resulted ← member results (get fields "result")
  pure (finding (nonemptyText (get fields "claim_id") = true) (points "claim_id is empty") ++
    finding (isBool (get fields "required") = true) (points "required is not boolean") ++
    finding (classed = true)
      (say ["unknown evidence_class ",library.repr (get fields "evidence_class")]) ++
    finding (resulted = true) (say ["unknown result ",library.repr (get fields "result")]) ++
    finding (written (get fields "scope") = true) (points "scope is empty"))

def shapeDefects (fields bindings : PyFields) : List PyString :=
  bindingDefects library bindings (cohortSchema bindings) ++ producerIdentityDefects bindings ++
    assertedFieldDefects library bindings (cohortSchema bindings) ++
    waiverDefects library (get fields "waiver")

/-- The rules that need the tree: those of a cohort, or that of a single artifact. -/
def treeDefects (fields bindings : PyFields) (expect : Expectations)
    (obligationKind : Option ObligationKind) : Except PyError (List PyString) :=
  if cohortSchema bindings = true then do
    let target ← intentPathDefects library tree bindings expect
    let cohort ← cohortDefects library tree fields bindings obligationKind
    pure (target ++ cohort)
  else if isPass (get fields "result") = true then rawArtifactDefects library tree fields bindings
  else pure []

def boundDefects (fields bindings : PyFields) (expect : Expectations)
    (obligationKind : Option ObligationKind) (requiredEvidence : Option (List PyString)) :
    Except PyError (List PyString) := do
  let inTree ← treeDefects library tree fields bindings expect obligationKind
  pure (dirtySnapshotDefects library fields bindings ++ snapshotDefects library bindings expect ++
    intentDefects library bindings expect ++
    manifestBindingDefects library bindings expect.manifest ++
    kindDefects library (get fields "evidence_class") obligationKind [] ++
    (if cohortSchema bindings = true then
      v3ProducerDefects library bindings expect.requiredTargets else []) ++
    inTree ++
    (if isPass (get fields "result") = true then
      coverageDefects library bindings (requiredEvidence.getD []) else []))

def missingFields (fields : PyFields) : List PyString :=
  (topFields.filter (fun field => !has fields field)).map (fun field =>
    say ["missing field ",quoted library field])

def recordDefects (fields : PyFields) (expect : Expectations)
    (obligationKind : Option ObligationKind) (requiredEvidence : Option (List PyString)) :
    Except PyError (List PyString) := do
  let top ← topDefects library fields
  match get fields "bindings" with
  | .dict bindings =>
    settle (top ++ shapeDefects library fields bindings)
      (boundDefects library tree fields bindings expect obligationKind requiredEvidence)
  | _ => pure (top ++ [points "bindings is not an object"])

def validateRecord (record : PyData) (expect : Expectations)
    (obligationKind : Option ObligationKind) (requiredEvidence : Option (List PyString)) :
    Except PyError (List PyString) :=
  match record with
  | .dict fields => settle (missingFields library fields)
      (recordDefects library tree fields expect obligationKind requiredEvidence)
  | _ => pure [points "record is not an object"]

end Records

section Clean

variable {library : Library} {tree : Tree} {fields bindings : PyFields} {record : PyData}
  {expect : Expectations} {kind : Option ObligationKind} {evidence : Option (List PyString)}

theorem validateRecord_clean : validateRecord library tree record expect kind evidence = .ok [] ↔
    ∃ fields bindings, record = .dict fields ∧ get fields "bindings" = .dict bindings ∧
      missingFields library fields = [] ∧ topDefects library fields = .ok [] ∧
      shapeDefects library fields bindings = [] ∧
      boundDefects library tree fields bindings expect kind evidence = .ok [] := by
  unfold validateRecord
  cases record with
  | dict fields =>
    simp only [settle_nil, recordDefects, bind_ok]
    constructor
    · rintro ⟨present,top,topped,rest⟩
      cases bound : get fields "bindings" with
      | dict bindings =>
        simp only [bound, settle_nil, List.append_eq_nil_iff] at rest
        obtain ⟨⟨rfl,shape⟩,later⟩ := rest
        exact ⟨fields,bindings,rfl,bound,present,topped,shape,later⟩
      | _ => simp [bound] at rest
    · rintro ⟨fields',bindings,same,bound,present,topped,shape,later⟩
      obtain rfl := PyData.dict.inj same
      refine ⟨present,[],topped,?_⟩
      simp only [bound, settle_nil, List.nil_append]
      exact ⟨shape,later⟩
  | _ => simp

theorem topDefects_clean : topDefects library fields = .ok [] ↔
    nonemptyText (get fields "claim_id") = true ∧ isBool (get fields "required") = true ∧
    (∃ name ∈ evidenceClasses, get fields "evidence_class" = .str name) ∧
    (∃ name ∈ results, get fields "result" = .str name) ∧ written (get fields "scope") = true := by
  simp only [topDefects, bind_ok, pure_ok, List.append_eq_nil_iff, finding_nil]
  constructor
  · rintro ⟨classed,listed,resulted,valued,⟨⟨⟨⟨claim,required⟩,known⟩,known'⟩,scope⟩⟩
    exact ⟨claim,required,(member_ok listed).mp known,(member_ok valued).mp known',scope⟩
  · rintro ⟨claim,required,⟨c,among,classed⟩,⟨r,among',resulted⟩,scope⟩
    rw [classed, resulted]
    exact ⟨true,by simp [member, among],true,by simp [member, among'],
      ⟨⟨⟨⟨claim,required⟩,rfl⟩,rfl⟩,scope⟩⟩

theorem boundDefects_clean : boundDefects library tree fields bindings expect kind evidence = .ok [] ↔
    dirtySnapshotDefects library fields bindings = [] ∧
    snapshotDefects library bindings expect = [] ∧ intentDefects library bindings expect = [] ∧
    manifestBindingDefects library bindings expect.manifest = [] ∧
    kindDefects library (get fields "evidence_class") kind [] = [] ∧
    (cohortSchema bindings = true → v3ProducerDefects library bindings expect.requiredTargets = []) ∧
    treeDefects library tree fields bindings expect kind = .ok [] ∧
    (isPass (get fields "result") = true →
      coverageDefects library bindings (evidence.getD []) = []) := by
  simp only [boundDefects, bind_ok, pure_ok, List.append_eq_nil_iff, ite_eq_right_iff]
  constructor
  · rintro ⟨_,read,⟨⟨⟨⟨⟨⟨dirty,snapshot⟩,intent⟩,manifest⟩,admitted⟩,producer⟩,rfl⟩,coverage⟩
    exact ⟨dirty,snapshot,intent,manifest,admitted,producer,read,coverage⟩
  · rintro ⟨dirty,snapshot,intent,manifest,admitted,producer,read,coverage⟩
    exact ⟨[],read,⟨⟨⟨⟨⟨⟨dirty,snapshot⟩,intent⟩,manifest⟩,admitted⟩,producer⟩,rfl⟩,coverage⟩

theorem treeDefects_cohort (v3 : cohortSchema bindings = true) :
    treeDefects library tree fields bindings expect kind = .ok [] ↔
      intentPathDefects library tree bindings expect = .ok [] ∧
      cohortDefects library tree fields bindings kind = .ok [] := by
  simp [treeDefects, v3]

theorem treeDefects_single (older : cohortSchema bindings = false) :
    treeDefects library tree fields bindings expect kind = .ok [] ↔
      (isPass (get fields "result") = true →
        rawArtifactDefects library tree fields bindings = .ok []) := by
  rw [treeDefects, if_neg (by simp [older])]
  by_cases passed : isPass (get fields "result") = true
  · simp [passed]
  · simp [passed]

theorem cohortDefects_clean : cohortDefects library tree fields bindings kind = .ok [] ↔
    ∃ primary rest last, get bindings "executions" = .list (primary :: rest) ∧
      Visits (executionDefects library tree (isPass (get fields "result"))
        (cohortOf fields bindings kind)) ⟨[],[]⟩ (primary :: rest).zipIdx last ∧
      derivationDefects library bindings ((fieldsOf primary).getD []) = [] := by
  unfold cohortDefects
  cases held : get bindings "executions" with
  | list executions =>
    cases executions with
    | nil => simp
    | cons primary rest =>
      simp only [bind_ok, settle_nil, pure_ok]
      constructor
      · rintro ⟨⟨found,last⟩,gathered,clean,derived⟩
        simp only at clean
        subst clean
        exact ⟨primary,rest,last,rfl,gather_clean.mp gathered,derived⟩
      · rintro ⟨_,_,last,same,visits,derived⟩
        obtain ⟨rfl,rfl⟩ := List.cons.inj (PyData.list.inj same)
        exact ⟨([],last),gather_clean.mpr visits,rfl,derived⟩
  | _ => simp

variable {recordPass : Bool} {cohort : Cohort} {seen seen' : Seen} {entry : PyData × ℕ}

theorem executionDefects_clean :
    executionDefects library tree recordPass cohort seen entry = .ok ([],seen') ↔
      ∃ execution, readableEntry library entry.1 (entryLabel entry.2) = .inr execution ∧
        entryDefects library (containedCwd library tree) (beneathPass library recordPass) cohort
          entry.2 seen execution = .ok ([],seen') ∧
        artifactDefects library tree execution (entryLabel entry.2) = .ok [] := by
  unfold executionDefects
  cases reads : readableEntry library entry.1 (entryLabel entry.2) with
  | inl unreadable =>
    simp only [pure_ok, Prod.mk.injEq, reduceCtorEq, false_and, exists_false, iff_false]
    exact fun clean => readableEntry_unreadable reads clean.1
  | inr execution =>
    simp only [bind_ok, pure_ok, Prod.mk.injEq]
    constructor
    · rintro ⟨⟨found,m⟩,judged,_,settled,rfl,rfl⟩
      simp only [settle_nil] at settled
      obtain ⟨rfl,artifact⟩ := settled
      exact ⟨execution,rfl,judged,artifact⟩
    · rintro ⟨_,same,judged,artifact⟩
      obtain rfl := Sum.inr.inj same
      exact ⟨_,judged,[],(settle_nil).mpr ⟨rfl,artifact⟩,rfl,rfl⟩

end Clean

end GateValidation

end EvidenceV4
