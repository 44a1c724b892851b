import EvidenceV4.DashboardManifest
import EvidenceV4.GateRun

/-!
# The coverage dashboard over older records

The dashboard shows one row for each required claim. It judges a record by the
text rules of the gate, leaves the artifacts and the freshness to the gate, and
goes over the cohort itself: an execution that did not pass, or a required tool
without a pass, is a gap of the row. The model is that of a run without the
self-check of its own output.
-/

set_option autoImplicit false

namespace EvidenceV4

namespace CoverageDashboard

open CheckedExcept
open CheckerJson (PyString points)
open Findings
open GateManifest (Obligations quoted)
open GateRecord
open GateRun (ManifestFile ManifestInputs RecordIndex Expansion Stop lift refuse emptyObligations
  expandRequired indexRecords loadRecords requestedClaims sharedArtifactDefects)
open GateValidation (cohortOf derivationDefects missingFields topDefects)
open PolicyDocument (mapGet)
open PythonData

section Records

variable (library : Library)

def cwdTextDefects (cwd : PyData) (label : PyString) : Except PyError (List PyString) :=
  pure (finding (written cwd = true)
    (say [label,"cwd is not a repo-relative path: ",library.repr cwd]))

def anyResult (_label _result : PyString) : List PyString := []

/-- One entry of a cohort, by the rules that need no repository. -/
def executionDefects (cohort : Cohort) (seen : Seen) (entry : PyData × ℕ) :
    Except PyError (List PyString × Seen) :=
  match readableEntry library entry.1 (entryLabel entry.2) with
  | .inl unreadable => pure (unreadable,seen)
  | .inr execution => entryDefects library (cwdTextDefects library) anyResult cohort entry.2 seen
      execution

def cohortDefects (fields bindings : PyFields) (obligationKind : Option ObligationKind) :
    Except PyError (List PyString) :=
  match get bindings "executions" with
  | .list (primary :: rest) => do
    let found ← gather (executionDefects library (cohortOf fields bindings obligationKind)) ⟨[],[]⟩
      (primary :: rest).zipIdx
    settle found.1 (pure (derivationDefects library bindings ((fieldsOf primary).getD [])))
  | _ => pure ["bindings.executions is not a nonempty array"]

def shapeDefects (bindings : PyFields) : List PyString :=
  bindingDefects library bindings (cohortSchema bindings) ++
    assertedFieldDefects library bindings (cohortSchema bindings) ++ producerIdentityDefects bindings

/-- A record of the older schema has no cohort to look at. -/
def schemaDefects (fields bindings : PyFields) (obligationKind : Option ObligationKind) :
    Except PyError (List PyString) :=
  if cohortSchema bindings = true then cohortDefects library fields bindings obligationKind
  else pure []

def boundDefects (fields bindings : PyFields) (obligationKind : Option ObligationKind)
    (expectRequiredTargets : Option (List PyString)) (expectManifest : Option PyString) :
    Except PyError (List PyString) := do
  let cohort ← schemaDefects library fields bindings obligationKind
  pure (dirtySnapshotDefects library fields bindings ++
    manifestBindingDefects library bindings expectManifest ++
    (if cohortSchema bindings = true then v3ProducerDefects library bindings expectRequiredTargets
      else []) ++
    kindDefects library (get fields "evidence_class") obligationKind [] ++ cohort)

def recordDefects (fields : PyFields) (obligationKind : Option ObligationKind)
    (expectRequiredTargets : Option (List PyString)) (expectManifest : Option PyString) :
    Except PyError (List PyString) := do
  let top ← topDefects library fields
  let waiver := waiverDefects library (get fields "waiver")
  match get fields "bindings" with
  | .dict bindings =>
    settle (top ++ waiver ++ shapeDefects library bindings)
      (boundDefects library fields bindings obligationKind expectRequiredTargets expectManifest)
  | _ => pure (top ++ waiver ++ [points "bindings is not an object"])

def validateRecord (record : PyData) (obligationKind : Option ObligationKind)
    (expectRequiredTargets : Option (List PyString)) (expectManifest : Option PyString) :
    Except PyError (List PyString) :=
  match record with
  | .dict fields => settle (missingFields library fields)
      (recordDefects library fields obligationKind expectRequiredTargets expectManifest)
  | _ => pure [points "record is not an object"]

end Records

section Cohorts

/-- An entry of a cohort; what is no text keeps its place with nothing in it. -/
structure Slot where
  tool : Option PyString
  result : Option PyString
  evidenceClass : Option PyString

def slotOf (execution : PyData) : Slot :=
  ⟨textOf (lookup execution "tool"),textOf (lookup execution "result"),
    textOf (lookup execution "evidence_class")⟩

def executionsOf (record : PyData) : Option (List Slot) :=
  (entriesOf (lookup (lookup record "bindings") "executions")).map (fun entries =>
    entries.map slotOf)

def slotName (entry : Slot × ℕ) : PyString :=
  (entry.1.tool.filter (fun name => !name.isEmpty)).getD (say ["executions[",number entry.2,"]"])

def passes (slot : Slot) : Bool := slot.tool.isSome && slot.result == some (points "PASS")

/-- The entries of a cohort that did not pass, by tool or by place. -/
def nonPassingExecutions (cohort : Option (List Slot)) : List PyString :=
  ((cohort.getD []).zipIdx.filter (fun entry => !passes entry.1)).map slotName

def toolResults (cohort : List Slot) (tool : PyString) : List (Option PyString) :=
  (cohort.filter (fun slot => slot.tool = some tool)).map Slot.result

def toolCoverage (cohort : List Slot) (tool : PyString) : PyString :=
  match toolResults cohort tool with
  | [] => "no-execution"
  | first :: rest =>
    if some (points "PASS") ∈ first :: rest then "PASS"
    else ((first :: rest).findSome? (fun result =>
      result.filter (fun text => !text.isEmpty))).getD "unknown"

/-- The result for each required tool, and the required tools without a pass. -/
def cohortCoverage (requiredEvidence : List PyString) (cohort : Option (List Slot)) :
    List (PyString × PyString) × List PyString :=
  (requiredEvidence.map (fun tool => (tool,toolCoverage (cohort.getD []) tool)),
    requiredEvidence.filter (fun tool => toolCoverage (cohort.getD []) tool ≠ "PASS"))

def assumedExecutions (cohort : Option (List Slot)) : List PyString :=
  (cohort.getD []).zipIdx.filterMap (fun entry =>
    (entry.1.evidenceClass.filter (fun name => name ∈ assumedClasses)).map (fun name =>
      say [slotName entry,"=",name]))

end Cohorts

section Rows

inductive Status where
  | pass
  | fail
  | incomplete
  | missingRecord
  | duplicateRecord
  | invalid
  | unwaivedAssumption
  | evidenceGap
  | dependencyGap
  deriving DecidableEq

structure Row where
  claim : PyString
  status : Status
  evidenceClass : PyData
  result : PyData
  scope : PyData
  waived : Bool
  defects : List PyString
  obligationKind : Option ObligationKind
  executions : Option (List Slot)
  assumed : List PyString
  nonPassing : List PyString
  requiredEvidence : Option (List PyString)
  evidenceCoverage : List (PyString × PyString)
  evidenceGaps : List PyString
  dependsOn : Option (List PyString)
  dependencyGaps : List PyString
  dependenciesNotEvaluated : List PyString

variable (library : Library)

/-- The row of a claim that no record decides. -/
def bareRow (claim : PyString) (kind : Option ObligationKind) (status : Status)
    (defects : List PyString) : Row :=
  ⟨claim,status,.none,.none,.none,false,defects,kind,none,[],[],none,[],[],none,[],[]⟩

/-- The row of a record, before its cohort is looked at. -/
def recordRow (claim : PyString) (kind : Option ObligationKind) (record : PyData)
    (status : Status) (waived : Bool) (defects assumed : List PyString) : Row :=
  { bareRow claim kind status defects with
    evidenceClass := lookup record "evidence_class"
    result := lookup record "result"
    scope := lookup record "scope"
    waived := waived
    executions := executionsOf record
    assumed := assumed
    nonPassing := nonPassingExecutions (executionsOf record) }

def validStatus (record : PyData) (assumed : List PyString) : Status :=
  if equal (lookup record "result") (.str "FAIL") = true then .fail
  else if equal (lookup record "result") (.str "INCOMPLETE") = true then .incomplete
  else if (GateRun.assumed (lookup record "evidence_class") = true ∨ assumed ≠ []) ∧
      truthy (lookup record "waiver") = false then .unwaivedAssumption
  else .pass

def judgedRow (claim : PyString) (kind : Option ObligationKind) (record : PyData)
    (defects : List PyString) : Row :=
  if defects = [] then
    let assumed := assumedExecutions (executionsOf record)
    recordRow claim kind record (validStatus record assumed) (truthy (lookup record "waiver")) []
      assumed
  else recordRow claim kind record .invalid false defects []

/-- A cohort that did not pass as a whole is a gap, whatever the record says. -/
def atomicRow (row : Row) : Row :=
  if row.status = .pass ∧ row.nonPassing ≠ [] then { row with status := .evidenceGap } else row

def coveredRow (requiredEvidence : Option (List PyString)) (row : Row) : Row :=
  match requiredEvidence with
  | none => row
  | some tools =>
    let coverage := cohortCoverage tools row.executions
    { row with
      requiredEvidence := some tools
      evidenceCoverage := coverage.1
      evidenceGaps := coverage.2
      status := if row.status = .pass ∧ coverage.2 ≠ [] then .evidenceGap else row.status }

def systemRow (obligations : Obligations) (row : Row) : Row :=
  if row.obligationKind = some .systemClaim then
    { coveredRow (mapGet obligations.evidence row.claim) row with
      dependsOn := mapGet obligations.depends row.claim }
  else row

variable (inputs : ManifestInputs) (required : List PyString) (index : RecordIndex)

def claimRow (claim : PyString) : Except PyError Row :=
  let kind := mapGet inputs.obligations.kinds claim
  if claim ∈ index.duplicates then
    pure (bareRow claim kind .duplicateRecord ["duplicate records for claim_id (ambiguous)"])
  else
    match mapGet index.byClaim claim with
    | none => pure (bareRow claim kind .missingRecord [])
    | some record => do
      let defects ← validateRecord library record kind inputs.targets inputs.hash
      let shared := sharedArtifactDefects library required index claim record
      pure (judgedRow claim kind record (defects ++ shared))

def evaluateClaim (claim : PyString) : Except PyError Row := do
  let row ← claimRow library inputs required index claim
  pure (systemRow inputs.obligations (atomicRow row))

end Rows

section Verdict

/-- The status that the last row of a claim shows. -/
def statusOf (rows : List Row) (claim : PyString) : Option Status :=
  mapGet (rows.map (fun row => (row.claim,row.status))) claim

def dependencyRow (rows : List Row) (row : Row) : Row :=
  if row.obligationKind = some .systemClaim then
    let rests := row.dependsOn.getD []
    let gaps := rests.filter (fun name => (statusOf rows name).any (fun status => status ≠ .pass))
    { row with
      dependencyGaps := gaps
      dependenciesNotEvaluated := rests.filter (fun name => (statusOf rows name).isNone)
      status := if row.status = .pass ∧ gaps ≠ [] then .dependencyGap else row.status }
  else row

def applyDependencyCoverage (rows : List Row) : List Row := rows.map (dependencyRow rows)

def isGap (status : Status) : Bool := status != .pass && status != .fail

def computeVerdict (rows : List Row) (index : RecordIndex) (required : List PyString) :
    PyString × ℕ :=
  if required = [] then ("INCOMPLETE",3)
  else if rows.any (fun row => row.status == .fail) = true then ("FAILED",1)
  else if rows.any (fun row => isGap row.status) = true then ("INCOMPLETE",3)
  else
    let profiles := sortedNames (rows.map (fun row =>
      GateRun.profileOf ((mapGet index.byClaim row.claim).getD .none)))
    let waived := sortedNames ((rows.filter Row.waived).map Row.claim)
    (say ["VERIFIED[profile=",joined "/" profiles,"]",
      (if waived = [] then [] else say [" (waived: ",joined "," waived,")"])],0)

end Verdict

section Run

/-- The command line, with the documents behind its paths as the library reads them. -/
structure Arguments where
  documents : List (Except PyError PyData)
  require : Option PyString
  manifest : Option ManifestFile

structure Dashboard where
  verdict : PyString
  code : ℕ
  rows : List Row
  required : List PyString
  expansion : List (PyString × List PyString)

variable (library : Library) (args : Arguments)

/-- The requirement as the dashboard tests it: an empty text requires nothing. -/
def requirement : Option PyString := wanted args.require

def manifestInputs : Except PyError ManifestInputs :=
  match args.manifest with
  | none => pure ⟨emptyObligations,none,none⟩
  | some file => do
    let document ← file.document
    let obligations ← loadManifest library document
    let bytes ← file.bytes
    pure ⟨obligations,some obligations.required,some (library.sha256 bytes)⟩

def requestedOf (obligations : Obligations) : Except Stop (List PyString) :=
  match requirement args with
  | some text => pure (requestedClaims text)
  | none =>
    if args.manifest.isSome = true then pure obligations.required
    else refuse (say ["ERROR: pass --require or --manifest — a dashboard with no ",
      "required claims covers nothing"])

/-- Both a requirement and a manifest are given. -/
def narrowed : Bool := args.manifest.isSome && (requirement args).isSome

def unknownRequired (obligations : Obligations) (requested : List PyString) : List PyString :=
  if narrowed args = true then
    sortedNames (requested.filter (fun claim => (mapGet obligations.kinds claim).isNone))
  else []

def expansionOf (obligations : Obligations) (requested : List PyString) : Expansion :=
  if narrowed args = true then expandRequired obligations requested else (requested,[])

structure Prepared where
  records : List PyData
  inputs : ManifestInputs
  required : List PyString
  expansion : List (PyString × List PyString)

def prepare : Except Stop Prepared := do
  let records ← lift (loadRecords args.documents)
  let inputs ← lift (manifestInputs library args)
  let requested ← requestedOf args inputs.obligations
  let unknown := unknownRequired args inputs.obligations requested
  if unknown = [] then
    let expansion := expansionOf args inputs.obligations requested
    pure ⟨records,inputs,expansion.1,expansion.2⟩
  else refuse (say ["ERROR: required claims absent from manifest: ",
    library.repr (.list (unknown.map .str))])

def buildDashboard (prepared : Prepared) : Except PyError Dashboard := do
  let index := indexRecords prepared.records
  let evaluated ← prepared.required.mapM
    (evaluateClaim library prepared.inputs prepared.required index)
  let rows := applyDependencyCoverage evaluated
  let verdict := computeVerdict rows index prepared.required
  pure ⟨verdict.1,verdict.2,rows,prepared.required,prepared.expansion⟩

def errorDashboard : Dashboard := ⟨"ERROR",2,[],[],[]⟩

/-- `main` on older records; an exception that escapes is its error. -/
def main : Except PyError Dashboard :=
  match prepare library args with
  | .error (.refused _) => pure errorDashboard
  | .error (.raised error) =>
    if GateRun.reported error = true then pure errorDashboard else throw error
  | .ok prepared => buildDashboard library prepared

/-- The exit code of the process: the interpreter ends with one after an uncaught exception. -/
def exitCode (outcome : Except PyError Dashboard) : ℕ :=
  match outcome with
  | .ok dashboard => dashboard.code
  | .error _ => 1

end Run

end CoverageDashboard

end EvidenceV4
