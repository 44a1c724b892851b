import EvidenceV4.GateValidation

/-!
# A run of the gate over older records

A run loads records and manifest, derives the claims it must judge, recomputes
what the records have to be bound to, and judges each claim by its one record.
Malformed inputs end the run with an error before any claim is judged, and an
exception that nothing catches ends it with the exit code of the interpreter.
-/

set_option autoImplicit false

namespace EvidenceV4

namespace GateRun

open CheckedExcept
open CheckerJson (PyString points)
open Findings
open GateManifest (Obligations loadManifest manifestError)
open GateRecord
open GateValidation
open PolicyDocument (mapGet)
open PythonData
open RepositoryTree

structure ManifestFile where
  document : Except PyError PyData
  bytes : Except PyError (List UInt8)

/-- The command line, with the documents behind its paths as the library reads them. -/
structure Arguments where
  documents : List (Except PyError PyData)
  require : Option PyString
  manifest : Option ManifestFile
  expectSnapshot : Option PyString
  expectIntent : Option PyString
  expectManifest : Option PyString
  snapshotExact : Bool
  allowUnbound : Bool

/-- The project as the run finds it: its files, its snapshot, and its target with the hash. -/
structure Project where
  tree : Tree
  snapshot : Except PyError PyString
  intent : Except PyError (PyString × PyString)

/-- Why a run ends before it judges a claim. -/
inductive Stop where
  | refused (message : PyString)
  | raised (error : PyError)

section Inputs

def unwrap (data : PyData) : List PyData :=
  let inner := match data with
    | .dict fields => if has fields "records" = true then get fields "records" else data
    | other => other
  match inner with
  | .list records => records
  | other => [other]

def loadRecords (documents : List (Except PyError PyData)) : Except PyError (List PyData) := do
  let loaded ← documents.mapM (fun document => document)
  pure (loaded.flatMap unwrap)

def emptyObligations : Obligations := ⟨[],[],[],[]⟩

/-- The ids that `--require` names. -/
def requestedClaims (text : PyString) : List PyString :=
  ((text.splitOn 44).map strip).filter (fun claim => !claim.isEmpty)

/-- The claims to judge, and the dependencies that each system claim brought in. -/
abbrev Expansion := List PyString × List (PyString × List PyString)

def expandClaim (obligations : Obligations) (state : Expansion) (claim : PyString) : Expansion :=
  if mapGet obligations.kinds claim = some .systemClaim then
    let added := ((mapGet obligations.depends claim).getD []).filter (fun name => name ∉ state.1)
    if added = [] then state else (state.1 ++ added,state.2 ++ [(claim,added)])
  else state

def expandRequired (obligations : Obligations) (required : List PyString) : Expansion :=
  required.foldl (expandClaim obligations) (required,[])

variable (library : Library) (args : Arguments)

/-- What the manifest declares, and the hash that records must carry. -/
structure ManifestInputs where
  obligations : Obligations
  targets : Option (List PyString)
  hash : Option PyString

/-- A pinned hash replaces that of the manifest at hand. -/
def expectedHash (file : ManifestFile) : Except PyError PyString :=
  match args.expectManifest with
  | some pinned => pure pinned
  | none => do
    let bytes ← file.bytes
    pure (library.sha256 bytes)

def manifestInputs : Except PyError ManifestInputs :=
  match args.manifest with
  | none => pure ⟨emptyObligations,none,args.expectManifest⟩
  | some file => do
    let document ← file.document
    let obligations ← loadManifest library document
    let hash ← expectedHash library args file
    pure ⟨obligations,some obligations.required,some hash⟩

structure Prepared where
  records : List PyData
  inputs : ManifestInputs
  required : List PyString
  expansion : List (PyString × List PyString)

def lift {α : Type} (x : Except PyError α) : Except Stop α := x.mapError .raised

def refuse {α : Type} (message : PyString) : Except Stop α := throw (.refused message)

def requestedOf (obligations : Obligations) : Except Stop (List PyString) :=
  match args.require with
  | some text =>
    if requestedClaims text = [] then refuse "ERROR: --require names no claims"
    else pure (requestedClaims text)
  | none =>
    if args.manifest.isSome = true then pure obligations.required
    else refuse "ERROR: pass --require or --manifest"

def unknownRequired (obligations : Obligations) (requested : List PyString) : List PyString :=
  if args.manifest.isSome = true then
    sortedNames (requested.filter (fun claim => (mapGet obligations.kinds claim).isNone))
  else []

def expansionOf (obligations : Obligations) (requested : List PyString) : Expansion :=
  if args.require.isSome = true ∧ args.manifest.isSome = true then
    expandRequired obligations requested
  else (requested,[])

def prepare : Except Stop Prepared := do
  let records ← lift (loadRecords args.documents)
  let inputs ← lift (manifestInputs library args)
  let requested ← requestedOf args inputs.obligations
  let unknown := unknownRequired args inputs.obligations requested
  if unknown = [] then
    let expansion := expansionOf args inputs.obligations requested
    pure ⟨records,inputs,sortedNames expansion.1,expansion.2⟩
  else refuse (say ["ERROR: required claims absent from manifest: ",
    library.repr (.list (unknown.map .str))])

end Inputs

section Freshness

def recomputed {α : Type} (message : PyString) (x : Except PyError α) : Except Stop α :=
  match x with
  | .error .osError => refuse message
  | .error .valueError => refuse message
  | .error .jsonDecodeError => refuse message
  | other => lift other

def unboundMessage : PyString := "ERROR: cannot bind evidence to current source and intent: "

def snapshotBinding (args : Arguments) (project : Project) : Except Stop (Option PyString × Bool) :=
  match args.expectSnapshot with
  | some pinned => pure (some pinned,args.snapshotExact)
  | none => do
    let snapshot ← recomputed unboundMessage project.snapshot
    pure (some snapshot,true)

def intentBinding (args : Arguments) (project : Project) :
    Except Stop (Option PyString × Option PyString) :=
  match args.expectIntent with
  | some pinned => pure (none,some pinned)
  | none => do
    let intent ← recomputed unboundMessage project.intent
    pure (some intent.1,some intent.2)

/-- What the records of the run have to be bound to. -/
def expectations (args : Arguments) (project : Project) (prepared : Prepared) :
    Except Stop Expectations :=
  if args.allowUnbound = true then
    pure ⟨args.expectSnapshot,args.expectIntent,prepared.inputs.hash,args.snapshotExact,none,
      prepared.inputs.targets⟩
  else do
    let snapshot ← snapshotBinding args project
    let intent ← intentBinding args project
    pure ⟨snapshot.1,intent.2,prepared.inputs.hash,snapshot.2,intent.1,prepared.inputs.targets⟩

def bindingMode (args : Arguments) : PyString :=
  if args.allowUnbound = true then "unbound"
  else if args.expectSnapshot.isSome = true ∨ args.expectIntent.isSome = true then "pinned"
  else "recomputed"

end Freshness

section Index

/-- The records by claim, the last of each, and the claims with several. -/
structure RecordIndex where
  byClaim : List (PyString × PyData)
  duplicates : List PyString

def indexRecord (index : RecordIndex) (record : PyData) : RecordIndex :=
  match lookup record "claim_id" with
  | .str claim =>
    { byClaim := index.byClaim ++ [(claim,record)]
      duplicates := if (mapGet index.byClaim claim).isSome = true then claim :: index.duplicates
        else index.duplicates }
  | _ => index

def indexRecords (records : List PyData) : RecordIndex := records.foldl indexRecord ⟨[],[]⟩

/-- The artifacts that a record commits to. -/
def citedArtifacts (record : PyData) : List PyString :=
  match lookup record "bindings" with
  | .dict bindings =>
    ((textOf (get bindings "raw_output_path")).toList ++
      (((entriesOf (get bindings "executions")).getD []).filterMap (fun execution =>
        textOf (lookup execution "raw_output_path")))).filter (fun path => !path.isEmpty)
  | _ => []

/-- The required claims that cite an artifact. -/
def citedBy (required : List PyString) (index : RecordIndex) (path : PyString) : List PyString :=
  required.filter (fun claim =>
    ((mapGet index.byClaim claim).any (fun record => (citedArtifacts record).contains path)))

variable (library : Library)

def sharedArtifactDefects (required : List PyString) (index : RecordIndex) (claim : PyString)
    (record : PyData) : List PyString :=
  if isSchemaV3 record = true then
    (citedArtifacts record).dedup.flatMap (fun path =>
      let shared := sortedNames ((citedBy required index path).filter (fun other => other ≠ claim))
      finding (shared = []) (say ["raw artifact ",GateManifest.quoted library path,
        " is also cited by claim(s) ",library.repr (.list (shared.map .str)),
        ": evidence cannot be shared between claims"]))
  else []

end Index

section Judging

def assumed (value : PyData) : Bool := (textOf value).any (fun name => decide (name ∈ assumedClasses))

def executionsOf (record : PyData) : List PyData :=
  (entriesOf (lookup (lookup record "bindings") "executions")).getD []

variable (library : Library)

/-- Every place where the record rests on an assumed or unverified class. -/
def assumedEvidence (record : PyData) : List PyString :=
  (if assumed (lookup record "evidence_class") = true then
    [say ["record=",(textOf (lookup record "evidence_class")).getD []]] else []) ++
  (executionsOf record).zipIdx.filterMap (fun entry =>
    if assumed (lookup entry.1 "evidence_class") = true then
      some (say [(textOf (lookup entry.1 "tool")).getD (number entry.2),"=",
        (textOf (lookup entry.1 "evidence_class")).getD []])
    else none)

inductive ClaimStatus where
  | duplicateRecord
  | missingRecord
  | invalid (defects : List PyString)
  | fail
  | incomplete
  | unwaivedAssumption (assumed : List PyString)
  | pass (waived : Bool)
  deriving DecidableEq

/-- The status of a claim whose record is valid. -/
def validStatus (record : PyData) : ClaimStatus :=
  if equal (lookup record "result") (.str "FAIL") = true then .fail
  else if equal (lookup record "result") (.str "INCOMPLETE") = true then .incomplete
  else if assumedEvidence record ≠ [] ∧ truthy (lookup record "waiver") = false then
    .unwaivedAssumption (assumedEvidence record)
  else .pass (truthy (lookup record "waiver"))

def judgeClaim (tree : Tree) (prepared : Prepared) (expect : Expectations) (index : RecordIndex)
    (claim : PyString) : Except PyError ClaimStatus :=
  if claim ∈ index.duplicates then pure .duplicateRecord
  else
    match mapGet index.byClaim claim with
    | none => pure .missingRecord
    | some record => do
      let defects ← validateRecord library tree record expect
        (mapGet prepared.inputs.obligations.kinds claim) (mapGet prepared.inputs.obligations.evidence claim)
      let shared := sharedArtifactDefects library prepared.required index claim record
      pure (if defects ++ shared = [] then validStatus record else .invalid (defects ++ shared))

/-- A judged claim with the record it was judged by. -/
structure Judgement where
  claim : PyString
  record : PyData
  status : ClaimStatus

def fieldText (record : PyData) (field : PyString) : PyString :=
  (textOf (lookup record field)).getD (library.repr (lookup record field))

def failedMessage (judged : Judgement) : Option PyString :=
  match judged.status with
  | .fail => some (say [judged.claim,": ",fieldText library judged.record "evidence_class",
      " FAIL - ",fieldText library judged.record "scope"])
  | _ => none

def incompleteMessage (judged : Judgement) : Option PyString :=
  match judged.status with
  | .duplicateRecord =>
    some (say [judged.claim,": duplicate records for claim_id (ambiguous)"])
  | .missingRecord => some (say [judged.claim,": no record"])
  | .invalid defects =>
    some (say [judged.claim,": invalid record (",joined "; " defects,")"])
  | .incomplete => some (say [judged.claim,": record result INCOMPLETE"])
  | .unwaivedAssumption sources =>
    some (say [judged.claim,": assumed or unverified evidence cannot PASS ",
      "without a waiver (",joined ", " sources,")"])
  | _ => none

def isWaived (judged : Judgement) : Bool := judged.status == .pass true

/-- What the run prints and returns. -/
structure Report where
  verdict : PyString
  code : ℕ
  perClaim : List Judgement
  failed : List PyString
  incomplete : List PyString
  binding : PyString
  expansion : List (PyString × List PyString)

def profileOf (record : PyData) : PyString :=
  (textOf (lookup (lookup record "bindings") "profile")).getD []

def verifiedText (args : Arguments) (rows : List Judgement) : PyString :=
  let profiles := sortedNames (rows.map (fun row => profileOf row.record))
  let waived := (rows.filter isWaived).map (fun row => row.claim)
  say ["VERIFIED[profile=",joined "/" profiles,
    (if bindingMode args = ("recomputed" : PyString) then [] else say ["; binding=",bindingMode args]),
    "]",(if waived = [] then [] else say [" (waived: ",joined "," (sortedNames waived),")"])]

def incompleteMessages (prepared : Prepared) (rows : List Judgement) : List PyString :=
  (if prepared.required = [] then [points "(required-claims list is empty - invalid run)"]
    else []) ++ rows.filterMap incompleteMessage

def conclude (failed incomplete : List PyString) (verified : PyString) : PyString × ℕ :=
  if failed ≠ [] then ("FAILED",1)
  else if incomplete ≠ [] then ("INCOMPLETE",3)
  else (verified,0)

def aggregate (args : Arguments) (prepared : Prepared) (rows : List Judgement) : Report :=
  let failed := rows.filterMap (failedMessage library)
  let incomplete := incompleteMessages prepared rows
  let verdict := conclude failed incomplete (verifiedText args rows)
  ⟨verdict.1,verdict.2,rows,failed,incomplete,bindingMode args,prepared.expansion⟩

def judgeAll (tree : Tree) (prepared : Prepared) (expect : Expectations) :
    Except PyError (List Judgement) :=
  let index := indexRecords prepared.records
  prepared.required.mapM (fun claim => do
    let status ← judgeClaim library tree prepared expect index claim
    pure ⟨claim,(mapGet index.byClaim claim).getD .none,status⟩)

def errorReport (message : PyString) : Report := ⟨"ERROR",2,[],[message],[],[],[]⟩

/-- The input errors that the run reports itself. -/
def reported : PyError → Bool
  | .manifestError _ => true
  | .osError => true
  | .jsonDecodeError => true
  | _ => false

def errorText : PyError → PyString
  | .manifestError message => say ["ERROR: malformed obligation manifest: ",message]
  | _ => "ERROR: cannot read evidence inputs: "

/-- `main` on older records; an exception that escapes is its error. -/
def main (args : Arguments) (project : Project) : Except PyError Report :=
  match prepare library args with
  | .error (.refused message) => pure (errorReport message)
  | .error (.raised error) =>
    if reported error = true then pure (errorReport (errorText error)) else throw error
  | .ok prepared =>
    match expectations args project prepared with
    | .error (.refused message) => pure (errorReport message)
    | .error (.raised error) => throw error
    | .ok expect => do
      let rows ← judgeAll library project.tree prepared expect
      pure (aggregate library args prepared rows)

/-- The exit code of the process: the interpreter ends with one after an uncaught exception. -/
def exitCode (outcome : Except PyError Report) : ℕ :=
  match outcome with
  | .ok report => report.code
  | .error _ => 1

end Judging

end GateRun

end EvidenceV4
