import EvidenceV4.LineText
import EvidenceV4.PanelGuard
import EvidenceV4.ScalarText

/-!
# A panel run over a milestone

Every seat drafts, every drafting seat reviews, one seat synthesises. A failed
dispatch is a record like any other, unless recording it raises. The summary of
a run is written by one function, which reads the target again and lowers the
verdict of the evidence where the run does not carry a pass.
-/

set_option autoImplicit false

namespace EvidenceV4

namespace Panel

open CheckedExcept
open CheckerJson (PyString points)
open EvidenceArtifact (splitlines)
open JsonText (isSurrogate)
open PolicyDocument (mapGet)
open PythonData

section Dispatches

structure Seat where
  seatId : PyString
  declaredFamily : PyString
  deriving DecidableEq

/-- What the agent function did with a prompt. -/
inductive Reply where
  | returned (value : PyData)
  | raised (kind message : PyString)

inductive DispatchStatus where
  | ok
  | timeout
  | failed
  deriving DecidableEq

structure Record where
  seat : Seat
  status : DispatchStatus
  served : PyData
  servedFamily : PyData
  handle : Option PyString
  agentId : Option PyString
  data : PyData
  text : PyString

/-- A string that the writer of a file can encode. -/
def encodable (text : PyString) : Bool := text.all (fun c => !isSurrogate c)

mutual

def encodableData : PyData → Bool
  | .str text => encodable text
  | .list entries => encodableEntries entries
  | .dict fields => encodableFields fields
  | _ => true

def encodableEntries : List PyData → Bool
  | [] => true
  | entry :: rest => encodableData entry && encodableEntries rest

def encodableFields : List (PyString × PyData) → Bool
  | [] => true
  | field :: rest => encodable field.1 && encodableData field.2 && encodableFields rest

end

/-- The printing functions of the interpreter's library. -/
structure Printing extends Library where
  dumps : PyData → PyString

def hex (n : ℕ) : PyString := points (String.ofList (Nat.toDigits 16 n))

/-- What the encoder says about the first surrogates of a text. -/
def encodeError (text : PyString) : PyString :=
  let start := (text.takeWhile (fun c => !isSurrogate c)).length
  let run := (text.drop start).takeWhile isSurrogate
  if run.length = 1 then
    say ["'utf-8' codec can't encode character '\\u",hex (run.headD 0),"' in position ",number start,
      ": surrogates not allowed"]
  else say ["'utf-8' codec can't encode characters in position ",number start,"-",
    number (start + run.length - 1),": surrogates not allowed"]

def foldCase (c : ℕ) : ℕ :=
  if 65 ≤ c ∧ c ≤ 90 then c + 32 else if c = 0x130 ∨ c = 0x131 then 105 else c

/-- `re.search(r"runtime|timed? ?out", text, re.IGNORECASE)` -/
def timeoutMessage (text : PyString) : Bool :=
  (["runtime","timeout","timedout","time out","timed out"].map points).any (fun phrase =>
    (text.map foldCase).tails.any phrase.isPrefixOf)

structure Extracted where
  text : PyString
  data : PyData
  handle : Option PyString
  agentId : Option PyString
  served : PyData
  servedFamily : PyData

/-- An exception of a dispatch: the name of its class and its message. -/
abbrev Raised := PyString × PyString

def runtimeError {α : Type} (message : PyString) : Except Raised α :=
  throw (points "RuntimeError",message)

/-- `str(value)` -/
def shown (library : Library) : PyData → PyString
  | .str text => text
  | value => library.repr value

def textOfReply (printing : Printing) (result : PyFields) : Except Raised PyString :=
  match PythonData.get result "text" with
  | .str text => pure text
  | _ =>
    match PythonData.get result "output", PythonData.get result "data" with
    | .str output, _ => pure output
    | _, .none =>
      let error := PythonData.get result "error"
      if truthy error = true then runtimeError (shown printing.toLibrary error) else pure []
    | _, data => pure (printing.dumps data)

/-- `_extract` -/
def extract (printing : Printing) : PyData → Except Raised Extracted
  | .str text => pure ⟨text,.none,none,none,.none,.none⟩
  | .none => runtimeError "agent returned no result"
  | .dict result => do
    let text ← textOfReply printing result
    pure ⟨text,PythonData.get result "data",textOf (PythonData.get result "handle"),
      textOf (PythonData.get result "id"),PythonData.get result "model",
      PythonData.get result "family"⟩
  | value => pure ⟨printing.dumps value,.none,none,none,.none,.none⟩

def nonEmptyText (value : PyData) : Bool :=
  match value with
  | .str text => !text.isEmpty
  | _ => false

def isNone : PyData → Bool
  | .none => true
  | _ => false

/-- The part of a dispatch that is guarded: every failure here becomes a record. -/
def attempt (printing : Printing) (profiled : Bool) : Reply → Except Raised Extracted
  | .raised kind message => throw (kind,message)
  | .returned value => do
    let extracted ← extract printing value
    check (isNone extracted.data = false) (points "RuntimeError",
      points "schema required structured output but the agent returned none")
    check (profiled = false ∨ (nonEmptyText extracted.served = true ∧
      nonEmptyText extracted.servedFamily = true)) (points "RuntimeError",
        points "agent bridge omitted served model-family provenance")
    check (encodable extracted.text = true)
      (points "UnicodeEncodeError",encodeError extracted.text)
    pure extracted

def errorText (raised : Raised) : PyString := say [raised.1,": ",raised.2]

def recorded (seat : Seat) : Except Raised Extracted → Record
  | .ok extracted => ⟨seat,.ok,extracted.served,extracted.servedFamily,extracted.handle,
      extracted.agentId,extracted.data,extracted.text⟩
  | .error raised => ⟨seat,if timeoutMessage raised.2 then .timeout else .failed,.none,.none,none,none,
      .none,errorText raised⟩

/-- Whether the part of a record that a summary keeps can be written. -/
def publishable (record : Record) : Bool :=
  encodableData record.served && encodableData record.servedFamily &&
    encodable (record.handle.getD []) && encodable (record.agentId.getD []) &&
    (record.status = .ok || encodable record.text)

/-- Whether the files of a record can be written. -/
def stageable (record : Record) : Bool :=
  publishable record && encodable record.text && encodableData record.data

/-- `_dispatch` under a schema. There is no record when writing it raises. -/
def dispatch (printing : Printing) (profiled : Bool) (seat : Seat) (reply : Reply) : Option Record :=
  let record := recorded seat (attempt printing profiled reply)
  if stageable record then some record else none

end Dispatches

section Targets

/-- What a call of git returned: a code with decoded output, no process, or bytes that the
interpreter cannot decode. -/
inductive GitReply where
  | replied (code : ℤ) (stdout : PyString)
  | unavailable
  | undecodable

def GitReply.result : GitReply → Except Unit (ℤ × PyString)
  | .replied code stdout => pure (code,stdout)
  | .unavailable => pure (1,[])
  | .undecodable => throw ()

/-- The target as the snapshot reads it. A canonical file is absent, has bytes, or cannot be read. -/
structure Worktree where
  revParse : GitReply
  diff : GitReply
  others : GitReply
  canonical : List (PyString × Except Unit (Option (List UInt8)))
  fileBytes : PyString → Option (List UInt8)

structure Snapshot where
  available : Bool
  head : Option PyString
  snapshotSha256 : Option PyString
  canonicalStateSha256 : List (PyString × Option PyString)
  dirty : Option Bool
  deriving DecidableEq

def sha256Text (library : Library) (bytes : List UInt8) : PyString :=
  say ["sha256:",library.sha256 bytes]

def canonicalHashes (library : Library) (target : Worktree) :
    Except Unit (List (PyString × Option PyString)) :=
  target.canonical.mapM (fun entry => do
    let bytes ← entry.2
    pure (entry.1,bytes.map (sha256Text library)))

def untrackedPaths (listing : PyString) : List PyString :=
  ((splitlines listing).filter (fun line => !blank line)).insertionSort (fun a b => a ≤ b)

def snapshotBytes (target : Worktree) (head tracked : PyString) (untracked : List PyString) :
    List UInt8 :=
  ScalarText.encode head ++ [0] ++ ScalarText.encode tracked ++ [0] ++
    untracked.flatMap (fun path => ScalarText.encode path ++ [0] ++
      (target.fileBytes path).getD (ScalarText.encode "<unreadable>") ++ [0])

def unversioned (library : Library) (target : Worktree) (head : Option PyString) :
    Except Unit Snapshot := do
  let canonical ← canonicalHashes library target
  pure ⟨false,head,none,canonical,none⟩

def versioned (library : Library) (target : Worktree) (head tracked : PyString)
    (untracked : List PyString) : Except Unit Snapshot := do
  let canonical ← canonicalHashes library target
  pure ⟨true,some head,some (sha256Text library (snapshotBytes target head tracked untracked)),
    canonical,some (!blank tracked || !untracked.isEmpty)⟩

def snapshotAt (library : Library) (target : Worktree) (head : PyString) : Except Unit Snapshot := do
  let diff ← target.diff.result
  let others ← target.others.result
  if diff.1 ≠ 0 ∨ others.1 ≠ 0 then unversioned library target (some head)
  else versioned library target head diff.2 (untrackedPaths others.2)

/-- `_target_snapshot` -/
def targetSnapshot (library : Library) (target : Worktree) : Except Unit Snapshot := do
  let parsed ← target.revParse.result
  if parsed.1 ≠ 0 then unversioned library target none
  else snapshotAt library target (strip parsed.2)

end Targets

section Panels

/-- A panel whose preflight is done: its seats, the replies that its dispatches get, the evidence
gate, and the brief and target at both ends. -/
structure Milestone where
  printing : Printing
  seats : List Seat
  enough : 2 ≤ seats.length
  distinct : (seats.map Seat.seatId).Nodup
  minFamilies : ℕ
  profiled : Bool
  required : List PyString
  metadata : PyFields
  gate : PyString → PyFields
  briefBefore : List UInt8
  briefAfter : Option (List UInt8)
  targetBefore : Worktree
  before : Snapshot
  taken : targetSnapshot printing.toLibrary targetBefore = .ok before
  targetAfter : Worktree
  parallel : List (Option Record) → Option (List Record)
  draftReply : PyString → Reply
  reviewReply : PyString → Reply
  synthesizer : Seat
  synthesisReply : Reply

variable (panel : Milestone)

/-- The statuses that the gate reports at the snapshot of the run. -/
def Milestone.evidenceStatus : PyFields :=
  match panel.before.available, panel.before.head with
  | true, some head =>
    match PythonData.get (panel.gate head) "status" with
    | .dict statuses => statuses
    | _ => panel.gate head
  | _, _ => []

inductive RunStatus where
  | complete
  | partialRun
  | incomplete
  deriving DecidableEq

def RunStatus.text : RunStatus → PyString
  | .complete => "COMPLETE"
  | .partialRun => "PARTIAL"
  | .incomplete => "INCOMPLETE"

structure Summary where
  runStatus : RunStatus
  stage : Option PyString
  briefStable : Bool
  after : Snapshot
  revisionStable : Bool
  adjudication : Adjudication
  drafts : List Record
  reviews : List Record
  synthesis : Option Record

def Milestone.briefStable : Bool :=
  panel.briefAfter.map (sha256Text panel.printing.toLibrary) =
    some (sha256Text panel.printing.toLibrary panel.briefBefore)

/-- Drift is judged only against a known revision. -/
def revisionStable (before after : Snapshot) : Bool :=
  !before.available || (after.available && after.head == before.head &&
    after.snapshotSha256 == before.snapshotSha256 &&
    after.canonicalStateSha256 == before.canonicalStateSha256)

def snapshotOk (before : Snapshot) (stable : Bool) : Bool :=
  before.available && stable && !before.dirty.getD false

def lowered (adjudication : Adjudication) (reason : PyString) : Adjudication :=
  { adjudication with verdict := .incomplete, reasons := adjudication.reasons ++ [reason] }

def shownBool (value : Bool) : PyString := if value then "True" else "False"

def shownDirty : Option Bool → PyString
  | none => "None"
  | some value => shownBool value

def unfinishedReason (status : RunStatus) : PyString :=
  say ["run_status=",status.text,"; non-FAIL verdict forced to INCOMPLETE"]

def uncarriedReason (status : RunStatus) (before : Snapshot) (stable : Bool) : PyString :=
  say ["PASS requires run_status COMPLETE (got ",status.text,") and an available, stable, clean ",
    "target tree (available=",shownBool before.available,", stable=",shownBool stable,", dirty=",
    shownDirty before.dirty,"); downgraded to INCOMPLETE"]

/-- An incomplete run yields no pass and no dispute. -/
def settleIncomplete (status : RunStatus) (adjudication : Adjudication) : Adjudication :=
  if status = .incomplete ∧ (adjudication.verdict = .pass ∨ adjudication.verdict = .contested) then
    lowered adjudication (unfinishedReason status)
  else adjudication

/-- A pass needs a complete run over a known, stable, clean target. -/
def settlePass (status : RunStatus) (before : Snapshot) (stable : Bool)
    (adjudication : Adjudication) : Adjudication :=
  if adjudication.verdict = .pass ∧ ¬ (status = .complete ∧ snapshotOk before stable = true) then
    lowered adjudication (uncarriedReason status before stable)
  else adjudication

def Milestone.settledStatus (status : RunStatus) (stable : Bool) : RunStatus :=
  if panel.briefStable = false ∨ stable = false then .incomplete else status

def synthesisData : Option Record → PyData
  | some record => if record.status = .ok then record.data else .none
  | none => .none

def Milestone.adjudicate (status : RunStatus) (stable : Bool) (synthesis : Option Record) :
    Adjudication :=
  settlePass status panel.before stable (settleIncomplete status
    (milestoneVerdictGuard panel.printing.toLibrary panel.evidenceStatus panel.required
      (synthesisData synthesis)))

def Milestone.summary (status : RunStatus) (stage : Option PyString) (drafts reviews : List Record)
    (synthesis : Option Record) (after : Snapshot) : Summary :=
  let stable := revisionStable panel.before after
  let settled := panel.settledStatus status stable
  ⟨settled,stage,panel.briefStable,after,stable,panel.adjudicate settled stable synthesis,drafts,
    reviews,synthesis⟩

/-- Whether the summary of a run can be written. -/
def Milestone.writable (drafts reviews : List Record) (synthesis : Option Record) : Bool :=
  panel.required.all encodable && encodableFields panel.metadata &&
    (drafts ++ reviews).all publishable && synthesis.all stageable

/-- `_finish`: there is no summary when the target cannot be read again. -/
def Milestone.finish (status : RunStatus) (stage : Option PyString) (drafts reviews : List Record)
    (synthesis : Option Record) : Option Summary :=
  match targetSnapshot panel.printing.toLibrary panel.targetAfter with
  | .error _ => none
  | .ok after =>
    if panel.writable drafts reviews synthesis then
      some (panel.summary status stage drafts reviews synthesis after)
    else none

/-- How a run ends: what it wrote, and whether it returned. -/
structure Ending where
  summary : Option Summary
  returned : Bool

def returning (summary : Option Summary) : Ending := ⟨summary,summary.isSome⟩

def raising (summary : Option Summary) : Ending := ⟨summary,false⟩

def okRecords (records : List Record) : List Record := records.filter (fun r => r.status = .ok)

def Milestone.family (record : Record) : PyString :=
  if panel.profiled then (textOf record.servedFamily).getD [] else record.seat.declaredFamily

def Milestone.families (records : List Record) : List PyString :=
  sortedNames (records.map panel.family)

def Milestone.draft (seat : Seat) : Option Record :=
  dispatch panel.printing panel.profiled seat (panel.draftReply seat.seatId)

def Milestone.review (seat : Seat) : Option Record :=
  dispatch panel.printing panel.profiled seat (panel.reviewReply seat.seatId)

def Milestone.synthesis : Option Record :=
  dispatch panel.printing panel.profiled panel.synthesizer panel.synthesisReply

def Milestone.draftQuorum (drafts : List Record) : Bool :=
  2 ≤ (okRecords drafts).length && panel.minFamilies ≤ (panel.families (okRecords drafts)).length

def Milestone.reviewQuorum (reviews : List Record) : Bool :=
  2 ≤ (okRecords reviews).length &&
    min 2 panel.minFamilies ≤ (panel.families (okRecords reviews)).length

/-- The seats whose drafts succeeded. -/
def reviewerSeats (drafts : List Record) : List Seat := (okRecords drafts).map Record.seat

def Milestone.covered (drafts reviews : List Record) : RunStatus :=
  if (okRecords drafts).length = panel.seats.length ∧
      (okRecords reviews).length = (reviewerSeats drafts).length then .complete else .partialRun

def Milestone.thirdWave (drafts reviews : List Record) : Ending :=
  match panel.synthesis with
  | none => raising none
  | some synthesis =>
    if synthesis.status = .ok then
      returning (panel.finish (panel.covered drafts reviews) none drafts reviews (some synthesis))
    else returning (panel.finish .incomplete (some (points "synthesis")) drafts reviews
      (some synthesis))

def Milestone.afterReviews (drafts reviews : List Record) : Ending :=
  if reviews.length ≠ (reviewerSeats drafts).length then
    raising (panel.finish .incomplete (some (points "reviews")) drafts reviews none)
  else if panel.reviewQuorum reviews then panel.thirdWave drafts reviews
  else returning (panel.finish .incomplete (some (points "review-quorum")) drafts reviews none)

def Milestone.secondWave (drafts : List Record) : Ending :=
  match panel.parallel ((reviewerSeats drafts).map panel.review) with
  | none => raising (panel.finish .incomplete (some (points "reviews")) drafts [] none)
  | some reviews => panel.afterReviews drafts reviews

def Milestone.afterDrafts (drafts : List Record) : Ending :=
  if drafts.length ≠ panel.seats.length then
    raising (panel.finish .incomplete (some (points "drafts")) drafts [] none)
  else if panel.draftQuorum drafts then panel.secondWave drafts
  else returning (panel.finish .incomplete (some (points "draft-quorum")) drafts [] none)

/-- `_run_waves` -/
def Milestone.runWaves : Ending :=
  match panel.parallel (panel.seats.map panel.draft) with
  | none => raising (panel.finish .incomplete (some (points "drafts")) [] [] none)
  | some drafts => panel.afterDrafts drafts

end Panels

end Panel

end EvidenceV4
