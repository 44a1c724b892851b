import EvidenceV4.LineText
import EvidenceV4.RepositoryTree

/-!
# The manifest of a run

A run has voices, each with an output file that is named after it. Three
operations change the entry of one voice: it is complete, it is in error, or it
is reset to another attempt. Entries are added by the initialisation alone, and
an attempt that is reset stays in the history of its voice.
-/

set_option autoImplicit false

namespace EvidenceV4

namespace RunManifest

open CheckedExcept
open CheckerJson (PyString points)
open PolicyDocument (mapGet)
open PythonData
open RepositoryTree (parsePath)

section Entries

inductive Status where
  | pending
  | complete
  | error
  deriving DecidableEq

structure Attempt where
  status : Status
  elapsed : Option ℚ
  finishReason : Option PyString
  errorDetail : Option PyString
  resetAt : ℕ
  outputMovedTo : Option PyString
  deriving DecidableEq

structure Voice where
  id : PyString
  harness : PyString
  file : PyString
  status : Status
  elapsed : Option ℚ
  finishReason : Option PyString
  errorDetail : Option PyString
  history : List Attempt
  deriving DecidableEq

/-- A manifest. The time of its creation is in seconds, like those of its resets. -/
structure Manifest where
  runId : PyString
  target : PyString
  created : ℕ
  phase : PyString
  voices : List Voice
  synthesisHarness : PyString
  deriving DecidableEq

end Entries

section Initialisation

variable (library : Library)

/-- The parts of a text between commas, without the white space around them. -/
def commaParts (text : PyString) : List PyString := text.splitOn 44

def exitError {α : Type} (parts : List PyString) : Except PyString α := throw (say parts)

/-- `voice:harness`, cut at the first colon. -/
def ownerOf (part : PyString) : Except PyString (PyString × PyString) :=
  if 58 ∈ part then
    pure (strip (part.takeWhile (· ≠ 58)),strip ((part.dropWhile (· ≠ 58)).drop 1))
  else exitError ["error: bad --owners segment ",library.repr (.str part),
    "; expected `voice:harness`"]

/-- `parse_owners` -/
def parseOwners (text : PyString) : Except PyString (List (PyString × PyString)) :=
  ((commaParts text).filter (fun part => !blank part)).mapM (ownerOf library)

/-- `slug_for_voice` -/
def slugForVoice (voiceId harness : PyString) : PyString :=
  let safe := voiceId.map (fun c => if c = 47 ∨ c = 58 then 45 else c)
  if voiceId = points "claude" ∧ harness = points "omp" then "claude.md"
  else say [harness,"-",safe,".md"]

def newVoice (id harness : PyString) : Voice :=
  ⟨id,harness,slugForVoice id harness,.pending,none,none,none,[]⟩

/-- The voices that the arguments name, each with its owner. -/
def owned (owners : List (PyString × PyString)) (id : PyString) : Except PyString Voice :=
  match mapGet owners id with
  | some harness => pure (newVoice id harness)
  | none => exitError ["error: voice ",library.repr (.str id)," has no owner; pass --owners=",id,
      ":<harness>"]

def voiceIds (text : PyString) : List PyString :=
  ((commaParts text).map strip).filter (· ≠ [])

def repeatedIds (ids : List PyString) : List PyString :=
  sortedNames (ids.filter (fun id => 1 < ids.count id))

/-- What `init` reads beside its voices: where, when and for whom the run is. -/
structure Request where
  runId : PyString
  target : PyString
  created : ℕ
  phase : PyString
  synthesisHarness : PyString
  voices : PyString
  owners : Option PyString

def checkIds (ids : List PyString) : Except PyString Unit := do
  check (ids ≠ []) (points "error: --voices is empty — a zero-voice run is invalid")
  check ids.Nodup (say ["error: duplicate voice ids in --voices: ",
    library.repr (.list ((repeatedIds ids).map .str))])

/-- `cmd_init`: the manifest that it saves. -/
def cmdInit (request : Request) : Except PyString Manifest := do
  let ids := voiceIds request.voices
  checkIds library ids
  let owners ← (request.owners.filter (· ≠ [])).elim (pure []) (parseOwners library)
  let voices ← ids.mapM (owned library owners)
  pure ⟨request.runId,request.target,request.created,request.phase,voices,request.synthesisHarness⟩

end Initialisation

section Operations

/-- An operation with its arguments. -/
inductive Op where
  | complete (voice : PyString) (elapsed : Option ℚ) (finishReason : PyString)
  | error (voice detail : PyString) (elapsed : Option ℚ)
  | reset (voice : PyString)
  deriving DecidableEq

def Op.voice : Op → PyString
  | .complete voice _ _ => voice
  | .error voice _ _ => voice
  | .reset voice => voice

/-- An operation as it took place: when, and whether it moved an output aside. -/
structure Commit where
  op : Op
  time : ℕ
  moved : Bool
  deriving DecidableEq

/-- Whole seconds of a time in nanoseconds. -/
def seconds (time : ℕ) : ℕ := time / 1000000000

/-- The name to which the output of an attempt is moved. -/
def attemptFile (file : PyString) (count : ℕ) : PyString := say [file,".attempt",number count]

def completeVoice (elapsed : Option ℚ) (finishReason : PyString) (voice : Voice) : Voice :=
  { voice with status := .complete, elapsed := elapsed.or voice.elapsed, errorDetail := none,
               finishReason := if finishReason = [] then voice.finishReason else some finishReason }

def errorVoice (detail : PyString) (elapsed : Option ℚ) (voice : Voice) : Voice :=
  { voice with status := .error, errorDetail := some detail, elapsed := elapsed.or voice.elapsed }

/-- `Path(name).name` -/
def baseName (name : PyString) : PyString := (parsePath name).parts.getLast?.getD []

/-- The attempt that a reset retains. -/
def retained (time : ℕ) (moved : Bool) (voice : Voice) : Attempt :=
  ⟨voice.status,voice.elapsed,voice.finishReason,voice.errorDetail,seconds time,
    if moved then some (baseName (attemptFile voice.file (voice.history.length + 1))) else none⟩

def resetVoice (time : ℕ) (moved : Bool) (voice : Voice) : Voice :=
  { voice with status := .pending, elapsed := none, finishReason := none, errorDetail := none,
               history := voice.history ++ [retained time moved voice] }

def Commit.update (commit : Commit) : Voice → Voice :=
  match commit.op with
  | .complete _ elapsed finishReason => completeVoice elapsed finishReason
  | .error _ detail elapsed => errorVoice detail elapsed
  | .reset _ => resetVoice commit.time commit.moved

/-- What an operation does to the entry of its voice, and to no other. -/
def applyTo (commit : Commit) (voice : Voice) : Voice :=
  if voice.id = commit.op.voice then commit.update voice else voice

def apply (manifest : Manifest) (commit : Commit) : Manifest :=
  { manifest with voices := manifest.voices.map (applyTo commit) }

/-- The operations of a list, applied one by one. -/
def applyAll (manifest : Manifest) (commits : List Commit) : Manifest := commits.foldl apply manifest

/-- `find_voice` -/
def findVoice (manifest : Manifest) (id : PyString) : Option Voice :=
  manifest.voices.find? (fun voice => voice.id = id)

/-- The time before which an output is stale, in seconds. -/
def floorOf (manifest : Manifest) (voice : Voice) : ℕ :=
  voice.history.foldl (fun floor attempt => max floor attempt.resetAt) manifest.created

end Operations

end RunManifest

end EvidenceV4
