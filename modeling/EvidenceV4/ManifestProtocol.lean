import EvidenceV4.RunManifest
import EvidenceV4.TransitionRun

/-!
# Processes on one manifest

Processes take the lock of a run, read its manifest, change it, write it to a
file of their own and put that file in the place of the manifest. A reset moves
the output of its voice aside before it writes. A process may stop anywhere; its
lock goes with it. Harnesses write the outputs of voices that are not complete.
-/

set_option autoImplicit false

namespace EvidenceV4

namespace RunManifest

open CheckerJson (PyString points)

section States

structure Output where
  content : PyString
  mtime : ℕ
  deriving DecidableEq

/-- What a file holds to which a manifest is written: some characters of it, or all. -/
inductive Contents where
  | torn (written : ℕ)
  | whole (manifest : Manifest)
  deriving DecidableEq

/-- `json.load` -/
def Contents.load : Contents → Option Manifest
  | .torn _ => none
  | .whole manifest => some manifest

/-- Where a file lies that a name in the run directory refers to. -/
abbrev Location := List PyString

/-- Where a process is in its operation. -/
inductive Phase where
  | idle
  | waiting (op : Op)
  | locked (op : Op)
  | loaded (op : Op) (manifest : Manifest)
  | settled (commit : Commit) (next : Manifest)
  | writing (commit : Commit) (next : Manifest)
  | saved (commit : Commit)
  | released (commit : Commit)
  | acknowledged (commit : Commit)
  | failed
  | crashed
  deriving DecidableEq

/-- The run directory, the lock and the processes, with what has happened so far: the order of the
grants, the operations that took place, and the outputs that were moved aside. -/
structure State where
  clock : ℕ
  published : Contents
  temps : ℕ → Contents
  outputs : Location → Option Output
  lock : Option ℕ
  phase : ℕ → Phase
  granted : List ℕ
  log : List (ℕ × Commit)
  asides : List (PyString × Output)

/-- A run directory when its manifest has been saved for the first time. -/
structure Setup where
  locate : PyString → Location
  manifest : Manifest
  clock : ℕ
  outputs : Location → Option Output

def start (setup : Setup) : State :=
  ⟨setup.clock,.whole setup.manifest,fun _ => .torn 0,setup.outputs,none,fun _ => .idle,[],[],[]⟩

end States

section Steps

inductive Label where
  | tick (nanoseconds : ℕ)
  | deliver (voice content : PyString)
  | start (p : ℕ) (op : Op)
  | acquire (p : ℕ)
  | load (p : ℕ)
  | perform (p : ℕ)
  | openTemp (p : ℕ)
  | write (p written : ℕ)
  | close (p : ℕ)
  | replace (p : ℕ)
  | release (p : ℕ)
  | acknowledge (p : ℕ)
  | crash (p : ℕ)
  deriving DecidableEq

def Phase.op : Phase → Option Op
  | .waiting op => some op
  | .locked op => some op
  | .loaded op _ => some op
  | .settled commit _ => some commit.op
  | .writing commit _ => some commit.op
  | _ => none

/-- The operation of the process is under way. -/
def Phase.active : Phase → Bool
  | .idle => false
  | .acknowledged _ => false
  | .failed => false
  | .crashed => false
  | _ => true

def Op.completes (op : Op) (voice : PyString) : Bool :=
  match op with
  | .complete id _ _ => id = voice
  | _ => false

variable (setup : Setup) (s : State)

/-- The process that has the lock is about to report the voice complete. -/
def State.completing (voice : PyString) : Bool :=
  (s.lock.bind (fun p => (s.phase p).op)).any (fun op => op.completes voice)

def State.enter (p : ℕ) (phase : Phase) : State :=
  { s with phase := Function.update s.phase p phase }

def State.unlock : State := { s with lock := none }

/-- `sys.exit` under the lock, which is released on the way. -/
def State.fail (p : ℕ) : State := (s.enter p .failed).unlock

/-- A harness writes the output of a voice until it reports the voice complete. -/
def deliver (id content : PyString) : Option State :=
  s.published.load.bind (fun manifest =>
    (findVoice manifest id).bind (fun voice =>
      if voice.status ≠ .complete ∧ s.completing id = false then
        some { s with outputs := Function.update s.outputs (setup.locate voice.file)
                        (some ⟨content,s.clock⟩) }
      else none))

/-- `load_manifest` -/
def State.loadManifest (p : ℕ) (op : Op) : State :=
  match s.published.load with
  | some manifest =>
    if manifest.voices ≠ [] ∧ (manifest.voices.map Voice.id).Nodup then s.enter p (.loaded op manifest)
    else s.fail p
  | none => s.fail p

def State.settle (p : ℕ) (commit : Commit) (manifest : Manifest) : State :=
  s.enter p (.settled commit (apply manifest commit))

/-- An output from before the run or the attempt, with a second of tolerance. -/
def stale (manifest : Manifest) (voice : Voice) (output : Output) : Bool :=
  (output.mtime : ℤ) < ((floorOf manifest voice : ℤ) - 1) * 1000000000

/-- The checks of `cmd_complete`. -/
def performComplete (p : ℕ) (op : Op) (manifest : Manifest) (voice : Voice) : State :=
  match s.outputs (setup.locate voice.file) with
  | some output =>
    if output.content = [] ∨ stale manifest voice output = true then s.fail p
    else s.settle p ⟨op,s.clock,false⟩ manifest
  | none => s.fail p

/-- `file_path.rename(aside)` -/
def State.moveAside (file aside : PyString) (output : Output) : State :=
  { s with outputs := Function.update (Function.update s.outputs (setup.locate aside) (some output))
             (setup.locate file) none
           asides := s.asides ++ [(aside,output)] }

/-- `cmd_reset` up to its save. -/
def performReset (p : ℕ) (op : Op) (manifest : Manifest) (voice : Voice) : State :=
  match s.outputs (setup.locate voice.file) with
  | some output =>
    (s.moveAside setup voice.file (attemptFile voice.file (voice.history.length + 1)) output).settle p
      ⟨op,s.clock,true⟩ manifest
  | none => s.settle p ⟨op,s.clock,false⟩ manifest

/-- What an operation does between reading the manifest and writing it. -/
def perform (p : ℕ) (op : Op) (manifest : Manifest) : State :=
  match findVoice manifest op.voice with
  | none => s.fail p
  | some voice =>
    match op with
    | .complete _ _ _ => performComplete setup s p op manifest voice
    | .error _ _ _ => s.settle p ⟨op,s.clock,false⟩ manifest
    | .reset _ => performReset setup s p op manifest voice

/-- `os.replace(tmp_name, p)` -/
def State.publish (p : ℕ) (commit : Commit) : State :=
  { s.enter p (.saved commit) with published := s.temps p, log := s.log ++ [(p,commit)] }

def State.crash (p : ℕ) : State :=
  { s.enter p .crashed with lock := if s.lock = some p then none else s.lock }

def step : Label → Option State
  | .tick nanoseconds => some { s with clock := s.clock + nanoseconds }
  | .deliver id content => deliver setup s id content
  | .start p op => if s.phase p = .idle then some (s.enter p (.waiting op)) else none
  | .acquire p =>
    match s.phase p, s.lock with
    | .waiting op, none =>
      some { s.enter p (.locked op) with lock := some p, granted := s.granted ++ [p] }
    | _, _ => none
  | .load p =>
    match s.phase p with
    | .locked op => some (s.loadManifest p op)
    | _ => none
  | .perform p =>
    match s.phase p with
    | .loaded op manifest => some (perform setup s p op manifest)
    | _ => none
  | .openTemp p =>
    match s.phase p with
    | .settled commit next =>
      some { s.enter p (.writing commit next) with temps := Function.update s.temps p (.torn 0) }
    | _ => none
  | .write p written =>
    match s.phase p with
    | .writing _ _ => some { s with temps := Function.update s.temps p (.torn written) }
    | _ => none
  | .close p =>
    match s.phase p with
    | .writing _ next => some { s with temps := Function.update s.temps p (.whole next) }
    | _ => none
  | .replace p =>
    match s.phase p with
    | .writing commit next =>
      if s.temps p = .whole next then some (s.publish p commit) else none
    | _ => none
  | .release p =>
    match s.phase p with
    | .saved commit => some (s.enter p (.released commit)).unlock
    | _ => none
  | .acknowledge p =>
    match s.phase p with
    | .released commit => some (s.enter p (.acknowledged commit))
    | _ => none
  | .crash p => if (s.phase p).active then some (s.crash p) else none

end Steps

end RunManifest

end EvidenceV4
