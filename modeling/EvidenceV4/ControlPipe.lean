import EvidenceV4.CanonicalJson
import EvidenceV4.FramedStream
import EvidenceV4.ProducerArtifact
import Mathlib.Data.List.Lex
import Mathlib.Order.Fin.Basic

/-!
# The private pipes of a collector

A collector announces the process groups that it starts and those that have
ended, a line for each, and waits for one byte behind each line. The host keeps
every byte in a log, registers a group in a window of its own and closes the
window when the group is released. Lines, storage, acknowledgements and the end
of the run come in any order.
-/

set_option autoImplicit false

namespace EvidenceV4

namespace ControlPipe

open CanonicalJson (Value isSafeInteger parseJSON)
open CheckedExcept
open FramedStream
open ProducerArtifact (units)

inductive Kind
  | owned
  | released
  deriving DecidableEq

structure Message where
  event : Kind
  pgid : ℤ
  deriving DecidableEq

section Messages

def malformed : String := "malformed private ownership message"

/-- `sort` compares code units. -/
def keyOrder (a b : String) : Bool := decide (units a ≤ units b)

def joinedKeys (fields : List (String × Value)) : List Char :=
  List.intercalate [','] (((fields.map Prod.fst).insertionSort (fun a b => keyOrder a b)).map
    String.toList)

def group : Option Value → Except String ℤ
  | some (.number pgid) => do
    check (isSafeInteger pgid ∧ 0 < pgid) malformed
    pure pgid
  | _ => throw malformed

def event : Option Value → Except String Kind
  | some (.string text) =>
    if text = "owned" then pure .owned
    else if text = "released" then pure .released
    else throw malformed
  | _ => throw malformed

/-- The checks of `controlMessage` on the line itself. An array is an object with other keys. -/
def readMessage (bytes : List UInt8) : Except String Message := do
  let value ← parseJSON bytes
  match value with
  | .object fields => do
    check (joinedKeys fields = "event,pgid".toList) malformed
    let pgid ← group (fields.lookup "pgid")
    let event ← event (fields.lookup "event")
    pure ⟨event,pgid⟩
  | _ => throw malformed

end Messages

section Frames

/-- The loop over the buffer when data has arrived. -/
def readFrames (buffer : List UInt8) : Scan UInt8 :=
  if 10 ∈ buffer then
    let lf := buffer.idxOf 10
    let line := buffer.take lf
    let rest := buffer.drop (lf+1)
    if 4096 < line.length ∨ line = [] then ⟨[],rest,some .invalid⟩
    else (readFrames rest).add line
  else ⟨[],buffer,if 4096 < buffer.length then some .oversized else none⟩
termination_by buffer.length
decreasing_by
  have := List.idxOf_lt_length_iff.mpr ‹10 ∈ buffer›
  rw [List.length_drop]
  omega

def faultText : Fault → String
  | .oversized => "oversized private ownership message"
  | .invalid => "invalid private ownership frame"

end Frames

inductive WindowState
  | pending
  | active
  | closed
  deriving DecidableEq

/-- A registered group, the index of its window and whether it is known to have ended. -/
structure Registration where
  pgid : ℤ
  window : ℕ
  terminated : Bool
  deriving DecidableEq

inductive Task
  | store (bytes : List UInt8)
  | message (line : List UInt8)
  deriving DecidableEq

/-- What the chain of tasks waits for. -/
inductive Phase
  | idle
  | storing (bytes : List UInt8)
  | collecting (message : Message)
  | identifying (pgid : ℤ)
  | opening (pgid : ℤ)
  | registering (pgid : ℤ) (window : ℕ)
  | terminating (pgid : ℤ) (window : ℕ)
  | closing (pgid : ℤ) (window : ℕ)
  | acknowledging
  deriving DecidableEq

/-- How a wait ends; a change of the owner record can be made and not be stored. -/
inductive Outcome
  | done
  | failed (message : String)
  | unsaved (message : String)
  deriving DecidableEq

inductive Interrupt
  | timeout
  | cancelled
  | error (message : String)
  deriving DecidableEq

inductive Event
  | data (bytes : List UInt8)
  | eof
  | broken (message : String)
  | register
  | start
  | settle (outcome : Outcome)
  | sweep (pgid : ℤ)
  | observe (pid : ℤ)
  | interrupt (cause : Interrupt)
  deriving DecidableEq

structure Pipe where
  buffer : List UInt8
  tasks : List Task
  phase : Phase
  log : List UInt8
  logValid : Bool
  registered : Bool
  hosted : List Registration
  windows : List WindowState
  acknowledged : ℕ
  failed : Bool
  ended : Bool
  timedOut : Bool
  cancelled : Bool
  possible : List ℤ
  error : Option String
  deriving DecidableEq

def fresh : Pipe where
  buffer := []
  tasks := []
  phase := .idle
  log := []
  logValid := true
  registered := false
  hosted := []
  windows := []
  acknowledged := 0
  failed := false
  ended := false
  timedOut := false
  cancelled := false
  possible := []
  error := none

section Steps

def Pipe.protocolError (s : Pipe) (message : String) : Pipe :=
  { s with error := s.error.or (some message), failed := true }

/-- The end of a task that fails. -/
def Pipe.refuse (s : Pipe) (message : String) : Pipe := { s.protocolError message with phase := .idle }

def mark (pgid : ℤ) (hosted : List Registration) : List Registration :=
  hosted.map (fun r => if r.pgid = pgid then { r with terminated := true } else r)

def Pipe.begin (s : Pipe) (line : List UInt8) : Pipe :=
  if s.failed then s.refuse "private ownership protocol already failed"
  else
    match readMessage line with
    | .error message => s.refuse message
    | .ok message =>
      if s.registered then { s with phase := .collecting message }
      else s.refuse "collector is not registered"

/-- `controlMessage` behind the check of the collector. -/
def Pipe.collected (s : Pipe) (message : Message) : Pipe :=
  match message.event with
  | .owned =>
    if s.hosted.any (fun r => r.pgid = message.pgid) then
      s.refuse "duplicate private ownership registration"
    else { s with phase := .identifying message.pgid }
  | .released =>
    match s.hosted.find? (fun r => r.pgid = message.pgid) with
    | none => s.refuse "out-of-order private ownership release"
    | some r =>
      if r.terminated then s.refuse "out-of-order private ownership release"
      else { s with phase := .terminating message.pgid r.window }

def Pipe.acknowledge (s : Pipe) : Pipe :=
  if s.failed || s.timedOut || s.cancelled then
    s.refuse "private ownership acknowledgement after cancellation refused"
  else { s with acknowledged := s.acknowledged+1, phase := .acknowledging }

def Pipe.opened (s : Pipe) : Pipe := { s with windows := s.windows ++ [.pending] }

def Pipe.setWindow (s : Pipe) (window : ℕ) (state : WindowState) : Pipe :=
  { s with windows := s.windows.set window state }

def Pipe.terminate (s : Pipe) (pgid : ℤ) : Pipe := { s with hosted := mark pgid s.hosted }

def Pipe.host (s : Pipe) (pgid : ℤ) (window : ℕ) : Pipe :=
  { s with hosted := s.hosted ++ [⟨pgid,window,false⟩] }

def Pipe.settle (s : Pipe) : Phase → Outcome → Option Pipe
  | .idle, _ => none
  | .storing bytes, .done => some { s with log := s.log ++ bytes, phase := .idle }
  | .storing _, .failed message => some ({ s with logValid := false }.refuse message)
  | .storing _, .unsaved message => some ({ s with logValid := false }.refuse message)
  | .collecting message, .done => some (s.collected message)
  | .identifying pgid, .done => some { s with phase := .opening pgid }
  | .opening pgid, .done => some { s.opened with phase := .registering pgid s.windows.length }
  | .opening _, .unsaved message => some (s.opened.refuse message)
  | .registering pgid window, .done => some ((s.setWindow window .active).host pgid window).acknowledge
  | .registering _ window, .unsaved message => some ((s.setWindow window .active).refuse message)
  | .terminating pgid window, .done => some { s.terminate pgid with phase := .closing pgid window }
  | .terminating pgid _, .unsaved message => some ((s.terminate pgid).refuse message)
  | .closing _ window, .done => some (s.setWindow window .closed).acknowledge
  | .closing _ window, .unsaved message => some ((s.setWindow window .closed).refuse message)
  | .acknowledging, .done => some { s with phase := .idle }
  | _, .failed message => some (s.refuse message)
  | _, .unsaved message => some (s.refuse message)

def Pipe.start (s : Pipe) : Option Pipe :=
  if s.phase = .idle then
    match s.tasks with
    | [] => none
    | .store bytes :: tasks => some { s with tasks := tasks, phase := .storing bytes }
    | .message line :: tasks => some ({ s with tasks := tasks }.begin line)
  else none

def Pipe.raise (s : Pipe) : Option Fault → Pipe
  | none => s
  | some fault => s.protocolError (faultText fault)

def Pipe.data (s : Pipe) (bytes : List UInt8) : Pipe :=
  if s.failed then { s with tasks := s.tasks ++ [.store bytes] }
  else
    let read := readFrames (s.buffer ++ bytes)
    let tasks := s.tasks ++ .store bytes :: read.frames.map Task.message
    { s with tasks := tasks, buffer := read.rest }.raise read.fault

def Pipe.eof (s : Pipe) : Pipe :=
  if s.buffer = [] then { s with ended := true }
  else { s with ended := true }.protocolError "partial private ownership message"

def Pipe.interrupt (s : Pipe) : Interrupt → Pipe
  | .timeout => { s with timedOut := true }
  | .cancelled => { s with cancelled := true }
  | .error message => { s with error := s.error.or (some message) }

def step (s : Pipe) : Event → Option Pipe
  | .data bytes => if s.ended then none else some (s.data bytes)
  | .eof => if s.ended then none else some s.eof
  | .broken message => some (s.protocolError message)
  | .register => some { s with registered := true }
  | .start => s.start
  | .settle outcome => s.settle s.phase outcome
  | .sweep pgid => some (s.terminate pgid)
  | .observe pid => some { s with possible := s.possible ++ [pid] }
  | .interrupt cause => some (s.interrupt cause)

def run (s : Pipe) : List Event → Option Pipe
  | [] => some s
  | event :: events => (step s event).bind (fun s => run s events)

/-- Everything has arrived and the chain of tasks has come to its end. -/
structure Pipe.Drained (s : Pipe) : Prop where
  ended : s.ended = true
  tasks : s.tasks = []
  phase : s.phase = .idle

instance (s : Pipe) : Decidable s.Drained :=
  decidable_of_iff (s.ended = true ∧ s.tasks = [] ∧ s.phase = .idle)
    ⟨fun h => ⟨h.1,h.2.1,h.2.2⟩,fun h => ⟨h.ended,h.tasks,h.phase⟩⟩

/-- What a run that was not abandoned asks of the pipes at its end. -/
def Pipe.normalProtocol (s : Pipe) (escaped : Bool) (code : Option ℤ) (signal : Option String) : Bool :=
  !escaped && code.isSome && signal.isNone && !s.timedOut && !s.cancelled && !s.failed && s.ended &&
    s.buffer.isEmpty && s.possible.all (fun pid => s.hosted.any (fun r => r.pgid = pid)) &&
    s.hosted.all (fun r => r.terminated)

def Pipe.protocolLog (s : Pipe) : Option (List UInt8) := if s.logValid then some s.log else none

end Steps

section Bytes

def Event.bytes : Event → List UInt8
  | .data bytes => bytes
  | _ => []

def received (events : List Event) : List UInt8 := events.flatMap Event.bytes

theorem first_line {buffer : List UInt8} (found : 10 ∈ buffer) :
    ∃ line rest, buffer = line ++ 10 :: rest ∧ 10 ∉ line ∧ buffer.take (buffer.idxOf 10) = line ∧
      buffer.drop (buffer.idxOf 10 + 1) = rest := by
  have ⟨line,rest,whole,free⟩ := List.eq_append_cons_of_mem found
  have position : buffer.idxOf 10 = line.length := by
    rw [whole, List.idxOf_append_of_notMem free, List.idxOf_cons_self, Nat.add_zero]
  rw [position]
  exact ⟨line,rest,whole,free,by simp [whole],by simp [whole]⟩

/-- The loop over the buffer reads the frames of its bytes. -/
theorem readFrames_eq (buffer : List UInt8) : readFrames buffer = scan 10 4096 buffer := by
  induction buffer using readFrames.induct with
  | case1 buffer found lf line bad =>
    have ⟨front,rest,whole,free,same,behind⟩ := first_line found
    have bad : 4096 < front.length ∨ front = [] := same ▸ bad
    rw [readFrames, if_pos found]
    simp only [same, behind]
    rw [if_pos bad, whole, scan, scanFrom_line free, List.nil_append, scanFrom, if_pos rfl,
      if_pos bad.symm]
  | case2 buffer found lf line rest fine ih =>
    have ⟨front,rest,whole,free,same,behind⟩ := first_line found
    have fine : ¬ (4096 < front.length ∨ front = []) := same ▸ fine
    have ih : readFrames rest = scan 10 4096 rest := behind ▸ ih
    rw [readFrames, if_pos found]
    simp only [same, behind]
    rw [if_neg fine, ih, whole, scan, scan, scanFrom_line free, List.nil_append, scanFrom,
      if_pos rfl, if_neg (fun bad => fine bad.symm)]
  | case3 buffer absent =>
    have rest : ∀ line : List UInt8, scanFrom 10 4096 line buffer =
        ⟨[],line ++ buffer,if 4096 < (line ++ buffer).length then some .oversized else none⟩ := by
      intro line
      have whole := @scanFrom_line UInt8 _ 10 4096 buffer [] absent line
      rwa [List.append_nil] at whole
    rw [readFrames, if_neg absent]
    exact (rest []).symm

end Bytes

end ControlPipe

end EvidenceV4
