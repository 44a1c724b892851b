import EvidenceV4.OwnedCells
import Mathlib.Data.List.Basic
import Mathlib.Logic.Function.Basic

/-!
# Lock files of sessions and their recovery

Sessions create lock files exclusively, look at a file that exists already, and
take back what a call has created when it answers that a lock is held elsewhere.
The files that a session plans to hold are listed before it creates them. When its
process is dead, a recovery removes the files of that list which name it. The
steps of all sessions and recoveries interleave, any of them can fail, and the
processes can die between any two of them.
-/

set_option autoImplicit false

namespace EvidenceV4

namespace LockFiles

/-- A lock file names its owner once it is written; before that it is no JSON text. -/
structure Content (Owner : Type) where
  owner : Owner
  written : Bool
  deriving DecidableEq

/-- How a call of the file system ends; an effect can be there and not be known to be stored. -/
inductive Effect
  | done
  | failed
  | unsynced
  deriving DecidableEq

/-- The calls of `removeMatching` and the change of the session's own record behind them. -/
inductive Stage
  | look
  | unlink
  | forget
  deriving DecidableEq

structure Removal (File : Type) where
  todo : List File
  stage : Stage
  deriving DecidableEq

/-- What `tryLocks` says when it has removed what it created. -/
inductive Answer
  | contended
  | error
  deriving DecidableEq

inductive Pc (File Owner : Type)
  | register
  | create
  | write
  | read
  | owner (owner : Owner)
  | reread (owner : Owner)
  | clean (removal : Removal File) (answer : Answer)
  deriving DecidableEq

/-- A call of `tryLocks`: the files it has yet to create and those that it has. -/
structure Attempt (File Owner : Type) where
  todo : List File
  acquired : List File
  pc : Pc File Owner
  deriving DecidableEq

inductive Phase (File : Type)
  | held
  | releasing (removal : Removal File)
  | released
  | failed
  deriving DecidableEq

structure Handle (File : Type) where
  files : List File
  phase : Phase File
  deriving DecidableEq

inductive Status
  | fresh
  | live
  | dead
  deriving DecidableEq

structure Session (File Owner : Type) where
  status : Status
  locks : List File
  attempt : Option (Attempt File Owner)
  handles : List (Handle File)
  storageFailed : Bool
  deriving DecidableEq

inductive SweepStage
  | look
  | compare
  | unlink
  deriving DecidableEq

inductive RecoveryPc (File : Type)
  | guard
  | verify
  | load
  | sweep (todo : List File) (stage : SweepStage)
  | retire
  | closing (retired : Bool)
  | finished (retired : Bool)
  deriving DecidableEq

structure Recovery (File Owner : Type) where
  owner : Owner
  pc : RecoveryPc File
  deriving DecidableEq

/-- The files on disk and the processes. `owners` and `guards` are the owner file and the recovery
lock of a project, `registries` the lists that the sessions store. -/
structure World (File Owner Project Ticket : Type) where
  files : File → Option (Content Owner)
  owners : Project → Option Owner
  guards : Project → Option Ticket
  registries : Owner → List File
  sessions : Owner → Session File Owner
  recoveries : Ticket → Option (Recovery File Owner)

inductive Event (File Owner Ticket : Type)
  | launch (s : Owner)
  | attempt (s : Owner) (files : List File)
  | advance (s : Owner) (effect : Effect)
  | release (s : Owner) (handle : ℕ)
  | remove (s : Owner) (handle : ℕ) (effect : Effect)
  | finish (s : Owner) (effect : Effect)
  | crash (s : Owner)
  | recover (r : Ticket) (o : Owner)
  | pursue (r : Ticket) (effect : Effect)
  | desert (r : Ticket)

section Steps

variable {File Owner Project Ticket : Type} [DecidableEq File] [DecidableEq Owner]
  [DecidableEq Project] [DecidableEq Ticket] (home : Owner → Project)

abbrev Disk (File Owner : Type) := File → Option (Content Owner)

def unused : Session File Owner := ⟨.fresh,[],none,[],false⟩

def empty : World File Owner Project Ticket where
  files := fun _ => none
  owners := fun _ => none
  guards := fun _ => none
  registries := fun _ => []
  sessions := fun _ => unused
  recoveries := fun _ => none

variable (w : World File Owner Project Ticket)

def World.setRecovery (r : Ticket) (recovery : Recovery File Owner) :
    World File Owner Project Ticket :=
  { w with recoveries := Function.update w.recoveries r (some recovery) }

/-- What a step of a session reads and changes: the lock files, its list and its own record. -/
structure View (File Owner : Type) where
  files : Disk File Owner
  registry : List File
  session : Session File Owner

def World.view (s : Owner) : View File Owner := ⟨w.files,w.registries s,w.sessions s⟩

def World.become (s : Owner) (v : View File Owner) : World File Owner Project Ticket :=
  { w with
    files := v.files
    registries := Function.update w.registries s v.registry
    sessions := Function.update w.sessions s v.session }

/-- One call of the loop that removes acquired files, newest first; `none` is a failure. -/
def removalStep (s : Owner) (disk : Disk File Owner) (locks : List File) (effect : Effect) :
    Removal File → Option (Disk File Owner × List File × Removal File)
  | ⟨[],_⟩ => none
  | ⟨f :: rest,.look⟩ =>
    if effect = .done ∧ disk f = some ⟨s,true⟩ then some (disk,locks,⟨f :: rest,.unlink⟩) else none
  | ⟨f :: rest,.unlink⟩ =>
    if effect = .done ∧ (disk f).isSome then
      some (Function.update disk f none,locks,⟨f :: rest,.forget⟩)
    else none
  | ⟨f :: rest,.forget⟩ =>
    if effect = .done then some (disk,locks.filter (· ≠ f),⟨rest,.look⟩) else none

/-- A storage failure leaves the call without a removal of what it has created. -/
def Session.fail (session : Session File Owner) : Session File Owner :=
  { session with attempt := none, storageFailed := true }

def Session.going (session : Session File Owner) (attempt : Attempt File Owner) :
    Session File Owner := { session with attempt := some attempt }

/-- The end of the loop over the files gives the handle that is returned. -/
def Session.proceed (session : Session File Owner) (todo acquired : List File) :
    Session File Owner :=
  match todo with
  | [] => { session with attempt := none, handles := session.handles ++ [⟨acquired,.held⟩] }
  | _ => session.going ⟨todo,acquired,.create⟩

/-- The `finally` of a call that has met an existing file. -/
def Attempt.cleaning (attempt : Attempt File Owner) (answer : Answer) : Attempt File Owner :=
  { attempt with pc := .clean ⟨attempt.acquired.reverse,.look⟩ answer }

variable (v : View File Owner)

def View.keep (session : Session File Owner) : View File Owner := { v with session := session }

def View.put (f : File) (content : Content Owner) : View File Owner :=
  { v with files := Function.update v.files f (some content) }

def View.list (files : List File) : View File Owner := { v with registry := files }

/-- The next call of `tryLocks`. -/
def View.advance (owners : Project → Option Owner) (s : Owner) (attempt : Attempt File Owner)
    (effect : Effect) : View File Owner :=
  let session := v.session
  match attempt.pc, attempt.todo with
  | .register, todo =>
    match effect with
    | .done => (v.list (session.locks ++ todo)).keep (session.proceed todo attempt.acquired)
    | .failed => v.keep session.fail
    | .unsynced => (v.list (session.locks ++ todo)).keep session.fail
  | .create, f :: _ =>
    if effect = .done then
      match v.files f with
      | none => (v.put f ⟨s,false⟩).keep (session.going { attempt with pc := .write })
      | some _ => v.keep (session.going { attempt with pc := .read })
    else v.keep session.fail
  | .write, f :: rest =>
    match effect with
    | .done => (v.put f ⟨s,true⟩).keep
        ({ session with locks := session.locks ++ [f] }.proceed rest (attempt.acquired ++ [f]))
    | .failed => v.keep session.fail
    | .unsynced => (v.put f ⟨s,true⟩).keep session.fail
  | .read, f :: _ =>
    if effect = .done then
      match v.files f with
      | none => v.keep (session.going (attempt.cleaning .contended))
      | some ⟨_,false⟩ => v.keep (session.going (attempt.cleaning .error))
      | some ⟨o,true⟩ => v.keep (session.going { attempt with pc := .owner o })
    else v.keep (session.going (attempt.cleaning .error))
  | .owner o, _ =>
    if effect = .done ∧ owners (home o) = some o then
      v.keep (session.going (attempt.cleaning .contended))
    else v.keep (session.going { attempt with pc := .reread o })
  | .reread o, f :: _ =>
    if effect = .done ∧ v.files f ≠ some ⟨o,true⟩ then
      v.keep (session.going (attempt.cleaning .contended))
    else v.keep (session.going (attempt.cleaning .error))
  | .clean removal answer, _ =>
    match removalStep s v.files session.locks effect removal with
    | some (files,locks,removal) => { v with
        files := files
        session := { session with locks := locks }.going { attempt with pc := .clean removal answer } }
    | none => v.keep { session with attempt := none }
  | _, [] => v

/-- The next call of `release` on a handle. -/
def View.remove (s : Owner) (i : ℕ) (held : List File) (removal : Removal File) (effect : Effect) :
    View File Owner :=
  let session := v.session
  let turn := fun phase : Phase File => session.handles.set i ⟨held,phase⟩
  if removal.todo = [] then v.keep { session with handles := turn .released }
  else
    match removalStep s v.files session.locks effect removal with
    | some (files,locks,removal) => { v with
        files := files
        session := { session with locks := locks, handles := turn (.releasing removal) } }
    | none => v.keep { session with handles := turn .failed }

/-- The next call of `recoverOwner`. -/
def World.pursue (r : Ticket) (recovery : Recovery File Owner) (effect : Effect) :
    World File Owner Project Ticket :=
  let o := recovery.owner
  let go := fun pc : RecoveryPc File => w.setRecovery r { recovery with pc := pc }
  match recovery.pc with
  | .guard =>
    if effect = .done ∧ w.guards (home o) = none then
      { go .verify with guards := Function.update w.guards (home o) (some r) }
    else go (.finished false)
  | .verify =>
    if effect = .done ∧ (w.sessions o).status = .dead then go .load else go (.closing false)
  | .load =>
    if effect = .done ∧ w.owners (home o) = some o then go (.sweep (w.registries o) .look)
    else go (.closing false)
  | .sweep [] _ => go .retire
  | .sweep (f :: rest) .look =>
    if effect = .done then
      match w.files f with
      | none => go (.sweep rest .look)
      | some ⟨_,false⟩ => go (.closing false)
      | some ⟨other,true⟩ =>
        if other = o then go (.sweep (f :: rest) .compare) else go (.sweep rest .look)
    else go (.closing false)
  | .sweep (f :: rest) .compare =>
    if effect = .done ∧ w.files f = some ⟨o,true⟩ then go (.sweep (f :: rest) .unlink)
    else go (.closing false)
  | .sweep (f :: rest) .unlink =>
    match effect with
    | .done => { go (.sweep rest .look) with files := Function.update w.files f none }
    | .failed => go (.closing false)
    | .unsynced => { go (.closing false) with files := Function.update w.files f none }
  | .retire =>
    if w.owners (home o) = some o then
      match effect with
      | .done => { go (.closing true) with owners := Function.update w.owners (home o) none }
      | .failed => go (.closing false)
      | .unsynced => { go (.closing false) with owners := Function.update w.owners (home o) none }
    else go (.closing false)
  | .closing retired =>
    if effect ≠ .failed ∧ w.guards (home o) = some r then
      { go (.finished retired) with guards := Function.update w.guards (home o) none }
    else go (.finished retired)
  | .finished _ => w

/-- One step of one process; `none` where it cannot take that step. -/
def step : Event File Owner Ticket → Option (World File Owner Project Ticket)
  | .launch s =>
    if (w.sessions s).status = .fresh ∧ w.owners (home s) = none then
      some { w.become s ((w.view s).keep { (w.sessions s) with status := .live }) with
        owners := Function.update w.owners (home s) (some s) }
    else none
  | .attempt s files =>
    let session := w.sessions s
    if session.status = .live ∧ session.attempt = none then
      if ∃ f ∈ files, f ∈ session.locks then some w
      else some (w.become s ((w.view s).keep (session.going ⟨files,[],.register⟩)))
    else none
  | .advance s effect =>
    match (w.sessions s).status, (w.sessions s).attempt with
    | .live, some attempt =>
      some (w.become s ((w.view s).advance home w.owners s attempt effect))
    | _, _ => none
  | .release s i =>
    let session := w.sessions s
    match session.status, session.handles[i]? with
    | .live, some ⟨files,.held⟩ =>
      let handles := session.handles.set i ⟨files,.releasing ⟨files.reverse,.look⟩⟩
      some (w.become s ((w.view s).keep { session with handles := handles }))
    | _, _ => none
  | .remove s i effect =>
    match (w.sessions s).status, (w.sessions s).handles[i]? with
    | .live, some ⟨files,.releasing removal⟩ =>
      some (w.become s ((w.view s).remove s i files removal effect))
    | _, _ => none
  | .finish s effect =>
    let session := w.sessions s
    if session.status = .live ∧ session.attempt = none ∧ session.locks = [] ∧
        session.storageFailed = false ∧ w.owners (home s) = some s ∧ effect ≠ .failed then
      let status := if effect = .done then Status.dead else .live
      some { w.become s ((w.view s).keep { session with status := status }) with
        owners := Function.update w.owners (home s) none }
    else none
  | .crash s =>
    if (w.sessions s).status = .live then
      some (w.become s ((w.view s).keep { (w.sessions s) with status := .dead }))
    else none
  | .recover r o =>
    if w.recoveries r = none ∧ w.owners (home o) = some o then
      some (w.setRecovery r ⟨o,.guard⟩)
    else none
  | .pursue r effect => (w.recoveries r).map (fun recovery => w.pursue home r recovery effect)
  | .desert r =>
    (w.recoveries r).map (fun recovery => w.setRecovery r { recovery with pc := .finished false })

inductive Reachable : World File Owner Project Ticket → Prop
  | empty : Reachable empty
  | step {w w' : World File Owner Project Ticket} (event : Event File Owner Ticket)
      (before : Reachable w) (moved : step home w event = some w') : Reachable w'

def run (events : List (Event File Owner Ticket)) : Option (World File Owner Project Ticket) :=
  events.foldlM (step home) empty

theorem reachable_from {home : Owner → Project} {events : List (Event File Owner Ticket)}
    {w w' : World File Owner Project Ticket} (before : Reachable home w)
    (ran : events.foldlM (step home) w = some w') : Reachable home w' := by
  induction events generalizing w with
  | nil =>
    cases ran
    exact before
  | cons event rest ih =>
    rw [List.foldlM_cons] at ran
    cases moved : step home w event with
    | none =>
      rw [moved] at ran
      cases ran
    | some next =>
      rw [moved] at ran
      exact ih (.step event before moved) ran

theorem reachable_run {home : Owner → Project} {events : List (Event File Owner Ticket)}
    {w : World File Owner Project Ticket} (ran : run home events = some w) : Reachable home w :=
  reachable_from .empty ran

/-- The session holds the lock: a call has returned it and its release has not begun. -/
def Holds (s : Owner) (i : ℕ) (f : File) : Prop :=
  (w.sessions s).status = .live ∧ ∃ files, (w.sessions s).handles[i]? = some ⟨files,.held⟩ ∧ f ∈ files

end Steps

end LockFiles

end EvidenceV4
