import EvidenceV4.FilePublication
import EvidenceV4.HistoryInvariant
import EvidenceV4.TransitionRun

/-!
# Appending to the retained history

Appends run one at a time under the append lock. A session keeps the tail that
it read or wrote last and tests, before it uses it, that the directory still
ends there; otherwise it scans the directory again. Recovery preserves the
record of a dead owner, removes the staging name that one of its appends left
behind, and accounts for each of its pending results.
-/

set_option autoImplicit false

namespace EvidenceV4

structure AppendBase where
  head : Option HistoryRef
  events : List HistoryEvent
  deriving DecidableEq

/-- What a call works on: the files, and the tail that its session has cached. -/
structure Session where
  store : Store
  appendBase : Option AppendBase

/-- The store in which a file has lost its staging name. -/
def Store.retire (s : Store) (path : Path) : Store where
  files := s.files.map (fun f => if f.path = path then { f with links := 1 } else f)
  distinct := by
    rw [List.map_map]
    convert s.distinct using 1
    refine List.map_congr_left (fun f _ => ?_)
    simp only [Function.comp_apply]
    split <;> rfl

namespace HistoryAppend

open CheckedExcept StoreDocument RetainedFiles RetainedHistory Transaction

variable (D : Digests)

section Append

/-- The directory still ends with the cached tail. -/
def unchanged (s : Store) (base : AppendBase) : Except String Bool :=
  if (historyNames s).length = base.events.length then
    match base.head with
    | none => pure true
    | some head =>
      if head.sequence ∈ historyNames s then do
        let bytes ← readBytes s head.path
        pure (decide (D.bytes bytes = head.hash))
      else pure false
  else pure false

def rescan : Transaction Session AppendBase := do
  let snapshot ← reading (fun σ => loadHistory D σ.store none true)
  let base : AppendBase := ⟨snapshot.view.head,snapshot.events⟩
  modify (fun σ => { σ with appendBase := some base })
  pure base

def loadAppendBase : Transaction Session AppendBase := do
  match ← reading (fun σ => pure σ.appendBase) with
  | none => rescan D
  | some base =>
    if ← reading (fun σ => unchanged D σ.store base) then pure base
    else do
      modify (fun σ => { σ with appendBase := none })
      rescan D

/-- The event that follows the tail. -/
def nextEvent (base : AppendBase) (input : EventInput) : HistoryEvent :=
  let unsigned : UnsignedEvent :=
    { input with sequence := base.events.length+1, previous := base.head }
  { unsigned with eventId := D.historyEvent unsigned }

def onStore {α : Type} (x : Transaction Store α) : Transaction Session α :=
  within Session.store (fun σ s => { σ with store := s }) x

def publishEvent (outcome : WriteOutcome) (base : AppendBase) (event : HistoryEvent) :
    Transaction Session HistoryRef := do
  let reference ← onStore
    (writeImmutableJSON D outcome (.history event.sequence) (.event event))
  let head : HistoryRef := ⟨event.sequence,event.eventId,reference.path,reference.hash⟩
  modify (fun σ => { σ with appendBase := some ⟨some head,base.events ++ [event]⟩ })
  pure head

def dropBase (σ : Session) : Session := { σ with appendBase := none }

def appendUnlocked (outcome : WriteOutcome) (input : EventInput) :
    Transaction Session HistoryRef :=
  onFailure (do
    let base ← loadAppendBase D
    let event := nextEvent D base input
    reading (fun _ => validateHistoryEvent D event)
    reading (fun σ => validateEventBindings D σ.store event base.events)
    publishEvent D outcome base event) dropBase

end Append

section Recovery

/-- How far each write of one recovery gets. -/
structure Faults where
  preserve : WriteOutcome
  retire : WriteOutcome
  pending : PendingResult → WriteOutcome

def synced {σ α : Type} (outcome : WriteOutcome) (result : α) : Transaction σ α :=
  if outcome = .durable then pure result else fail "fsync failed"

def preserveRecoveredOwner (outcome : WriteOutcome) (owner : OwnerRecord) :
    Transaction Store FileRef := do
  reading (fun _ => validateOwnerRecord owner)
  let path := Path.recoveredOwner owner.ownerId
  if ← reading (fun s => pure (lookup s path).isSome) then do
    let existing ← reading (fun s => readBytes s path)
    if existing = canonical (.owner owner) then
      synced outcome (canonicalRef D path (.owner owner))
    else fail "v4 store: recovered owner immutable snapshot differs"
  else immutableFile D outcome path (canonical (.owner owner))

def PendingKind.event : PendingKind → EventKind
  | .execution => .execution
  | .observation => .observation

def OwnsAlias (owner : OwnerRecord) (event : HistoryEvent) : Prop :=
  ∃ pending ∈ owner.pendingResults,
    PendingKind.event pending.kind = event.kind ∧ Covers event.toEventInput pending

instance (owner : OwnerRecord) (event : HistoryEvent) : Decidable (OwnsAlias owner event) :=
  inferInstanceAs (Decidable (∃ pending ∈ owner.pendingResults, _))

/-- A history file that still has its staging name. -/
def isAlias (f : File) : Bool :=
  match f.path with
  | .history _ => decide (f.links ≠ 1)
  | _ => false

def provenAlias (owner : OwnerRecord) (f : File) : Except String Unit := do
  require (f.links = 2) "unprovable abandoned history aliases"
  let event ← asEvent f.content
  validateHistoryEvent D event
  require (event.eventId = D.historyEvent event.toUnsignedEvent ∧ OwnsAlias owner event)
    "abandoned history alias is not owned by recovered pending result"
  require (f.path = .history event.sequence) "abandoned history alias target mismatch"

def retireAlias (outcome : WriteOutcome) (owner : OwnerRecord) (f : File) :
    Transaction Store Unit := do
  reading (fun _ => provenAlias D owner f)
  if outcome = .failed then fail ("unlink failed: " ++ pathText f.path)
  else do
    modify (fun s => s.retire f.path)
    synced outcome ()

def retireRecoveredHistoryAliases (outcome : WriteOutcome) (owner : OwnerRecord) :
    Transaction Store Unit := do
  let aliases ← reading (fun s => pure (s.files.filter isAlias))
  let _ ← aliases.mapM (retireAlias D outcome owner)
  pure ()

/-- A spawn window of the attempt is not closed. -/
def UnresolvedOwnership (owner : OwnerRecord) (pending : PendingResult) : Prop :=
  ∃ w ∈ owner.spawnWindows, w.executionKey = some pending.executionKey ∧
    w.attemptId = some pending.attemptId ∧ w.state ≠ .closed

instance (owner : OwnerRecord) (pending : PendingResult) :
    Decidable (UnresolvedOwnership owner pending) :=
  inferInstanceAs (Decidable (∃ w ∈ owner.spawnWindows, _))

def ObservedBy (run : UUID) (event : HistoryEvent) : Prop :=
  ∃ reference ∈ event.observation, underRun run reference.path = true

instance (run : UUID) (event : HistoryEvent) : Decidable (ObservedBy run event) :=
  inferInstanceAs (Decidable (∃ reference ∈ event.observation, _))

/-- The event already accounts for the pending result of the owner. -/
def Accounts (owner : OwnerRecord) (preserved : FileRef) (pending : PendingResult)
    (event : HistoryEvent) : Prop :=
  event.executionKey = pending.executionKey ∧ event.attemptId = pending.attemptId ∧
    event.claimId = pending.claimId ∧ event.slotId = pending.slotId ∧
    ((¬ UnresolvedOwnership owner pending ∧ event.kind = PendingKind.event pending.kind ∧
        (pending.kind = .execution ∨ ObservedBy owner.runId event)) ∨
      (event.kind = .indeterminate ∧ event.indeterminateOwner = some preserved))

instance (owner : OwnerRecord) (preserved : FileRef) (pending : PendingResult)
    (event : HistoryEvent) : Decidable (Accounts owner preserved pending event) :=
  inferInstanceAs (Decidable (_ ∧ _))

def indeterminateInput (preserved : FileRef) (pending : PendingResult) : EventInput where
  kind := .indeterminate
  executionKey := pending.executionKey
  attemptId := pending.attemptId
  members := pending.members
  execution := none
  claimId := pending.claimId
  slotId := pending.slotId
  observation := none
  indeterminateOwner := some preserved
  result := .error

def accountResult (outcome : WriteOutcome) (owner : OwnerRecord) (preserved : FileRef)
    (pending : PendingResult) : Transaction Session HistoryRef := do
  let snapshot ← reading (fun σ => loadHistory D σ.store none true)
  match snapshot.events.find? (fun event => Accounts owner preserved pending event) with
  | some existing =>
    match snapshot.view.events[existing.sequence-1]? with
    | some reference => synced outcome reference
    | none => fail "Cannot read properties of undefined (reading 'path')"
  | none => appendUnlocked D outcome (indeterminateInput preserved pending)

def accountPending (faults : Faults) (owner : OwnerRecord) :
    Transaction Session (List HistoryRef) := do
  let preserved ← onStore (preserveRecoveredOwner D faults.preserve owner)
  onStore (retireRecoveredHistoryAliases D faults.retire owner)
  let result ← owner.pendingResults.mapM (fun pending =>
    accountResult D (faults.pending pending) owner preserved pending)
  let _ ← onFailure (reading (fun σ => readHistory D σ.store none)) dropBase
  pure result

end Recovery

/-- The files, and the tail that each session has cached. -/
structure State where
  store : Store
  bases : ℕ → Option AppendBase

def initial : State := ⟨⟨[],List.nodup_nil⟩,fun _ => none⟩

inductive Label where
  | appendHistory (session : ℕ) (outcome : WriteOutcome) (input : EventInput)
  | accountPending (session : ℕ) (faults : Faults) (owner : OwnerRecord)
  | publish (store : Store)

/-- One call of a session, from the files and its own cached tail. -/
def call {α : Type} (σ : State) (session : ℕ) (x : Transaction Session α) : State :=
  let after := (x ⟨σ.store,σ.bases session⟩).2
  ⟨after.store,Function.update σ.bases session after.appendBase⟩

def step (σ : State) : Label → Option State
  | .appendHistory session outcome input => some (call σ session (appendUnlocked D outcome input))
  | .accountPending session faults owner => some (call σ session (accountPending D faults owner))
  | .publish store => some { σ with store := store }

/-- What the other writers of the store do: files that are there are not changed, and no history
file is written. -/
def Immutable (σ : State) : Label → Prop
  | .publish store =>
    Extends σ.store store ∧ ∀ n, lookup store (.history n) = lookup σ.store (.history n)
  | _ => True

end HistoryAppend

end EvidenceV4
