import EvidenceV4.CanonicalRoundTrip
import EvidenceV4.Generation
import Mathlib.Algebra.GroupWithZero.Nat

/-!
# Replacement of the current pointer

The store validates a retained run, writes the pointer to it under a name of its
own, and renames that file to the place of the current pointer. Every call may
fail, and one handler reports how far the replacement got.
-/

set_option autoImplicit false

namespace EvidenceV4

namespace PointerReplacement

open CandidateSelection (sampleDigests)
open CanonicalJson (C)
open CheckedExcept
open Generation (underRun validateGeneration)
open JsonText (Json)
open RetainedFiles
open StoreDocument

section Steps

/-- The parts of a path below the root of the project. -/
abbrev Place := List String

inductive Call where
  | lstat | mkdir | openFile | create | write | fsync | close | rename
  deriving DecidableEq

inductive Operation where
  | write | fsync | rename
  deriving DecidableEq

inductive Side where
  | before | after
  deriving DecidableEq

inductive Step where
  | read (place : Path)
  | validate
  | call (c : Call) (place : Place)
  | barrier (operation : Operation) (place : Place) (side : Side)
  deriving DecidableEq

inductive Kind where
  | file | directory | symlink
  deriving DecidableEq

structure Entry where
  kind : Kind
  bytes : List UInt8
  links : ℕ
  owned : Bool
  deriving DecidableEq

/-- The retained files, the pointer, and the files under names made up for a replacement. -/
structure World where
  store : Store
  current : Option Entry
  staged : UUID → Option Entry

/-- A replacement in progress: the two flags of the handler, how many steps were tried and which
succeeded. -/
structure Attempt where
  world : World
  replaced : Bool
  validated : Option FileRef
  clock : ℕ
  done : List Step

/-- Which steps fail, and how much of a file a failing write leaves. -/
structure Faults where
  strikes : ℕ → Bool
  torn : ℕ → ℕ

variable (faults : Faults)

def perform (step : Step) : Transaction Attempt Unit := fun a =>
  if faults.strikes a.clock then (.error "fault",{ a with clock := a.clock+1 })
  else (.ok (),{ a with clock := a.clock+1, done := a.done ++ [step] })

def call (c : Call) (place : Place) : Transaction Attempt Unit := perform faults (.call c place)

/-- The second computation runs whether or not the first fails. -/
def ensuring (x y : Transaction Attempt Unit) : Transaction Attempt Unit := fun a =>
  match x a with
  | (r,b) =>
    match y b with
    | (.ok _,c) => (r,c)
    | (.error message,c) => (.error message,c)

def barrier (operation : Operation) (place : Place) (side : Side) : Transaction Attempt Unit :=
  perform faults (.barrier operation place side)

def seam (operation : Operation) (place : Place) (action : Transaction Attempt Unit) :
    Transaction Attempt Unit := do
  barrier faults operation place .before
  action
  barrier faults operation place .after

def base : Place := [".fv","evidence","v4"]

def temporary (fresh : UUID) : Place := base ++ [".current-" ++ fresh ++ ".json"]

def target : Place := base ++ ["current.json"]

/-- A place and the places above it, up to the root. -/
def ancestors (place : Place) : List Place := place.inits.reverse

def syncOpened (place : Place) : Transaction Attempt Unit := do
  call faults .openFile place
  ensuring (seam faults .fsync place (call faults .fsync place)) (call faults .close place)

def syncAncestors (place : Place) : Transaction Attempt Unit :=
  forM (ancestors place) (syncOpened faults)

/-- The places of a tree of files, each directory behind its entries. -/
def treePlaces : ℕ → Place → List Place → List Place
  | 0, _, _ => []
  | n+1, place, below =>
    (below.filterMap List.head?).dedup.flatMap (fun name =>
      let inner := (below.filter (fun parts => parts.head? = some name)).map List.tail
      if [] ∈ inner then [place ++ [name]] else treePlaces n (place ++ [name]) inner) ++ [place]

def treeSync (run : UUID) : Transaction Attempt Unit := do
  call faults .lstat (base ++ ["runs",run])
  let files ← Transaction.reading (fun a => walk a.world.store (underRun run))
  let parts := files.map (fun p =>
    (((pathText p).toList.splitOn '/').drop (base.length + 2)).map String.ofList)
  forM (treePlaces ((parts.map List.length).sum + 1) (base ++ ["runs",run]) parts)
    (syncOpened faults)

def fsyncTree (run : UUID) : Transaction Attempt Unit := do
  treeSync faults run
  syncAncestors faults (base ++ ["runs"])

/-- The base exists, since the candidate was read below it: creating it again is refused. -/
def mkdirDurable : Transaction Attempt Unit :=
  forM base.inits.tail (fun place => do
    call faults .mkdir place
    call faults .lstat place)

/-- A path is checked part by part; the directories above the leaf are in order. -/
def checkedPath (leaf : Place) : Transaction Attempt Unit := do
  forM base.inits.tail (call faults .lstat)
  call faults .lstat leaf

def setStaged (fresh : UUID) (entry : Option Entry) (a : Attempt) : Attempt :=
  { a with world := { a.world with staged := Function.update a.world.staged fresh entry } }

/-- A write that fails leaves a part of the bytes. -/
def writeFile (fresh : UUID) (bytes : List UInt8) : Transaction Attempt Unit := fun a =>
  match call faults .write (temporary fresh) a with
  | (.ok u,b) => (.ok u,setStaged fresh (some ⟨.file,bytes,1,true⟩) b)
  | (.error message,b) =>
    (.error message,setStaged fresh (some ⟨.file,bytes.take (faults.torn a.clock),1,true⟩) b)

def create (fresh : UUID) : Transaction Attempt Unit := do
  call faults .create (temporary fresh)
  Transaction.reading (fun a => check (a.world.staged fresh = none) "EEXIST: file already exists")
  Transaction.modify (setStaged fresh (some ⟨.file,[],1,true⟩))

def writeNew (fresh : UUID) (bytes : List UInt8) : Transaction Attempt Unit := do
  mkdirDurable faults
  checkedPath faults (temporary fresh)
  create faults fresh
  ensuring
    (do
      seam faults .write (temporary fresh) (writeFile faults fresh bytes)
      seam faults .fsync (temporary fresh) (call faults .fsync (temporary fresh)))
    (call faults .close (temporary fresh))
  syncAncestors faults base

end Steps

section Publication

inductive PublicationState where
  | durable | preReplaceError | postReplaceError
  deriving DecidableEq

structure Publication where
  state : PublicationState
  candidate : Option FileRef
  deriving DecidableEq

structure CurrentPointer where
  runId : UUID
  run : FileRef
  deriving DecidableEq

def pointerValue (p : CurrentPointer) : CanonicalJson.Value :=
  .object [("schema_version",.string "fv-evidence-current/v1"),("run_id",.string p.runId),
    ("run",.object [("path",.string (pathText p.run.path)),("hash",.string p.run.hash),
      ("size",.number p.run.size)])]

def asRun : Bytes → Except String RunManifest :=
  decoded "RunManifest" (fun | .run r => some r | _ => none)

variable (D : Digests) (faults : Faults)

/-- The manifest that the candidate names, validated. -/
def readCandidate (candidate : FileRef) (s : Store) : Except String RunManifest := do
  let bytes ← readFileRef D s candidate
  let manifest ← asRun bytes
  validateRunManifest D manifest
  require (candidate.path = .run manifest.runId) "pointer candidate is not immutable run"
  pure manifest

def checkTarget : Transaction Attempt Unit := do
  checkedPath faults target
  Transaction.reading (fun a => forM a.world.current.toList (fun entry => do
    require (entry.kind ≠ .symlink) ("symlink in output path: " ++ "/".intercalate target)
    require (entry.owned = true) ("file is not producer-owned: " ++ "/".intercalate target)))
  call faults .lstat target
  Transaction.reading (fun a => forM a.world.current.toList (fun entry => do
    require (entry.kind = .file ∧ entry.links = 1) "unsafe current pointer"
    require (entry.owned = true) ("file is not producer-owned: " ++ "/".intercalate target)))

/-- The renaming is atomic: it fails without an effect or has its whole effect. -/
def rename (fresh : UUID) : Transaction Attempt Unit := do
  checkedPath faults (temporary fresh)
  Transaction.reading (fun a =>
    check ((a.world.staged fresh).isSome = true) "ENOENT: no such file or directory")
  call faults .rename target
  Transaction.modify (fun a => { a with
    world := { a.world with
      current := a.world.staged fresh
      staged := Function.update a.world.staged fresh none } })

def publishing (candidate : FileRef) (fresh : UUID) : Transaction Attempt Publication := do
  perform faults (.read candidate.path)
  let manifest ← Transaction.reading (fun a => readCandidate D candidate a.world.store)
  Transaction.modify (fun a => { a with validated := some candidate })
  perform faults .validate
  Transaction.reading (fun a => validateGeneration D a.world.store manifest)
  fsyncTree faults manifest.runId
  perform faults .validate
  let bytes ← Transaction.reading (fun _ => C (pointerValue ⟨manifest.runId,candidate⟩))
  writeNew faults fresh bytes
  checkTarget faults
  barrier faults .rename target .before
  rename faults fresh
  Transaction.modify (fun a => { a with replaced := true })
  barrier faults .rename target .after
  syncAncestors faults base
  pure ⟨.durable,some candidate⟩

def begin (w : World) : Attempt := ⟨w,false,none,0,[]⟩

/-- What the store reports, and where it ends. -/
def publishCurrent (candidate : FileRef) (fresh : UUID) (w : World) : Publication × Attempt :=
  match publishing D faults candidate fresh (begin w) with
  | (.ok publication,a) => (publication,a)
  | (.error _,a) =>
    (⟨if a.replaced then .postReplaceError else .preReplaceError,a.validated⟩,a)

end Publication

section Quiet

variable {faults : Faults} {α β : Type} {x y : Transaction Attempt Unit}

/-- What a step without an effect leaves as it was. -/
structure Frame (a b : Attempt) : Prop where
  world : b.world = a.world
  replaced : b.replaced = a.replaced
  validated : b.validated = a.validated

theorem Frame.refl (a : Attempt) : Frame a a := ⟨rfl,rfl,rfl⟩

theorem Frame.trans {a b c : Attempt} (first : Frame a b) (second : Frame b c) : Frame a c :=
  ⟨second.world.trans first.world,second.replaced.trans first.replaced,
    second.validated.trans first.validated⟩

def Quiet (x : Transaction Attempt α) : Prop := ∀ a, Frame a (x a).2

theorem quiet_perform (step : Step) : Quiet (perform faults step) := by
  intro a
  unfold perform
  split_ifs
  · exact ⟨rfl,rfl,rfl⟩
  · exact ⟨rfl,rfl,rfl⟩

theorem quiet_pure (r : α) : Quiet (pure r : Transaction Attempt α) := Frame.refl

theorem quiet_reading (read : Attempt → Except String α) : Quiet (Transaction.reading read) :=
  Frame.refl

theorem quiet_bind {x : Transaction Attempt α} {next : α → Transaction Attempt β} (first : Quiet x)
    (second : ∀ r, Quiet (next r)) : Quiet (x >>= next) := by
  intro a
  rcases run : x a with ⟨message | r,b⟩
  · rw [Transaction.bind_of_error run]
    have step := first a
    rwa [run] at step
  · rw [Transaction.bind_of_ok run]
    have step := first a
    rw [run] at step
    exact step.trans (second r b)

theorem quiet_forM {ι : Type} {xs : List ι} {f : ι → Transaction Attempt Unit}
    (each : ∀ i, Quiet (f i)) : Quiet (forM xs f) := by
  induction xs with
  | nil => exact quiet_pure ()
  | cons i xs ih =>
    rw [List.forM_cons]
    exact quiet_bind (each i) (fun _ => ih)

theorem ensuring_snd (a : Attempt) : (ensuring x y a).2 = (y (x a).2).2 := by
  unfold ensuring
  dsimp only
  split
  · next same => rw [same]
  · next same => rw [same]

theorem quiet_ensuring (first : Quiet x) (second : Quiet y) : Quiet (ensuring x y) := by
  intro a
  rw [ensuring_snd]
  exact (first a).trans (second _)

theorem quiet_seam {operation : Operation} {place : Place} (quiet : Quiet x) :
    Quiet (seam faults operation place x) :=
  quiet_bind (quiet_perform _) (fun _ => quiet_bind quiet (fun _ => quiet_perform _))

theorem quiet_syncOpened (place : Place) : Quiet (syncOpened faults place) :=
  quiet_bind (quiet_perform _) (fun _ =>
    quiet_ensuring (quiet_seam (quiet_perform _)) (quiet_perform _))

theorem quiet_syncAncestors (place : Place) : Quiet (syncAncestors faults place) :=
  quiet_forM quiet_syncOpened

theorem quiet_fsyncTree (run : UUID) : Quiet (fsyncTree faults run) := by
  apply quiet_bind
  · exact quiet_bind (quiet_perform _) (fun _ =>
      quiet_bind (quiet_reading _) (fun _ => quiet_forM quiet_syncOpened))
  · exact fun _ => quiet_syncAncestors _

theorem quiet_checkedPath (leaf : Place) : Quiet (checkedPath faults leaf) :=
  quiet_bind (quiet_forM (fun _ => quiet_perform _)) (fun _ => quiet_perform _)

theorem quiet_mkdirDurable : Quiet (mkdirDurable faults) :=
  quiet_forM (fun _ => quiet_bind (quiet_perform _) (fun _ => quiet_perform _))

theorem quiet_checkTarget : Quiet (checkTarget faults) :=
  quiet_bind (quiet_checkedPath _) (fun _ => quiet_bind (quiet_reading _) (fun _ =>
    quiet_bind (quiet_perform _) (fun _ => quiet_reading _)))

end Quiet

section Contracts

open Transaction (Contract contract_bind contract_pure contract_reading contract_weaken)

variable {faults : Faults} {α β : Type} {P abort : Attempt → Prop}

def Framed (P : Attempt → Prop) : Prop := ∀ a b, Frame a b → P a → P b

/-- Nothing but the files under made up names may differ. -/
structure Staging (a b : Attempt) : Prop where
  store : b.world.store = a.world.store
  current : b.world.current = a.world.current
  replaced : b.replaced = a.replaced
  validated : b.validated = a.validated

def Unstaged (P : Attempt → Prop) : Prop := ∀ a b, Staging a b → P a → P b

theorem Unstaged.framed (unstaged : Unstaged P) : Framed P := fun a b frame =>
  unstaged a b ⟨by rw [frame.world],by rw [frame.world],frame.replaced,frame.validated⟩

theorem quiet_contract {x : Transaction Attempt α} (quiet : Quiet x) (framed : Framed P) :
    Contract P x (fun _ => P) P :=
  fun a holds => ⟨fun _ _ => framed a _ (quiet a) holds,fun _ _ => framed a _ (quiet a) holds⟩

/-- A quiet step in front of a computation. -/
theorem quiet_then {x : Transaction Attempt α} {next : α → Transaction Attempt β}
    {post : β → Attempt → Prop} (quiet : Quiet x) (framed : Framed P)
    (fails : ∀ a, P a → abort a) (rest : ∀ r, Contract P (next r) post abort) :
    Contract P (x >>= next) post abort :=
  contract_bind (contract_weaken (quiet_contract quiet framed) (fun _ h => h) (fun _ _ h => h) fails)
    rest

theorem contract_ensuring {x y : Transaction Attempt Unit} {Q : Attempt → Prop}
    (first : Contract P x (fun _ => Q) abort) (quiet : Quiet y) (framed : Framed Q)
    (framed' : Framed abort) (fails : ∀ a, Q a → abort a) :
    Contract P (ensuring x y) (fun _ => Q) abort := by
  intro a holds
  obtain ⟨done,failed⟩ := first a holds
  rw [ensuring_snd]
  cases result : (x a).1 with
  | ok u =>
    have reached := framed _ _ (quiet (x a).2) (done u result)
    exact ⟨fun _ _ => reached,fun _ _ => fails _ reached⟩
  | error message =>
    have left := framed' _ _ (quiet (x a).2) (failed message result)
    refine ⟨fun u accepted => ?_,fun _ _ => left⟩
    unfold ensuring at accepted
    dsimp only at accepted
    rw [result] at accepted
    split at accepted
    · cases accepted
    · cases accepted

/-- The file under the made up name is complete. -/
def Written (fresh : UUID) (bytes : List UInt8) (a : Attempt) : Prop :=
  a.world.staged fresh = some ⟨.file,bytes,1,true⟩

theorem staging_setStaged (fresh : UUID) (entry : Option Entry) (a : Attempt) :
    Staging a (setStaged fresh entry a) := ⟨rfl,rfl,rfl,rfl⟩

theorem written_framed (unstaged : Unstaged P) (fresh : UUID) (bytes : List UInt8) :
    Framed (fun a => P a ∧ Written fresh bytes a) := by
  intro a b frame holds
  refine ⟨unstaged.framed a b frame holds.1,?_⟩
  unfold Written
  rw [frame.world]
  exact holds.2

theorem writeFile_contract (unstaged : Unstaged P) (fresh : UUID) (bytes : List UInt8) :
    Contract P (writeFile faults fresh bytes) (fun _ a => P a ∧ Written fresh bytes a) P := by
  intro a holds
  have quiet : Frame a (perform faults (.call .write (temporary fresh)) a).2 := quiet_perform _ a
  unfold writeFile call
  rcases run : perform faults (.call .write (temporary fresh)) a with ⟨message | u,b⟩
  · rw [run] at quiet
    have kept := unstaged.framed a b quiet holds
    exact ⟨nofun,fun _ _ => unstaged _ _ (staging_setStaged _ _ _) kept⟩
  · rw [run] at quiet
    have kept := unstaged.framed a b quiet holds
    refine ⟨fun _ _ => ⟨unstaged _ _ (staging_setStaged _ _ _) kept,?_⟩,nofun⟩
    exact Function.update_self fresh _ _

theorem create_contract (unstaged : Unstaged P) (fresh : UUID) :
    Contract P (create faults fresh) (fun _ => P) P :=
  quiet_then (quiet_perform _) unstaged.framed (fun _ h => h) (fun _ =>
    quiet_then (quiet_reading _) unstaged.framed (fun _ h => h) (fun _ =>
      fun _ holds => ⟨fun _ _ => unstaged _ _ (staging_setStaged _ _ _) holds,nofun⟩))

/-- Writing a new file changes nothing else, and writes it whole when it succeeds. -/
theorem writeNew_contract (unstaged : Unstaged P) (fresh : UUID) (bytes : List UInt8) :
    Contract P (writeNew faults fresh bytes) (fun _ a => P a ∧ Written fresh bytes a) P := by
  have framed := unstaged.framed
  have written := written_framed unstaged fresh bytes
  have left : ∀ a, P a ∧ Written fresh bytes a → P a := fun _ h => h.1
  have streams : Contract P (do
      seam faults .write (temporary fresh) (writeFile faults fresh bytes)
      seam faults .fsync (temporary fresh) (call faults .fsync (temporary fresh)))
      (fun _ a => P a ∧ Written fresh bytes a) P := by
    apply contract_bind
    · apply quiet_then (quiet_perform _) framed (fun _ h => h)
      intro _
      apply contract_bind (writeFile_contract unstaged fresh bytes)
      intro _
      exact contract_weaken (quiet_contract (quiet_perform _) written) (fun _ h => h)
        (fun _ _ h => h) left
    · intro _
      exact contract_weaken (quiet_contract (quiet_seam (quiet_perform _)) written) (fun _ h => h)
        (fun _ _ h => h) left
  apply quiet_then quiet_mkdirDurable framed (fun _ h => h)
  intro _
  apply quiet_then (quiet_checkedPath _) framed (fun _ h => h)
  intro _
  apply contract_bind (create_contract unstaged fresh)
  intro _
  apply contract_bind (contract_ensuring streams (quiet_perform _) written framed left)
  intro _
  exact contract_weaken (quiet_contract (quiet_syncAncestors _) written) (fun _ h => h)
    (fun _ _ h => h) left

end Contracts

section Trace

variable {faults : Faults} {x y : Transaction Attempt Unit}

/-- The steps that a computation makes when it succeeds. -/
def Logs (x : Transaction Attempt Unit) (steps : List Step) : Prop :=
  ∀ a u, (x a).1 = .ok u → (x a).2.done = a.done ++ steps

theorem logs_perform (step : Step) : Logs (perform faults step) [step] := by
  intro a u accepted
  unfold perform at accepted ⊢
  split_ifs with strikes
  · rw [if_pos strikes] at accepted
    cases accepted
  · rfl

theorem logs_bind {first second : List Step} (logs : Logs x first) (logs' : Logs y second) :
    Logs (x >>= fun _ => y) (first ++ second) := by
  intro a u accepted
  rcases run : x a with ⟨message | r,b⟩
  · rw [Transaction.bind_of_error run] at accepted
    cases accepted
  · rw [Transaction.bind_of_ok run] at accepted ⊢
    have step := logs a r (by rw [run])
    rw [run] at step
    rw [logs' b u accepted, step, List.append_assoc]

theorem logs_forM {ι : Type} {xs : List ι} {f : ι → Transaction Attempt Unit}
    {steps : ι → List Step} (each : ∀ i, Logs (f i) (steps i)) : Logs (forM xs f) (xs.flatMap steps) := by
  induction xs with
  | nil =>
    intro a u _
    exact (List.append_nil _).symm
  | cons i xs ih =>
    rw [List.forM_cons, List.flatMap_cons]
    exact logs_bind (each i) ih

theorem logs_ensuring {first second : List Step} (logs : Logs x first) (logs' : Logs y second) :
    Logs (ensuring x y) (first ++ second) := by
  intro a u accepted
  rw [ensuring_snd]
  unfold ensuring at accepted
  dsimp only at accepted
  split at accepted
  · next r b same =>
    have closed := logs' (x a).2 r (by rw [same])
    rw [closed, logs a u accepted, List.append_assoc]
  · cases accepted

def syncSteps (place : Place) : List Step :=
  [.call .openFile place,.barrier .fsync place .before,.call .fsync place,
    .barrier .fsync place .after,.call .close place]

theorem logs_syncOpened (place : Place) : Logs (syncOpened faults place) (syncSteps place) :=
  logs_bind (logs_perform _) (logs_ensuring
    (logs_bind (logs_perform _) (logs_bind (logs_perform _) (logs_perform _))) (logs_perform _))

/-- The steps behind a renaming that make it durable. -/
def settling : List Step :=
  .barrier .rename target .after :: (ancestors base).flatMap syncSteps

theorem logs_settling : Logs (do
    barrier faults .rename target .after
    syncAncestors faults base) settling :=
  logs_bind (logs_perform _) (logs_forM logs_syncOpened)

end Trace

section Report

open Transaction (Contract contract_bind contract_pure contract_reading contract_weaken)

variable {D : Digests} {faults : Faults} {candidate : FileRef} {fresh : UUID} {w : World}
  {manifest : RunManifest} {bytes : List UInt8}

/-- Nothing was replaced yet. -/
structure Before (w : World) (validated : Option FileRef) (a : Attempt) : Prop where
  store : a.world.store = w.store
  current : a.world.current = w.current
  replaced : a.replaced = false
  validated : a.validated = validated

theorem before_unstaged (validated : Option FileRef) : Unstaged (Before w validated) :=
  fun _ _ frame before => ⟨frame.store.trans before.store,frame.current.trans before.current,
    frame.replaced.trans before.replaced,frame.validated.trans before.validated⟩

/-- The new pointer is in its place. -/
structure After (candidate : FileRef) (bytes : List UInt8) (a : Attempt) : Prop where
  current : a.world.current = some ⟨.file,bytes,1,true⟩
  replaced : a.replaced = true
  validated : a.validated = some candidate

theorem after_framed : Framed (After candidate bytes) := fun _ _ frame after =>
  ⟨by rw [frame.world]; exact after.current,frame.replaced.trans after.replaced,
    frame.validated.trans after.validated⟩

/-- The renaming is the last step that was made. -/
def Renamed (a : Attempt) : Prop := ∃ front, a.done = front ++ [.call .rename target]

theorem rename_contract : Contract
    (fun a => Before w (some candidate) a ∧ Written fresh bytes a) (rename faults fresh)
    (fun _ a => After candidate bytes { a with replaced := true } ∧ Renamed a)
    (Before w (some candidate)) := by
  have unstaged := before_unstaged (w := w) (some candidate)
  have framed := written_framed unstaged fresh bytes
  have left : ∀ a, Before w (some candidate) a ∧ Written fresh bytes a →
      Before w (some candidate) a := fun _ h => h.1
  apply quiet_then (quiet_checkedPath _) framed left
  intro _
  apply quiet_then (quiet_reading _) framed left
  intro _
  apply contract_bind
    (m := fun _ a => (Before w (some candidate) a ∧ Written fresh bytes a) ∧ Renamed a)
  · intro a holds
    have kept := framed _ (perform faults (.call .rename target) a).2 (quiet_perform _ a) holds
    exact ⟨fun u accepted => ⟨kept,_,logs_perform _ a u accepted⟩,fun _ _ => left _ kept⟩
  · intro _ a holds
    exact ⟨fun _ _ => ⟨⟨holds.1.2,rfl,holds.1.1.validated⟩,holds.2⟩,nofun⟩

theorem settling_contract : Contract (fun a => After candidate bytes a ∧ Renamed a) (do
      barrier faults .rename target .after
      syncAncestors faults base
      pure (⟨.durable,some candidate⟩ : Publication))
    (fun p a => p = ⟨.durable,some candidate⟩ ∧ After candidate bytes a ∧
      ∃ front, a.done = front ++ .call .rename target :: settling)
    (After candidate bytes) := by
  have quiet : Quiet (do
      barrier faults .rename target .after
      syncAncestors faults base) :=
    quiet_bind (quiet_perform _) (fun _ => quiet_syncAncestors _)
  have settled : Contract (fun a => After candidate bytes a ∧ Renamed a) (do
      barrier faults .rename target .after
      syncAncestors faults base)
      (fun _ a => After candidate bytes a ∧ ∃ front, a.done = front ++ .call .rename target :: settling)
      (After candidate bytes) := by
    intro a holds
    have kept := after_framed _ _ (quiet a) holds.1
    obtain ⟨front,last⟩ := holds.2
    refine ⟨fun u accepted => ⟨kept,front,?_⟩,fun _ _ => kept⟩
    rw [logs_settling a u accepted, last, List.append_assoc]
    rfl
  have shape : (do
      barrier faults .rename target .after
      syncAncestors faults base
      pure (⟨.durable,some candidate⟩ : Publication)) = (do
        barrier faults .rename target .after
        syncAncestors faults base) >>= fun _ => pure ⟨.durable,some candidate⟩ := by
    simp only [bind_assoc]
  rw [shape]
  exact contract_bind settled (fun _ => contract_pure _ (fun _ holds => ⟨rfl,holds⟩))

/-- Where a failed replacement may stop. -/
def Stopped (D : Digests) (candidate : FileRef) (w : World) (a : Attempt) : Prop :=
  Before w none a ∨ ∃ manifest, readCandidate D candidate w.store = .ok manifest ∧
    (Before w (some candidate) a ∨ ∃ bytes,
      C (pointerValue ⟨manifest.runId,candidate⟩) = .ok bytes ∧ After candidate bytes a)

theorem publishing_contract : Contract (Before w none) (publishing D faults candidate fresh)
    (fun p a => p = ⟨.durable,some candidate⟩ ∧ ∃ manifest bytes,
      readCandidate D candidate w.store = .ok manifest ∧
      C (pointerValue ⟨manifest.runId,candidate⟩) = .ok bytes ∧ After candidate bytes a ∧
      ∃ front, a.done = front ++ .call .rename target :: settling)
    (Stopped D candidate w) := by
  apply quiet_then (quiet_perform _) (before_unstaged none).framed (fun _ h => .inl h)
  intro _
  apply contract_bind (m := fun manifest a =>
    Before w none a ∧ readCandidate D candidate w.store = .ok manifest)
  · apply contract_reading
    · intro a manifest before read
      exact ⟨before,before.store ▸ read⟩
    · exact fun _ before => .inl before
  intro manifest
  apply contract_bind (m := fun _ a =>
    Before w (some candidate) a ∧ readCandidate D candidate w.store = .ok manifest)
  · intro a holds
    exact ⟨fun _ _ => ⟨⟨holds.1.store,holds.1.current,holds.1.replaced,rfl⟩,holds.2⟩,nofun⟩
  intro _
  by_cases read : readCandidate D candidate w.store = .ok manifest
  · have unstaged := before_unstaged (w := w) (some candidate)
    have framed := unstaged.framed
    have stops : ∀ a, Before w (some candidate) a → Stopped D candidate w a :=
      fun _ before => .inr ⟨manifest,read,.inl before⟩
    refine contract_weaken ?_ (fun _ holds => holds.1) (fun _ _ h => h) (fun _ h => h)
    apply quiet_then (quiet_perform _) framed stops
    intro _
    apply quiet_then (quiet_reading _) framed stops
    intro _
    apply quiet_then (quiet_fsyncTree _) framed stops
    intro _
    apply quiet_then (quiet_perform _) framed stops
    intro _
    apply contract_bind (m := fun bytes a => Before w (some candidate) a ∧
      C (pointerValue ⟨manifest.runId,candidate⟩) = .ok bytes)
    · exact contract_reading (fun _ _ before encoded => ⟨before,encoded⟩) stops
    intro bytes
    by_cases encoded : C (pointerValue ⟨manifest.runId,candidate⟩) = .ok bytes
    · refine contract_weaken ?_ (fun _ holds => holds.1) (fun _ _ h => h) (fun _ h => h)
      have written := written_framed unstaged fresh bytes
      have stops' : ∀ a, Before w (some candidate) a ∧ Written fresh bytes a →
        Stopped D candidate w a := fun a holds => stops a holds.1
      apply contract_bind
        (contract_weaken (writeNew_contract unstaged fresh bytes) (fun _ h => h) (fun _ _ h => h) stops)
      intro _
      apply quiet_then quiet_checkTarget written stops'
      intro _
      apply quiet_then (quiet_perform _) written stops'
      intro _
      apply contract_bind
        (contract_weaken rename_contract (fun _ h => h) (fun _ _ h => h) stops)
      intro _
      apply contract_bind (m := fun _ a => After candidate bytes a ∧ Renamed a)
      · exact fun _ holds => ⟨fun _ _ => holds,nofun⟩
      intro _
      exact contract_weaken settling_contract (fun _ h => h)
        (fun p _ holds => ⟨holds.1,manifest,bytes,read,encoded,holds.2⟩)
        (fun _ after => .inr ⟨manifest,read,.inr ⟨bytes,encoded,after⟩⟩)
    · exact fun _ holds => absurd holds.2 encoded
  · exact fun _ holds => absurd holds.2 read

theorem readCandidate_path {s : Store} (read : readCandidate D candidate s = .ok manifest) :
    candidate.path = .run manifest.runId := by
  simp only [readCandidate, bind_ok, require_ok, pure_ok] at read
  obtain ⟨_,_,_,_,_,_,_,path,rfl⟩ := read
  exact path

/-- The bytes at the place of the pointer. -/
def currentBytes (w : World) : Option (List UInt8) := w.current.map Entry.bytes

/-- The candidate decoded to a run manifest that is stored at its own place. -/
def Decoded (D : Digests) (candidate : FileRef) (w : World) (manifest : RunManifest) : Prop :=
  readCandidate D candidate w.store = .ok manifest ∧ candidate.path = .run manifest.runId

/-- The bytes are those of the canonical pointer to the candidate. -/
def Points (D : Digests) (candidate : FileRef) (w : World) (bytes : List UInt8) : Prop :=
  ∃ manifest, Decoded D candidate w manifest ∧ C (pointerValue ⟨manifest.runId,candidate⟩) = .ok bytes

structure Reported (D : Digests) (candidate : FileRef) (w : World) (publication : Publication)
    (a : Attempt) : Prop where
  untouched : publication.state = .preReplaceError → a.world.current = w.current
  replaced : publication.state ≠ .preReplaceError →
    ∃ bytes, Points D candidate w bytes ∧ a.world.current = some ⟨.file,bytes,1,true⟩
  settled : publication.state = .durable →
    ∃ front, a.done = front ++ .call .rename target :: settling
  named : ∀ c, publication.candidate = some c → c = candidate ∧ ∃ manifest, Decoded D c w manifest
  exact : (∀ bytes, Points D candidate w bytes → currentBytes w ≠ some bytes) →
    (publication.state = .preReplaceError ↔ currentBytes a.world = currentBytes w)

theorem replaced_differs {publication : Publication} {a : Attempt}
    (other : ∀ bytes, Points D candidate w bytes → currentBytes w ≠ some bytes)
    (state : publication.state ≠ .preReplaceError) (points : Points D candidate w bytes)
    (current : a.world.current = some ⟨.file,bytes,1,true⟩) :
    publication.state = .preReplaceError ↔ currentBytes a.world = currentBytes w := by
  apply iff_of_false state
  intro same
  apply other bytes points
  rw [← same, currentBytes, current]
  rfl

/-- The store reports truly how far a replacement got, whichever of its steps fail. -/
theorem publishCurrent_reported (D : Digests) (faults : Faults) (candidate : FileRef) (fresh : UUID)
    (w : World) : Reported D candidate w (publishCurrent D faults candidate fresh w).1
      (publishCurrent D faults candidate fresh w).2 := by
  have whole : Contract (Before w none) (publishing D faults candidate fresh) _ (Stopped D candidate w) :=
    publishing_contract
  obtain ⟨done,failed⟩ := whole (begin w) ⟨rfl,rfl,rfl,rfl⟩
  unfold publishCurrent
  rcases run : publishing D faults candidate fresh (begin w) with ⟨message | publication,a⟩
  · rw [run] at failed
    dsimp only
    rcases failed message rfl with before | ⟨manifest,read,before | ⟨bytes,encoded,after⟩⟩
    · rw [before.replaced, before.validated]
      exact ⟨fun _ => before.current,fun other => absurd rfl other,nofun,nofun,
        fun _ => iff_of_true rfl (congrArg (Option.map Entry.bytes) before.current)⟩
    · rw [before.replaced, before.validated]
      refine ⟨fun _ => before.current,fun other => absurd rfl other,nofun,?_,
        fun _ => iff_of_true rfl (congrArg (Option.map Entry.bytes) before.current)⟩
      rintro c same
      obtain rfl := Option.some.inj same
      exact ⟨rfl,manifest,read,readCandidate_path read⟩
    · rw [after.replaced, after.validated]
      have points : Points D candidate w bytes := ⟨manifest,⟨read,readCandidate_path read⟩,encoded⟩
      refine ⟨nofun,fun _ => ⟨bytes,points,after.current⟩,nofun,?_,
        fun other => replaced_differs other nofun points after.current⟩
      rintro c same
      obtain rfl := Option.some.inj same
      exact ⟨rfl,manifest,read,readCandidate_path read⟩
  · rw [run] at done
    obtain ⟨rfl,manifest,bytes,read,encoded,after,trace⟩ := done publication rfl
    have points : Points D candidate w bytes := ⟨manifest,⟨read,readCandidate_path read⟩,encoded⟩
    refine ⟨nofun,fun _ => ⟨bytes,points,after.current⟩,fun _ => trace,?_,
      fun other => replaced_differs other nofun points after.current⟩
    rintro c same
    obtain rfl := Option.some.inj same
    exact ⟨rfl,manifest,read,readCandidate_path read⟩

def sampleCandidate : FileRef := ⟨.run "run","run-run",1⟩

/-- A store whose pointer already names the run. -/
def sampleWorld : World where
  store := (Generation.publishRun sampleDigests .durable Generation.sampleManifest
    Generation.claimStore).2
  current := some ⟨.file,(C (pointerValue ⟨"run",sampleCandidate⟩)).toOption.getD [],1,true⟩
  staged := fun _ => none

/-- A run that is already the current one is published again: the pointer is replaced by its own
bytes. -/
theorem publishCurrent_again :
    let ended := publishCurrent sampleDigests ⟨fun _ => false,fun _ => 0⟩ sampleCandidate "fresh"
      sampleWorld
    ended.1.state = .durable ∧ currentBytes ended.2.world = currentBytes sampleWorld ∧
      ¬ (ended.1.state = .preReplaceError ↔
        currentBytes ended.2.world = currentBytes sampleWorld) := by
  have states : (publishCurrent sampleDigests ⟨fun _ => false,fun _ => 0⟩ sampleCandidate "fresh"
      sampleWorld).1.state = .durable := by decide +kernel
  have same : currentBytes (publishCurrent sampleDigests ⟨fun _ => false,fun _ => 0⟩ sampleCandidate
      "fresh" sampleWorld).2.world = currentBytes sampleWorld := by decide +kernel
  refine ⟨states,same,fun exact => ?_⟩
  have pre := exact.mpr same
  rw [states] at pre
  cases pre

end Report

end PointerReplacement

end EvidenceV4
