import EvidenceV4.MigrationBuild

/-!
# What the translators of a migration keep

A translator adds rows, messages and writes, and marks a file as skipped by the
history only behind a write of its bytes. An invariant that tolerates these
changes is kept by every translator, whatever its input is.
-/

set_option autoImplicit false

namespace EvidenceV4

namespace Migration

open CheckerJson (PyString points)
open PythonData
open Raising (Keeps keeps_pure keeps_asking keeps_lift keeps_modify keeps_bind keeps_lift_bind
  keeps_ite keeps_forM)

/-- Some write has the path and the bytes. -/
def HasWrite (path : PyString) (data : Bytes) (plan : Plan) : Prop :=
  ∃ write ∈ plan.writes, write.path = path ∧ write.data = data

/-- The bookkeeping of the translators keeps the invariant, where writes go to the paths. -/
structure Tolerates (project : Project) (paths : PyString → Prop) (invariant : Plan → Prop) :
    Prop where
  row : ∀ plan row, invariant plan → invariant { plan with artifacts := plan.artifacts ++ [row] }
  refusal : ∀ plan row message, invariant plan → invariant { plan with
    artifacts := plan.artifacts ++ [row], unsupported := plan.unsupported ++ [message] }
  conflict : ∀ plan message, invariant plan →
    invariant { plan with conflicts := plan.conflicts ++ [message] }
  write : ∀ plan write, paths write.path → invariant plan →
    invariant { plan with writes := plan.writes ++ [write] }
  verbatim : ∀ plan source path data detail, project.readLegacy source = .ok data →
    HasWrite path data plan → invariant plan → invariant { plan with
      artifacts := plan.artifacts ++ [⟨source,.mapped,some path,detail⟩]
      historySkip := plan.historySkip ++ [source] }
  target : ∀ plan target, invariant plan → invariant { plan with targetSpec := target }
  rebound : ∀ plan rebound, invariant plan → invariant { plan with rebound := rebound }

section Basics

variable {project : Project} {paths : PyString → Prop} {invariant : Plan → Prop}

theorem keeps_mapped (tolerates : Tolerates project paths invariant)
    {source destination detail : PyString} :
    Keeps invariant (mapped source destination detail false) :=
  keeps_modify (fun plan h => tolerates.row plan _ h)

theorem keeps_preserved (tolerates : Tolerates project paths invariant) {source detail : PyString} :
    Keeps invariant (preserved source detail) :=
  keeps_modify (fun plan h => tolerates.row plan _ h)

theorem keeps_deviation (tolerates : Tolerates project paths invariant)
    {source destination detail : PyString} :
    Keeps invariant (deviation source destination detail) :=
  keeps_modify (fun plan h => tolerates.row plan _ h)

theorem keeps_unsupported (tolerates : Tolerates project paths invariant)
    {source detail : PyString} : Keeps invariant (unsupported source detail) :=
  keeps_modify (fun plan h => tolerates.refusal plan _ _ h)

theorem keeps_conflict (tolerates : Tolerates project paths invariant) {message : PyString} :
    Keeps invariant (conflict message) :=
  keeps_modify (fun plan h => tolerates.conflict plan _ h)

/-- A write is recorded, or it was there with its bytes. -/
theorem recordWrite_ok {writes writes' : List PlannedWrite} {write : PlannedWrite} :
    recordWrite writes write = .ok writes' ↔
      (∃ existing, writes.find? (fun existing => existing.path = write.path) = some existing ∧
        existing.data = write.data ∧ writes' = writes) ∨
      (writes.find? (fun existing => existing.path = write.path) = none ∧
        writes' = writes ++ [write]) := by
  unfold recordWrite
  rcases Option.eq_none_or_eq_some
    (writes.find? (fun existing => existing.path = write.path)) with missing | ⟨existing,found⟩
  · rw [missing]
    simp only [CheckedExcept.pure_ok, reduceCtorEq, false_and, exists_false, false_or, true_and]
    exact eq_comm
  · rw [found]
    by_cases same : existing.data = write.data
    · simp only [if_pos same, CheckedExcept.pure_ok, Option.some.injEq, reduceCtorEq, false_and,
        or_false]
      constructor
      · rintro rfl
        exact ⟨existing,rfl,same,rfl⟩
      · rintro ⟨_,_,_,rfl⟩
        rfl
    · simp only [if_neg same, CheckedExcept.throw_ok, Option.some.injEq, reduceCtorEq, false_and,
        or_false, false_iff]
      rintro ⟨_,rfl,same',_⟩
      exact same same'

theorem planWrite_ran {write : PlannedWrite} {plan plan' : Plan} {u : Unit} :
    planWrite write plan = (.ok u,plan') ↔ points ".fv/" <+: write.path ∧
      ∃ writes, recordWrite plan.writes write = .ok writes ∧
        plan' = { plan with writes := writes } := by
  simp only [planWrite, Raising.bind_ran, Raising.lift_ran, Raising.asking_ran, Raising.modify_ran,
    CheckedExcept.check_ok]
  constructor
  · rintro ⟨_,_,⟨below,rfl⟩,writes,_,⟨recorded,rfl⟩,rfl⟩
    exact ⟨below,writes,recorded,rfl⟩
  · rintro ⟨below,writes,recorded,rfl⟩
    exact ⟨⟨⟩,plan,⟨below,rfl⟩,writes,plan,⟨recorded,rfl⟩,rfl⟩

theorem planWrite_failed {write : PlannedWrite} {plan plan' : Plan} {failure : MigrationFailure}
    (h : planWrite write plan = (.error failure,plan')) : plan' = plan := by
  unfold planWrite at h
  by_cases below : points ".fv/" <+: write.path
  · have passed : (Raising.lift (CheckedExcept.check (points ".fv/" <+: write.path)
        (.migrationError (say ["refusing to write outside .fv: ",write.path]))) : Step Unit) plan =
        (.ok ⟨⟩,plan) :=
      Raising.lift_ran.mpr ⟨CheckedExcept.check_of _ _ below,rfl⟩
    rw [Raising.bind_of_ok passed] at h
    rcases recorded : recordWrite plan.writes write with error | writes
    · have asked : Raising.asking (fun plan : Plan => recordWrite plan.writes write) plan =
          (.error error,plan) := by
        rw [Raising.asking, recorded]
      rw [Raising.bind_of_error asked] at h
      exact (Prod.ext_iff.mp h).2.symm
    · have asked : Raising.asking (fun plan : Plan => recordWrite plan.writes write) plan =
          (.ok writes,plan) := by
        rw [Raising.asking, recorded]
      rw [Raising.bind_of_ok asked] at h
      cases h
  · have stopped : (Raising.lift (CheckedExcept.check (points ".fv/" <+: write.path)
        (.migrationError (say ["refusing to write outside .fv: ",write.path]))) : Step Unit) plan =
        (.error (.migrationError (say ["refusing to write outside .fv: ",write.path])),plan) := by
      simp [Raising.lift, Raising.asking, CheckedExcept.check, below]
    rw [Raising.bind_of_error stopped] at h
    exact (Prod.ext_iff.mp h).2.symm

theorem recorded_has {writes writes' : List PlannedWrite} {write : PlannedWrite} {plan : Plan}
    (h : recordWrite writes write = .ok writes') :
    HasWrite write.path write.data { plan with writes := writes' } := by
  rcases recordWrite_ok.mp h with ⟨existing,found,same,rfl⟩ | ⟨_,rfl⟩
  · exact ⟨existing,List.mem_of_find?_eq_some found,by simpa using List.find?_some found,same⟩
  · exact ⟨write,List.mem_append_right _ (List.mem_singleton_self _),rfl,rfl⟩

theorem recorded_keeps (tolerates : Tolerates project paths invariant) {writes : List PlannedWrite}
    {write : PlannedWrite} {plan : Plan} (place : paths write.path)
    (h : recordWrite plan.writes write = .ok writes) (held : invariant plan) :
    invariant { plan with writes := writes } := by
  rcases recordWrite_ok.mp h with ⟨_,_,_,rfl⟩ | ⟨_,rfl⟩
  · exact held
  · exact tolerates.write plan write place held

/-- Behind a write of some bytes, the plan has them. -/
theorem keeps_written {α : Type} (tolerates : Tolerates project paths invariant)
    {write : PlannedWrite} {next : Step α} (place : paths write.path)
    (later : ∀ plan, invariant plan → HasWrite write.path write.data plan →
      invariant (next plan).2) : Keeps invariant (planWrite write >>= fun _ => next) := by
  intro plan held
  rcases ran : planWrite write plan with ⟨failure | u,plan'⟩
  · rw [Raising.bind_of_error ran]
    rwa [planWrite_failed ran]
  · rw [Raising.bind_of_ok ran]
    obtain ⟨_,writes,recorded,rfl⟩ := planWrite_ran.mp ran
    exact later _ (recorded_keeps tolerates place recorded held) (recorded_has recorded)

theorem keeps_planWrite (tolerates : Tolerates project paths invariant) {write : PlannedWrite}
    (place : paths write.path) : Keeps invariant (planWrite write) := by
  intro plan held
  rcases ran : planWrite write plan with ⟨failure | u,plan'⟩
  · rwa [planWrite_failed ran]
  · obtain ⟨_,writes,recorded,rfl⟩ := planWrite_ran.mp ran
    exact recorded_keeps tolerates place recorded held

theorem keeps_readBytes (tolerates : Tolerates project paths invariant) {path : PyString} :
    Keeps invariant (readBytes project path) := by
  unfold readBytes
  cases project.readLegacy path with
  | ok data => exact keeps_pure _
  | error error => exact keeps_bind (keeps_unsupported tolerates) (fun _ => keeps_pure _)

/-- What is read is what the file holds. -/
theorem keeps_read {α : Type} (tolerates : Tolerates project paths invariant) {path : PyString}
    {next : Option Bytes → Step α} (absent : Keeps invariant (next none))
    (found : ∀ data, project.readLegacy path = .ok data → Keeps invariant (next (some data))) :
    Keeps invariant (readBytes project path >>= next) := by
  unfold readBytes
  cases held : project.readLegacy path with
  | ok data => exact found data held
  | error error =>
    intro plan invariant'
    have ran : (do
        unsupported path (say ["unreadable: ",error])
        pure (none : Option Bytes) : Step (Option Bytes)) plan =
          (.ok none,(unsupported path (say ["unreadable: ",error]) plan).2) := rfl
    show invariant ((_ >>= next) plan).2
    rw [Raising.bind_of_ok ran]
    exact absent _ (keeps_unsupported tolerates plan invariant')

end Basics

section Intent

variable {project : Project} {host : Host} {paths : PyString → Prop} {invariant : Plan → Prop}

theorem keeps_asked {α β : Type} {read : Plan → Except MigrationFailure α} {next : α → Step β}
    (later : ∀ a, Keeps invariant (next a)) : Keeps invariant (Raising.asking read >>= next) :=
  keeps_bind (keeps_asking read) later

theorem keeps_inventoried {α : Type} {path : PyString} {next : Bool → Step α}
    (later : ∀ present, Keeps invariant (next present)) :
    Keeps invariant (inventoried path >>= next) :=
  keeps_asked later

theorem keeps_readJson (tolerates : Tolerates project paths invariant) {path : PyString} :
    Keeps invariant (readJson project host path) := by
  apply keeps_bind (keeps_readBytes tolerates)
  intro data
  cases data with
  | none => exact keeps_pure _
  | some data =>
    dsimp only
    split
    · exact keeps_pure _
    · exact keeps_bind (keeps_unsupported tolerates) (fun _ => keeps_pure _)

theorem keeps_electIntent (tolerates : Tolerates project paths invariant)
    {sources : List PyString} : Keeps invariant (electIntent project host sources) := by
  induction sources with
  | nil => exact keeps_pure _
  | cons source rest ih =>
    unfold electIntent
    apply keeps_inventoried
    intro listed
    split
    · apply keeps_lift_bind
      intro candidates _
      split
      · exact ih
      · exact keeps_pure _
      · exact keeps_bind (keeps_unsupported tolerates) (fun _ => keeps_pure _)
    · exact ih

theorem keeps_redirectIntent (tolerates : Tolerates project paths invariant) {external : PyString} :
    Keeps invariant (redirectIntent external) := by
  unfold redirectIntent
  apply keeps_inventoried
  intro present
  cases present with
  | true => exact keeps_bind (keeps_mapped tolerates) (fun _ => keeps_pure _)
  | false => exact keeps_pure _

theorem keeps_copyIntent (tolerates : Tolerates project paths invariant) (place : paths intentPath) :
    Keeps invariant (copyIntent project) := by
  unfold copyIntent
  apply keeps_read tolerates
  · exact keeps_pure _
  · intro data held
    apply keeps_written tolerates place
    intro plan kept has
    exact tolerates.verbatim plan legacyIntent intentPath data _ held has kept

theorem keeps_migrateIntent (tolerates : Tolerates project paths invariant)
    (place : paths intentPath) : Keeps invariant (migrateIntent project host) := by
  unfold migrateIntent
  apply keeps_bind (keeps_electIntent tolerates)
  rintro ⟨external,refused⟩
  apply keeps_inventoried
  intro present
  split
  · exact keeps_redirectIntent tolerates
  · exact keeps_copyIntent tolerates place
  · exact keeps_bind (keeps_unsupported tolerates) (fun _ => keeps_pure _)
  · exact keeps_pure _

theorem keeps_electTarget {installation : Installation}
    (tolerates : Tolerates project paths invariant) (place : paths intentPath) :
    Keeps invariant (electTarget project installation) := by
  unfold electTarget
  apply keeps_bind (keeps_migrateIntent tolerates place)
  intro target
  apply keeps_bind (keeps_modify (fun plan h => tolerates.target plan target h))
  intro _
  exact keeps_pure _

end Intent

section Ledger

variable {project : Project} {library : Library} {paths : PyString → Prop}
  {invariant : Plan → Prop}

/-- An invariant and a write that is there are tolerated together. -/
theorem Tolerates.having (tolerates : Tolerates project paths invariant) {path : PyString}
    {data : Bytes} :
    Tolerates project paths (fun plan => invariant plan ∧ HasWrite path data plan) where
  row plan row h := ⟨tolerates.row plan row h.1,h.2⟩
  refusal plan row message h := ⟨tolerates.refusal plan row message h.1,h.2⟩
  conflict plan message h := ⟨tolerates.conflict plan message h.1,h.2⟩
  write plan write place h := by
    obtain ⟨kept,found,member,same⟩ := h
    exact ⟨tolerates.write plan write place kept,found,List.mem_append_left _ member,same⟩
  verbatim plan source path data detail held has h :=
    ⟨tolerates.verbatim plan source path data detail held has h.1,h.2⟩
  target plan target h := ⟨tolerates.target plan target h.1,h.2⟩
  rebound plan rebound h := ⟨tolerates.rebound plan rebound h.1,h.2⟩

theorem keeps_settleLegacyLedger (tolerates : Tolerates project paths invariant)
    {legacy accepted : PyString} {current : Bytes} :
    Keeps (fun plan => invariant plan ∧ HasWrite liveLedger current plan)
      (settleLegacyLedger project library legacy current accepted) := by
  unfold settleLegacyLedger
  apply keeps_read tolerates.having
  · exact keeps_pure _
  · intro data held
    by_cases same : data = current
    · subst same
      dsimp only
      rw [if_pos rfl]
      apply keeps_modify
      intro plan h
      exact tolerates.having.verbatim plan legacy liveLedger data _ held h.2 h
    · dsimp only
      rw [if_neg same]
      exact keeps_preserved tolerates.having

theorem keeps_adoptLegacy (tolerates : Tolerates project paths invariant) {legacy : Option PyString}
    {accepted : PyString} {current : Bytes} :
    Keeps (fun plan => invariant plan ∧ HasWrite liveLedger current plan)
      (adoptLegacy project library legacy current accepted) := by
  cases legacy with
  | none => exact keeps_pure _
  | some legacy =>
    unfold adoptLegacy
    apply keeps_bind
    · apply keeps_modify
      intro plan h
      exact tolerates.having.rebound plan _ h
    · intro _
      exact keeps_settleLegacyLedger tolerates

theorem keeps_adoptLiveLedger (tolerates : Tolerates project paths invariant)
    (place : paths liveLedger) {legacy : Option PyString} :
    Keeps invariant (adoptLiveLedger project library legacy) := by
  unfold adoptLiveLedger
  split
  · exact keeps_conflict tolerates
  · next current _ =>
    split
    · exact keeps_unsupported tolerates
    · exact keeps_unsupported tolerates
    · apply keeps_written tolerates place
      intro plan kept has
      exact (keeps_adoptLegacy tolerates plan ⟨kept,has⟩).1

theorem keeps_migrateLegacyLedger (tolerates : Tolerates project paths invariant)
    (place : paths liveLedger) {relative : PyString} :
    Keeps invariant (migrateLegacyLedger project relative) := by
  unfold migrateLegacyLedger
  apply keeps_read tolerates
  · exact keeps_pure _
  · intro data held
    split
    · exact keeps_pure _
    · exact keeps_unsupported tolerates
    · exact keeps_unsupported tolerates
    · next shown _ =>
      obtain rfl := Option.some.inj shown
      apply keeps_written tolerates place
      intro plan kept has
      exact tolerates.verbatim plan relative liveLedger _ _ held has kept

theorem keeps_migrateLedger (tolerates : Tolerates project paths invariant)
    (place : paths liveLedger) : Keeps invariant (migrateLedger project library) := by
  unfold migrateLedger
  apply keeps_inventoried
  intro present
  split
  · exact keeps_adoptLiveLedger tolerates place
  · exact keeps_adoptLiveLedger tolerates place
  · exact keeps_migrateLegacyLedger tolerates place
  · exact keeps_pure _

end Ledger

section Dispatch

variable {project : Project} {host : Host} {template : PyFields} {paths : PyString → Prop}
  {invariant : Plan → Prop}

theorem keeps_adoptRoute (tolerates : Tolerates project paths invariant)
    (place : paths dispatchPath) {existing : Bytes} {config route : PyFields} {target : PyString} :
    Keeps invariant (adoptRoute host existing config route target) := by
  apply keeps_ite
  · exact keeps_planWrite tolerates place
  · exact keeps_bind (keeps_lift _) (fun _ => keeps_planWrite tolerates place)

theorem keeps_migrateDispatch (tolerates : Tolerates project paths invariant)
    (place : paths dispatchPath) {target : Option PyString} :
    Keeps invariant (migrateDispatch project host template target) := by
  cases target with
  | none => exact keeps_pure _
  | some target =>
    apply keeps_ite
    · split
      · exact keeps_conflict tolerates
      · unfold adoptDispatch
        split
        · exact keeps_conflict tolerates
        · split
          · exact keeps_adoptRoute tolerates place
          · exact keeps_conflict tolerates
    · exact keeps_bind (keeps_lift _) (fun _ => keeps_planWrite tolerates place)

end Dispatch

section Inputs

variable {project : Project} {installation : Installation} {paths : PyString → Prop}
  {invariant : Plan → Prop}

theorem keeps_translatePolicy (tolerates : Tolerates project paths invariant)
    (place : paths inputsPath) {entries : List PyString} :
    Keeps invariant (translatePolicy installation entries) := by
  unfold translatePolicy
  apply keeps_asked
  intro plan
  apply keeps_ite
  · exact keeps_unsupported tolerates
  · unfold writePolicy
    apply keeps_lift_bind
    intro rendered _
    apply keeps_bind (keeps_planWrite tolerates place)
    intro _
    apply keeps_bind (keeps_mapped tolerates)
    intro _
    exact keeps_forM (fun _ _ => keeps_deviation tolerates)

theorem keeps_readPolicy (tolerates : Tolerates project paths invariant)
    (place : paths inputsPath) {data : Bytes} :
    Keeps invariant (readPolicy installation data) := by
  unfold readPolicy
  split
  · exact keeps_unsupported tolerates
  · split
    · exact keeps_unsupported tolerates
    · apply keeps_ite
      · exact keeps_unsupported tolerates
      · exact keeps_translatePolicy tolerates place

theorem keeps_migrateVerifiedInputs (tolerates : Tolerates project paths invariant)
    (place : paths inputsPath) : Keeps invariant (migrateVerifiedInputs project installation) := by
  unfold migrateVerifiedInputs
  apply keeps_inventoried
  intro present
  cases present with
  | false => exact keeps_planWrite tolerates place
  | true =>
    apply keeps_bind (keeps_readBytes tolerates)
    intro data
    cases data with
    | none => exact keeps_pure _
    | some data => exact keeps_readPolicy tolerates place

end Inputs

/-- Also what the claims require may change. -/
structure ToleratesClaims (project : Project) (paths : PyString → Prop)
    (invariant : Plan → Prop) : Prop extends Tolerates project paths invariant where
  claims : ∀ plan layers, invariant plan → invariant { plan with claimLayers := layers }
  required : ∀ plan layers, invariant plan → invariant { plan with requiredLayers := layers }

/-- Also what the verification plan declares may change. -/
structure ToleratesTools (project : Project) (paths : PyString → Prop)
    (invariant : Plan → Prop) : Prop extends Tolerates project paths invariant where
  tools : ∀ plan tools, invariant plan → invariant { plan with planTools := tools }
  blocked : ∀ plan, invariant plan → invariant { plan with planBlocked := true }

section Obligations

variable {project : Project} {host : Host} {paths : PyString → Prop} {invariant : Plan → Prop}

theorem keeps_foldlM {α β : Type} {f : β → α → Step β} {xs : List α}
    (h : ∀ b x, Keeps invariant (f b x)) (b : β) : Keeps invariant (xs.foldlM f b) := by
  induction xs generalizing b with
  | nil => exact keeps_pure _
  | cons x xs ih =>
    rw [List.foldlM_cons]
    exact keeps_bind (h b x) (fun b' => ih b')

theorem keeps_indexClaim (tolerates : Tolerates project paths invariant) {relative : PyString}
    {index : ClaimIndex} {entry : PyData × ℕ} :
    Keeps invariant (indexClaim host relative index entry) := by
  unfold indexClaim
  split
  · unfold indexNamed
    split
    · exact keeps_bind (keeps_unsupported tolerates) (fun _ => keeps_pure _)
    · apply keeps_ite
      · exact keeps_bind (keeps_unsupported tolerates) (fun _ => keeps_pure _)
      · exact keeps_pure _
  · exact keeps_bind (keeps_unsupported tolerates) (fun _ => keeps_pure _)

theorem keeps_legacyClaimIndex (tolerates : Tolerates project paths invariant)
    {relative schema : PyString} :
    Keeps invariant (legacyClaimIndex project host relative schema) := by
  unfold legacyClaimIndex
  apply keeps_bind (keeps_readJson tolerates)
  intro document
  split
  · exact keeps_pure _
  · split
    · exact keeps_bind (keeps_unsupported tolerates) (fun _ => keeps_pure _)
    · apply keeps_bind
      · exact keeps_foldlM (fun _ _ => keeps_indexClaim tolerates) _
      · intro _
        exact keeps_pure _
  · exact keeps_bind (keeps_unsupported tolerates) (fun _ => keeps_pure _)

theorem keeps_loadIndex (tolerates : Tolerates project paths invariant) {present : Bool}
    {relative schema : PyString} :
    Keeps invariant (loadIndex project host present relative schema) :=
  keeps_ite (keeps_legacyClaimIndex tolerates) (keeps_pure _)

theorem keeps_migrateClaim (tolerates : ToleratesClaims project paths invariant)
    {details : ClaimIndex} {required : List (PyString × Bool)} {s : Synthesis}
    {claimId : PyString} : Keeps invariant (migrateClaim host details required s claimId) := by
  unfold migrateClaim
  split
  · exact keeps_bind (keeps_unsupported tolerates.toTolerates) (fun _ => keeps_pure _)
  · apply keeps_bind
    · exact keeps_ite (keeps_pure _) (keeps_deviation tolerates.toTolerates)
    · intro _
      apply keeps_bind
      · exact keeps_modify (fun plan h => tolerates.claims plan _ h)
      · intro _
        exact keeps_pure _

theorem keeps_reportCollisions (tolerates : Tolerates project paths invariant) {s : Synthesis} :
    Keeps invariant (reportCollisions host s) := by
  unfold reportCollisions
  apply keeps_bind
  · exact keeps_ite (keeps_pure _) (keeps_unsupported tolerates)
  · intro _
    exact keeps_forM (fun _ _ => keeps_ite (keeps_pure _) (keeps_unsupported tolerates))

theorem keeps_writeManifest (tolerates : ToleratesClaims project paths invariant)
    (place : paths obligationsPath) {s : Synthesis} {hasClaims hasObligations : Bool}
    {document : PyFields} :
    Keeps invariant (writeManifest host s hasClaims hasObligations document) := by
  unfold writeManifest
  apply keeps_bind
  · exact keeps_modify (fun plan h => tolerates.required plan _ h)
  · intro _
    apply keeps_bind
    · apply keeps_forM
      intro document _
      exact keeps_ite (keeps_pure _) (keeps_deviation tolerates.toTolerates)
    · intro _
      apply keeps_lift_bind
      intro data _
      apply keeps_bind (keeps_planWrite tolerates.toTolerates place)
      intro _
      apply keeps_bind
      · exact keeps_forM (fun _ _ => keeps_mapped tolerates.toTolerates)
      · intro _
        exact keeps_forM (fun _ _ => keeps_mapped tolerates.toTolerates)

theorem keeps_migrateIndexes (tolerates : ToleratesClaims project paths invariant)
    (place : paths obligationsPath) {required details : ClaimIndex}
    {hasClaims hasObligations : Bool} {document : PyFields} : Keeps invariant
      (migrateIndexes host hasClaims hasObligations required details document) := by
  unfold migrateIndexes
  apply keeps_bind
  · exact keeps_foldlM (fun _ _ => keeps_migrateClaim tolerates) _
  · intro s
    apply keeps_bind (keeps_reportCollisions tolerates.toTolerates)
    intro _
    apply keeps_ite
    · exact keeps_forM (fun _ _ => keeps_preserved tolerates.toTolerates)
    · exact keeps_writeManifest tolerates place

theorem keeps_migrateObligations (tolerates : ToleratesClaims project paths invariant)
    (place : paths obligationsPath) : Keeps invariant (migrateObligations project host) := by
  unfold migrateObligations
  apply keeps_inventoried
  intro hasObligations
  apply keeps_inventoried
  intro hasClaims
  apply keeps_bind (keeps_loadIndex tolerates.toTolerates)
  intro required
  split
  · exact keeps_pure _
  · apply keeps_bind
    · apply keeps_forM
      intro entry _
      unfold checkRequired
      split
      · exact keeps_pure _
      · exact keeps_unsupported tolerates.toTolerates
    · intro _
      unfold migrateDetails
      apply keeps_bind (keeps_loadIndex tolerates.toTolerates)
      intro details
      split
      · exact keeps_pure _
      · exact keeps_migrateIndexes tolerates place

end Obligations

section Runs

variable {project : Project} {host : Host} {paths : PyString → Prop} {invariant : Plan → Prop}

theorem keeps_gatherRun (tolerates : Tolerates project paths invariant) {relative : PyString}
    {gathered : Gathered} {run : PyData × ℕ} :
    Keeps invariant (gatherRun project host relative gathered run) := by
  unfold gatherRun
  dsimp only
  split
  · split
    · unfold gatherLayer
      apply keeps_lift_bind
      intro executions _
      apply keeps_asked
      intro required
      split
      · exact keeps_pure _
      · exact keeps_bind (keeps_unsupported tolerates) (fun _ => keeps_pure _)
    · exact keeps_bind (keeps_unsupported tolerates) (fun _ => keeps_pure _)
  · exact keeps_bind (keeps_unsupported tolerates) (fun _ => keeps_pure _)

theorem keeps_refused (tolerates : ToleratesTools project paths invariant)
    {relative detail : PyString} :
    Keeps invariant (blockPlan >>= fun _ => unsupported relative detail) := by
  apply keeps_bind
  · exact keeps_modify (fun plan h => tolerates.blocked plan h)
  · intro _
    exact keeps_unsupported tolerates.toTolerates

theorem keeps_writePlan (tolerates : ToleratesTools project paths invariant)
    (place : paths planPath) {relative : PyString} {document : PyFields} {runs : List PyData}
    {cohorts : List PlannedLayer} :
    Keeps invariant (writePlan host relative document runs cohorts) := by
  unfold writePlan
  apply keeps_lift_bind
  intro data _
  apply keeps_bind (keeps_planWrite tolerates.toTolerates place)
  intro _
  apply keeps_bind
  · exact keeps_modify (fun plan h => tolerates.tools plan _ h)
  · intro _
    apply keeps_bind
    · exact keeps_forM (fun _ _ => keeps_deviation tolerates.toTolerates)
    · intro _
      exact keeps_mapped tolerates.toTolerates

theorem keeps_migrateRuns (tolerates : ToleratesTools project paths invariant)
    (place : paths planPath) {relative : PyString} {document : PyFields} :
    Keeps invariant (migrateRuns project host relative document) := by
  unfold migrateRuns
  split
  · exact keeps_refused tolerates
  · unfold translateRuns
    apply keeps_bind
    · exact keeps_foldlM (fun _ _ => keeps_gatherRun tolerates.toTolerates) _
    · intro gathered
      apply keeps_asked
      intro required
      apply keeps_ite
      · exact keeps_refused tolerates
      · apply keeps_ite
        · exact keeps_refused tolerates
        · exact keeps_writePlan tolerates place

theorem keeps_migratePlan (tolerates : ToleratesTools project paths invariant)
    (place : paths planPath) : Keeps invariant (migratePlan project host) := by
  unfold migratePlan
  apply keeps_inventoried
  intro present
  cases present with
  | false => exact keeps_pure _
  | true =>
    apply keeps_bind (keeps_readJson tolerates.toTolerates)
    intro document
    split
    · exact keeps_modify (fun plan h => tolerates.blocked plan h)
    · exact keeps_migrateRuns tolerates place
    · exact keeps_refused tolerates

theorem keeps_checkRequiredEvidence (tolerates : Tolerates project paths invariant) :
    Keeps invariant (checkRequiredEvidence host) := by
  unfold checkRequiredEvidence
  apply keeps_asked
  intro plan
  split
  · exact keeps_pure _
  · exact keeps_forM (fun _ _ => keeps_ite (keeps_pure _) (keeps_unsupported tolerates))

end Runs

section Translators

variable {project : Project} {installation : Installation} {paths : PyString → Prop}
  {invariant : Plan → Prop}

/-- What tolerates every change of the bookkeeping is kept by the translators together. -/
theorem keeps_translate (claims : ToleratesClaims project paths invariant)
    (tools : ToleratesTools project paths invariant) (place : ∀ path, paths path) :
    Keeps invariant (translate project installation) := by
  have tolerates := claims.toTolerates
  unfold translate
  apply keeps_bind (keeps_electTarget tolerates (place _))
  intro target
  apply keeps_bind (keeps_migrateLedger tolerates (place _))
  intro _
  apply keeps_bind (keeps_migrateObligations claims (place _))
  intro _
  apply keeps_bind (keeps_migratePlan tools (place _))
  intro _
  apply keeps_bind (keeps_checkRequiredEvidence tolerates)
  intro _
  apply keeps_bind (keeps_migrateVerifiedInputs tolerates (place _))
  intro _
  exact keeps_migrateDispatch tolerates (place _)

end Translators

section History

variable {project : Project} {paths : PyString → Prop} {invariant : Plan → Prop}

theorem keeps_preserveFile (tolerates : Tolerates project paths invariant)
    {classified : List PyString} {path : PyString} (place : paths (historyPath path)) :
    Keeps invariant (preserveFile project classified path) := by
  unfold preserveFile
  apply keeps_asked
  intro skip
  apply keeps_ite
  · exact keeps_pure _
  · unfold copyHistory
    apply keeps_bind (keeps_readBytes tolerates)
    intro data
    cases data with
    | none => exact keeps_pure _
    | some data =>
      apply keeps_bind (keeps_planWrite tolerates place)
      intro _
      exact keeps_ite (keeps_pure _) (keeps_preserved tolerates)

theorem keeps_preserveHistory (tolerates : Tolerates project paths invariant)
    (place : ∀ path, paths (historyPath path)) : Keeps invariant (preserveHistory project) := by
  unfold preserveHistory
  apply keeps_asked
  intro plan
  exact keeps_forM (fun path _ => keeps_preserveFile tolerates (place path))

end History

end Migration

end EvidenceV4
