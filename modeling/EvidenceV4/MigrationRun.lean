import EvidenceV4.MigrationRules

/-!
# Runs of a migration that block nothing

An unsupported row is never taken back, so a run that ends without one had none
in between, and each translator took the branch that reports nothing. The
inventory lists the regular files of the legacy tree and reports everything else.
-/

set_option autoImplicit false

namespace EvidenceV4

namespace Migration

open CheckerJson (PyString points)
open PolicyDocument (mapGet mapGet_mem mapGet_isSome)
open PythonData
open Raising (Keeps keeps_pure keeps_lift keeps_modify keeps_bind keeps_forM)

/-- Something was reported as unsupported. -/
def Refused (plan : Plan) : Prop := plan.unsupported ≠ []

section Clean

variable {project : Project} {α β ι : Type} {plan plan' : Plan}

theorem refused_tolerates : Tolerates project (fun _ => True) Refused where
  row _ _ h := h
  refusal _ _ _ _ := List.append_ne_nil_of_right_ne_nil _ (List.cons_ne_nil _ _)
  conflict _ _ h := h
  write _ _ _ h := h
  verbatim _ _ _ _ _ _ _ h := h
  target _ _ h := h
  rebound _ _ h := h

theorem refused_claims : ToleratesClaims project (fun _ => True) Refused :=
  { refused_tolerates with
    claims := fun _ _ h => h
    required := fun _ _ h => h }

theorem refused_tools : ToleratesTools project (fun _ => True) Refused :=
  { refused_tolerates with
    tools := fun _ _ h => h
    blocked := fun _ h => h }

theorem unsupported_refused {source detail : PyString} {u : Unit}
    (ran : unsupported source detail plan = (.ok u,plan')) : Refused plan' := by
  obtain rfl := (Raising.modify_ran.mp ran)
  exact List.append_ne_nil_of_right_ne_nil _ (List.cons_ne_nil _ _)

theorem reported_refused {source detail : PyString} {a b : α}
    (ran : (unsupported source detail >>= fun _ => pure a) plan = (.ok b,plan')) :
    Refused plan' := by
  obtain ⟨_,_,refused,ran⟩ := Raising.bind_ran.mp ran
  obtain ⟨_,rfl⟩ := Raising.pure_ran.mp ran
  exact unsupported_refused refused

/-- What is clean behind a computation was clean in front of it. -/
theorem clean_before {x : Step α} {a : α} (keeps : Keeps Refused x)
    (ran : x plan = (.ok a,plan')) (clean : ¬ Refused plan') : ¬ Refused plan := by
  intro refused
  have kept := keeps plan refused
  rw [ran] at kept
  exact clean kept

/-- A sequence that ends clean is clean in the middle. -/
theorem clean_bind {x : Step α} {next : α → Step β} {b : β} (keeps : ∀ a, Keeps Refused (next a))
    (ran : (x >>= next) plan = (.ok b,plan')) (clean : ¬ Refused plan') :
    ∃ a middle, x plan = (.ok a,middle) ∧ next a middle = (.ok b,plan') ∧ ¬ Refused middle := by
  obtain ⟨a,middle,first,second⟩ := Raising.bind_ran.mp ran
  exact ⟨a,middle,first,second,clean_before (keeps a) second clean⟩

/-- A computation that changes nothing when it reports nothing. -/
def Quiet (x : Step α) : Prop :=
  ∀ plan a plan', x plan = (.ok a,plan') → ¬ Refused plan' → plan' = plan

theorem quiet_forM {xs : List ι} {f : ι → Step Unit} (keeps : ∀ i, Keeps Refused (f i))
    (quiet : ∀ i, Quiet (f i)) : Quiet (forM xs f) := by
  intro plan u plan' ran clean
  induction xs generalizing plan with
  | nil => exact (Raising.pure_ran.mp ran).2.symm
  | cons i xs ih =>
    rw [List.forM_cons] at ran
    obtain ⟨_,middle,first,rest,clear⟩ := clean_bind (fun _ => keeps_forM (fun i _ => keeps i))
      ran clean
    rw [ih middle rest]
    exact quiet i plan _ middle first clear

/-- Every pass of a loop that ends clean is clean. -/
theorem forM_clean {xs : List ι} {f : ι → Step Unit} {u : Unit} (keeps : ∀ i, Keeps Refused (f i))
    (ran : forM xs f plan = (.ok u,plan')) (clean : ¬ Refused plan') :
    ∀ i ∈ xs, ∃ before after, f i before = (.ok (),after) ∧ ¬ Refused after := by
  induction xs generalizing plan with
  | nil => exact nofun
  | cons i xs ih =>
    rw [List.forM_cons] at ran
    obtain ⟨_,middle,first,rest,clear⟩ := clean_bind (fun _ => keeps_forM (fun i _ => keeps i))
      ran clean
    exact List.forall_mem_cons.mpr ⟨⟨plan,middle,first,clear⟩,ih rest⟩

end Clean

section Inventory

mutual

/-- The entry holds regular files only. -/
def Regular : LegacyEntry → Bool
  | .file _ _ => true
  | .directory children => RegularBelow children
  | _ => false

def RegularBelow : List (PyString × LegacyEntry) → Bool
  | [] => true
  | (_,entry) :: rest => Regular entry && RegularBelow rest

end

/-- The plan with the files of the inventory, and rows for the other entries. -/
def Inventoried (files : List PyString) (regular : Bool) (plan plan' : Plan) : Prop :=
  ∃ rows messages, (messages = [] ↔ regular = true) ∧ plan' = { plan with
    artifacts := plan.artifacts ++ rows
    unsupported := plan.unsupported ++ messages
    legacyFiles := plan.legacyFiles ++ files }

theorem inventoried_refusal (plan : Plan) (source detail : PyString) :
    ∃ plan', unsupported source detail plan = (.ok (),plan') ∧ Inventoried [] false plan plan' :=
  ⟨_,rfl,[⟨source,.unsupported,none,detail⟩],[say [source,": ",detail]],by simp,by simp⟩

mutual

theorem walk_ran (entry : LegacyEntry) (path : PyString) (plan : Plan) :
    ∃ plan', walk path entry plan = (.ok (),plan') ∧
      Inventoried ((filesOf path entry).map Prod.fst) (Regular entry) plan plan' := by
  cases entry with
  | file data executable => exact ⟨_,rfl,[],[],by simp [Regular],by simp [filesOf]⟩
  | directory children =>
    rw [walk, filesOf, Regular]
    exact walkBelow_ran children path plan
  | unlistable error => exact inventoried_refusal plan _ _
  | symlink => exact inventoried_refusal plan _ _
  | special => exact inventoried_refusal plan _ _

theorem walkBelow_ran (children : List (PyString × LegacyEntry)) (path : PyString) (plan : Plan) :
    ∃ plan', walkBelow path children plan = (.ok (),plan') ∧
      Inventoried ((filesBelow path children).map Prod.fst) (RegularBelow children) plan plan' := by
  match children with
  | [] => exact ⟨_,rfl,[],[],by simp [RegularBelow],by simp [filesBelow]⟩
  | (name,entry) :: rest =>
    obtain ⟨middle,first,rows,messages,clean,rfl⟩ := walk_ran entry (child path name) plan
    obtain ⟨plan',second,rows',messages',clean',rfl⟩ := walkBelow_ran rest path _
    refine ⟨_,(Raising.bind_of_ok first).trans second,rows ++ rows',messages ++ messages',?_,?_⟩
    · rw [List.append_eq_nil_iff, clean, clean', RegularBelow, Bool.and_eq_true]
    · simp [filesBelow]

end

/-- The inventory lists the regular files, and reports every other entry. -/
theorem scan_ran {project : Project} {plan plan' : Plan} {u : Unit}
    (ran : scan project plan = (.ok u,plan')) : ∃ entry, project.legacy = some entry ∧
      Inventoried (project.files.map Prod.fst) (Regular entry) plan plan' := by
  have files : ∀ {entry}, project.legacy = some entry →
      project.files = filesOf legacyDirname entry := by
    intro entry found
    rw [Project.files, found]
  unfold scan at ran
  rcases Option.eq_none_or_eq_some project.legacy with missing | ⟨entry,found⟩
  · simp only [missing] at ran
    cases ran
  · simp only [found] at ran
    refine ⟨entry,found,?_⟩
    rw [files found]
    cases entry with
    | directory children =>
      obtain ⟨_,walked,listed⟩ := walkBelow_ran children legacyDirname plan
      cases ran.symm.trans walked
      simpa only [filesOf, Regular] using listed
    | unlistable error =>
      obtain ⟨_,walked,listed⟩ := walk_ran (.unlistable error) legacyDirname plan
      cases ran.symm.trans walked
      exact listed
    | file data executable => cases ran
    | symlink => cases ran
    | special => cases ran

end Inventory

section Writes

variable {project : Project} {library : Library} {path : PyString} {data : Bytes} {plan plan' : Plan}

/-- No write has the path. -/
def Unwritten (path : PyString) (plan : Plan) : Prop := ∀ write ∈ plan.writes, write.path ≠ path

/-- The writes of the path are there and have the bytes. -/
def Settled (path : PyString) (data : Bytes) (plan : Plan) : Prop :=
  HasWrite path data plan ∧ ∀ write ∈ plan.writes, write.path = path → write.data = data

theorem unwritten_tolerates : Tolerates project (· ≠ path) (Unwritten path) where
  row _ _ h := h
  refusal _ _ _ h := h
  conflict _ _ h := h
  write plan write apart h := by
    intro found member
    rcases List.mem_append.mp member with old | new
    · exact h found old
    · exact List.mem_singleton.mp new ▸ apart
  verbatim _ _ _ _ _ _ _ h := h
  target _ _ h := h
  rebound _ _ h := h

/-- A write stays planned. -/
theorem has_tolerates {paths : PyString → Prop} :
    Tolerates project paths (HasWrite path data) where
  row _ _ h := h
  refusal _ _ _ h := h
  conflict _ _ h := h
  write _ _ _ h := by
    obtain ⟨found,member,same⟩ := h
    exact ⟨found,List.mem_append_left _ member,same⟩
  verbatim _ _ _ _ _ _ _ h := h
  target _ _ h := h
  rebound _ _ h := h

theorem unwritten_claims : ToleratesClaims project (· ≠ path) (Unwritten path) :=
  { unwritten_tolerates with
    claims := fun _ _ h => h
    required := fun _ _ h => h }

theorem unwritten_tools : ToleratesTools project (· ≠ path) (Unwritten path) :=
  { unwritten_tolerates with
    tools := fun _ _ h => h
    blocked := fun _ h => h }

theorem settled_tolerates : Tolerates project (· ≠ path) (Settled path data) where
  row _ _ h := h
  refusal _ _ _ h := h
  conflict _ _ h := h
  write plan write apart h := by
    obtain ⟨⟨found,member,same⟩,each⟩ := h
    apply And.intro ⟨found,List.mem_append_left _ member,same⟩
    intro other listed named
    rcases List.mem_append.mp listed with old | new
    · exact each other old named
    · exact absurd (List.mem_singleton.mp new ▸ named) apart
  verbatim _ _ _ _ _ _ _ h := h
  target _ _ h := h
  rebound _ _ h := h

theorem settled_tools : ToleratesTools project (· ≠ path) (Settled path data) :=
  { settled_tolerates with
    tools := fun _ _ h => h
    blocked := fun _ h => h }

/-- What later translators read of the inventory and of the manifests. -/
def coverage (plan : Plan) :
    List PyString × List (PyString × List PyString) × Option (List PyString) × Bool :=
  (plan.legacyFiles,plan.claimLayers,plan.planTools,plan.planBlocked)

theorem coverage_tolerates
    {known : List PyString × List (PyString × List PyString) × Option (List PyString) × Bool} :
    Tolerates project (fun _ => True) (fun plan => coverage plan = known) where
  row _ _ h := h
  refusal _ _ _ h := h
  conflict _ _ h := h
  write _ _ _ h := h
  verbatim _ _ _ _ _ _ _ h := h
  target _ _ h := h
  rebound _ _ h := h

/-- Two invariants are tolerated together, where both allow the paths. -/
theorem Tolerates.both {paths paths' : PyString → Prop} {first second : Plan → Prop}
    (h : Tolerates project paths first) (h' : Tolerates project paths' second) :
    Tolerates project (fun path => paths path ∧ paths' path)
      (fun plan => first plan ∧ second plan) where
  row plan row held := ⟨h.row plan row held.1,h'.row plan row held.2⟩
  refusal plan row message held :=
    ⟨h.refusal plan row message held.1,h'.refusal plan row message held.2⟩
  conflict plan message held := ⟨h.conflict plan message held.1,h'.conflict plan message held.2⟩
  write plan write place held := ⟨h.write plan write place.1 held.1,h'.write plan write place.2 held.2⟩
  verbatim plan source path data detail found has held :=
    ⟨h.verbatim plan source path data detail found has held.1,
      h'.verbatim plan source path data detail found has held.2⟩
  target plan target held := ⟨h.target plan target held.1,h'.target plan target held.2⟩
  rebound plan rebound held := ⟨h.rebound plan rebound held.1,h'.rebound plan rebound held.2⟩

theorem planWrite_settles {write : PlannedWrite} {u : Unit} (fresh : Unwritten write.path plan)
    (ran : planWrite write plan = (.ok u,plan')) :
    Settled write.path write.data plan' ∧ plan' = { plan with writes := plan.writes ++ [write] } := by
  obtain ⟨_,writes,recorded,rfl⟩ := planWrite_ran.mp ran
  rcases recordWrite_ok.mp recorded with ⟨existing,found,_⟩ | ⟨_,rfl⟩
  · have named : existing.path = write.path := by simpa using List.find?_some found
    exact absurd named (fresh existing (List.mem_of_find?_eq_some found))
  · refine ⟨⟨⟨write,List.mem_append_right _ (List.mem_singleton_self _),rfl,rfl⟩,?_⟩,rfl⟩
    intro other member named
    rcases List.mem_append.mp member with old | new
    · exact absurd named (fresh other old)
    · rw [List.mem_singleton.mp new]

theorem checkContent_same (write : PlannedWrite) :
    (checkContent project library write).write.path = write.path ∧
      (checkContent project library write).write.data = write.data := by
  unfold checkContent
  dsimp only
  split
  · exact ⟨rfl,rfl⟩
  · unfold whenPresentWith whenIdentical
    split
    · dsimp only
      split
      · exact ⟨rfl,rfl⟩
      · exact ⟨rfl,rfl⟩
    · split
      · exact ⟨rfl,rfl⟩
      · split
        · exact ⟨rfl,rfl⟩
        · exact ⟨rfl,rfl⟩

/-- Preflight settles the action of a write, not what is written. -/
theorem checkDestination_same (write : PlannedWrite) :
    (checkDestination project library write).write.path = write.path ∧
      (checkDestination project library write).write.data = write.data := by
  unfold checkDestination
  dsimp only
  split
  · exact ⟨rfl,rfl⟩
  · exact ⟨rfl,rfl⟩
  · split
    · exact ⟨rfl,rfl⟩
    · split
      · unfold whenMissing
        split
        · exact ⟨rfl,rfl⟩
        · exact ⟨rfl,rfl⟩
      · exact checkContent_same write

/-- The plan of a preflight, where the writes keep their destinations and bytes. -/
theorem preflight_ran {u : Unit} (ran : preflight project library plan = (.ok u,plan')) :
    plan' = { plan with writes := plan'.writes, conflicts := plan'.conflicts } ∧
      (∀ write ∈ plan'.writes, ∃ old ∈ plan.writes, write.path = old.path ∧ write.data = old.data) ∧
      ∀ old ∈ plan.writes, ∃ write ∈ plan'.writes, write.path = old.path ∧ write.data = old.data := by
  obtain rfl := Raising.modify_ran.mp ran
  refine ⟨rfl,?_,?_⟩
  · intro write member
    obtain ⟨verdict,listed,rfl⟩ := List.mem_map.mp member
    obtain ⟨old,inside,rfl⟩ := List.mem_map.mp listed
    exact ⟨old,(List.perm_insertionSort _ _).mem_iff.mp inside,checkDestination_same old⟩
  · intro old member
    have inside := (List.perm_insertionSort (fun a b : PlannedWrite => a.path ≤ b.path)
      plan.writes).mem_iff.mpr member
    exact ⟨_,List.mem_map_of_mem (List.mem_map_of_mem inside),checkDestination_same old⟩

theorem preflight_settled {u : Unit} (ran : preflight project library plan = (.ok u,plan'))
    (settled : Settled path data plan) : Settled path data plan' := by
  obtain ⟨_,back,forth⟩ := preflight_ran ran
  obtain ⟨⟨found,member,named,same⟩,each⟩ := settled
  obtain ⟨write,listed,named',same'⟩ := forth found member
  apply And.intro ⟨write,listed,named'.trans named,same'.trans same⟩
  intro other inside named''
  obtain ⟨old,known,path',data'⟩ := back other inside
  exact data'.trans (each old known (path'.symm.trans named''))

theorem preflight_has {u : Unit} (ran : preflight project library plan = (.ok u,plan'))
    (has : HasWrite path data plan) : HasWrite path data plan' := by
  obtain ⟨old,member,named,same⟩ := has
  obtain ⟨write,listed,named',same'⟩ := (preflight_ran ran).2.2 old member
  exact ⟨write,listed,named'.trans named,same'.trans same⟩

theorem preflight_unwritten {u : Unit} (ran : preflight project library plan = (.ok u,plan'))
    (fresh : Unwritten path plan) : Unwritten path plan' := by
  intro write member named
  obtain ⟨old,known,path',_⟩ := (preflight_ran ran).2.1 write member
  exact fresh old known (path'.symm.trans named)

end Writes

section Stages

variable {project : Project} {installation : Installation} {plan plan' : Plan}

theorem build_ok : build project installation = .ok plan ↔
    ∃ u, buildStep project installation emptyPlan = (.ok u,plan) := by
  unfold build
  rcases buildStep project installation emptyPlan with ⟨failure | u,final⟩
  · simp
  · simp

/-- The states of a translation that ends clean. -/
theorem translate_states {u : Unit} (ran : translate project installation plan = (.ok u,plan'))
    (clean : ¬ Refused plan') : ∃ target elected ledger obligated planned checked inputs,
      electTarget project installation plan = (.ok target,elected) ∧
      migrateLedger project installation.toLibrary elected = (.ok (),ledger) ∧
      migrateObligations project installation.toHost ledger = (.ok (),obligated) ∧
      ¬ Refused obligated ∧
      migratePlan project installation.toHost obligated = (.ok (),planned) ∧
      ¬ Refused planned ∧
      checkRequiredEvidence installation.toHost planned = (.ok (),checked) ∧
      ¬ Refused checked ∧
      migrateVerifiedInputs project installation checked = (.ok (),inputs) ∧
      migrateDispatch project installation.toHost installation.template target inputs =
        (.ok (),plan') := by
  obtain ⟨target,elected,elect,ran⟩ := Raising.bind_ran.mp ran
  obtain ⟨_,ledger,ledgered,ran⟩ := Raising.bind_ran.mp ran
  obtain ⟨_,obligated,obligate,ran⟩ := Raising.bind_ran.mp ran
  obtain ⟨_,planned,plan,ran⟩ := Raising.bind_ran.mp ran
  obtain ⟨_,checked,check,ran⟩ := Raising.bind_ran.mp ran
  obtain ⟨_,inputs,input,dispatch⟩ := Raising.bind_ran.mp ran
  have tolerates : Tolerates project (fun _ => True) Refused := refused_tolerates
  have cleanInputs := clean_before (keeps_migrateDispatch tolerates trivial) dispatch clean
  have cleanChecked := clean_before (keeps_migrateVerifiedInputs tolerates trivial) input cleanInputs
  have cleanPlanned := clean_before (keeps_checkRequiredEvidence tolerates) check cleanChecked
  have cleanObligated := clean_before (keeps_migratePlan refused_tools trivial) plan cleanPlanned
  exact ⟨target,elected,ledger,obligated,planned,checked,inputs,elect,ledgered,obligate,
    cleanObligated,plan,cleanPlanned,check,cleanChecked,input,dispatch⟩

/-- The states of a migration that is not blocked. -/
theorem build_states (built : build project installation = .ok plan) (clear : blocked plan = false) :
    ∃ scanned translated kept, scan project emptyPlan = (.ok (),scanned) ∧ ¬ Refused scanned ∧
      translate project installation scanned = (.ok (),translated) ∧ ¬ Refused translated ∧
      preserveHistory project translated = (.ok (),kept) ∧ ¬ Refused kept ∧
      preflight project installation.toLibrary kept = (.ok (),plan) := by
  obtain ⟨_,ran⟩ := build_ok.mp built
  have clean : ¬ Refused plan := by
    intro refused
    rw [blocked, Bool.or_eq_false_iff, Bool.not_eq_false', List.isEmpty_iff] at clear
    exact refused clear.1
  obtain ⟨_,kept,gathered,settle⟩ := Raising.bind_ran.mp ran
  obtain ⟨_,scanned,inventory,ran⟩ := Raising.bind_ran.mp gathered
  obtain ⟨_,translated,translation,history⟩ := Raising.bind_ran.mp ran
  have cleanKept : ¬ Refused kept := by
    rw [(preflight_ran settle).1] at clean
    exact clean
  have cleanTranslated :=
    clean_before (keeps_preserveHistory refused_tolerates (fun _ => trivial)) history cleanKept
  have cleanScanned :=
    clean_before (keeps_translate refused_claims refused_tools (fun _ => trivial)) translation
      cleanTranslated
  exact ⟨scanned,translated,kept,inventory,cleanScanned,translation,cleanTranslated,history,
    cleanKept,settle⟩

end Stages

end Migration

end EvidenceV4
