import EvidenceV4.MigrationRollback

/-!
# A single failure

When every call behind the one that has failed goes through, each of them is
possible: a parent directory that held a file is still there, a directory that was
made holds only what was made later. What is left is what was there before.
-/

set_option autoImplicit false

namespace EvidenceV4

namespace MigrationApply

open DiskTree
open CheckerJson (PyString points)
open Migration (PlannedWrite)

section Quiet

variable {run run' : Run} {effect : Disk → Option Disk} {disk : Disk} {path p : Place}

/-- No further call fails. -/
def Quiet (run : Run) : Prop := ∀ fault ∈ run.faults, fault = .passed

theorem Quiet.spent (quiet : Quiet run) : Quiet run.spent :=
  fun fault member => quiet fault (List.mem_of_mem_tail member)

theorem Quiet.head (quiet : Quiet run) : run.faults.headD .passed = .passed := by
  rw [Quiet] at quiet
  cases faults : run.faults with
  | nil => rfl
  | cons fault rest =>
    rw [faults] at quiet
    exact quiet fault List.mem_cons_self

theorem Quiet.call (quiet : Quiet run) (moved : effect run.disk = some disk) :
    call effect run = (.ok (),run.spent.onDisk disk) := by
  simp only [MigrationApply.call, system, quiet.head, moved]

theorem Quiet.onDisk (quiet : Quiet run) : Quiet (run.onDisk disk) := quiet

theorem Quiet.attempt (quiet : Quiet run) : Quiet (attempt effect run) := by
  simp only [MigrationApply.attempt, MigrationApply.call, system, quiet.head]
  cases effect run.disk with
  | none => exact quiet.spent
  | some disk => exact quiet.spent

theorem Quiet.attempt_disk (quiet : Quiet run) (moved : effect run.disk = some disk) :
    (MigrationApply.attempt effect run).disk = disk := by
  rw [MigrationApply.attempt, quiet.call moved]
  rfl

end Quiet

section Rollback

variable {before : Disk} {name : PyString} {writes : List PlannedWrite} {new : Place → Prop}
  {moved : Moved} {waiting rest finished : List Moved} {losses : Losses} {run run' : Run}
  {result : Except ApplyError Unit} {p : Place}

theorem restore_get (ran : restore moved run = (result,run')) (other : p ≠ moved.destination)
    (other' : moved.original ≠ some p) : get run'.disk p = get run.disk p := by
  rw [restore] at ran
  cases original : moved.original with
  | some path =>
    rw [original] at other'
    have apart : p ≠ path := fun same => other' (same ▸ rfl)
    simp only [original] at ran
    cases result with
    | ok _ =>
      obtain ⟨_,_,_,_,changed⟩ := replace_some (call_ok ran)
      rw [changed, Function.update_of_ne other, Function.update_of_ne apart]
    | error _ => rw [call_error ran]
  | none =>
    simp only [original] at ran
    split_ifs at ran
    · cases result with
      | ok _ =>
        obtain ⟨_,changed⟩ := unlink_some (call_ok ran)
        rw [changed, Function.update_of_ne other]
      | error _ => rw [call_error ran]
    · cases ran
      rfl

theorem rollback_get (free : ∀ m ∈ waiting, p ≠ m.destination ∧ m.original ≠ some p) :
    get (rollback waiting losses run).2.disk p = get run.disk p := by
  induction waiting generalizing losses run with
  | nil => rfl
  | cons moved rest ih =>
    have ⟨other,other'⟩ := free moved List.mem_cons_self
    have later := fun m member => free m (List.mem_cons_of_mem _ member)
    rw [rollback]
    rcases ran : restore moved run with ⟨error | _,run'⟩
    · exact (ih later).trans (restore_get ran other other')
    · exact (ih later).trans (restore_get ran other other')

/-- A directory that was there is still there. -/
theorem Undo.dir {disk : Disk} (undo : Undo before name new waiting finished ⟨[],[]⟩ disk)
    (outside : ¬Below p) (was : get before p = some .dir) : get disk p = some .dir := by
  have same : ∀ {q}, q = p → Same before disk new q → get disk p = some .dir := by
    intro q here same
    rw [here, Same, was] at same
    exact same.resolve_right (fun made => by cases made.1)
  by_cases pending : ∃ m ∈ waiting, m.destination = p
  · obtain ⟨m,member,here⟩ := pending
    have held := undo.held m member
    rw [Held] at held
    split at held
    · split_ifs at held
      · rw [here, was] at held
        cases held.1
      · exact same here held
    · obtain ⟨_,old,file,_⟩ := held
      rw [here, was] at file
      cases file
  · by_cases done : ∃ m ∈ finished, m.destination = p
    · obtain ⟨m,member,here⟩ := done
      apply same here
      exact (undo.settled m member).resolve_right (not_or.mpr ⟨by rintro ⟨⟩,by rintro ⟨⟩⟩)
    · apply same rfl
      exact undo.same p outside (fun m member here => pending ⟨m,member,here⟩)
        (fun m member here => done ⟨m,member,here⟩)

theorem restore_quiet (planned : Planned writes) (tree : Tree before) (quiet : Quiet run)
    (apart : Apart writes (moved :: rest) finished)
    (undo : Undo before name new (moved :: rest) finished ⟨[],[]⟩ run.disk) :
    ∃ run', restore moved run = (.ok (),run') ∧ Quiet run' := by
  obtain ⟨listed,place⟩ := apart.named moved List.mem_cons_self
  have held := undo.held moved List.mem_cons_self
  rw [restore]
  cases original : moved.original with
  | some path =>
    rw [Held, original] at held
    obtain ⟨_,old,was,kept,now⟩ := held
    have nonempty : moved.destination ≠ [] := by
      rw [place]
      exact (planned.place listed).2
    have parent := (tree.placed (by simp [was]) nonempty).2
    have outside : ¬Below moved.destination.dropLast := by
      rw [place]
      exact fun below => planned.clear listed (below.1.trans (List.dropLast_prefix _))
    have kind : get run.disk moved.destination ≠ some .dir := by
      split_ifs at now
      · obtain ⟨inode,found,_⟩ := now
        rw [found]
        rintro ⟨⟩
      · rw [now]
        rintro ⟨⟩
    have placed : Placed run.disk moved.destination := ⟨nonempty,undo.dir outside parent⟩
    exact ⟨_,quiet.call (replace_ready kept placed kind),quiet.spent⟩
  | none =>
    rw [Held, original] at held
    cases landed : moved.landed with
    | false => exact ⟨run,rfl,quiet⟩
    | true =>
      rw [landed, if_pos rfl] at held
      obtain ⟨_,inode,found,_⟩ := held
      have removed : unlink run.disk moved.destination = some (remove run.disk moved.destination) := by
        rw [unlink, found]
      have ran : call (fun disk => unlink disk moved.destination) run = _ := quiet.call removed
      exact ⟨_,ran,quiet.spent⟩

/-- Nothing is lost by a roll-back in which no call fails. -/
theorem rollback_quiet (planned : Planned writes) (tree : Tree before) (quiet : Quiet run)
    (apart : Apart writes waiting finished)
    (undo : Undo before name new waiting finished ⟨[],[]⟩ run.disk) :
    (rollback waiting ⟨[],[]⟩ run).1 = ⟨[],[]⟩ ∧ Quiet (rollback waiting ⟨[],[]⟩ run).2 := by
  induction waiting generalizing finished run with
  | nil => exact ⟨rfl,quiet⟩
  | cons moved rest ih =>
    have ⟨run',ran,quiet'⟩ := restore_quiet planned tree quiet apart undo
    rw [rollback, ran]
    exact ih quiet' apart.next (undo_restore planned apart undo ran)

end Rollback

section Cleaning

variable {before : Disk} {extra : Place → Prop} {created first : List Place} {run : Run} {c : Place}

/-- As before, apart from the staging prefix and from directories of `created` and `extra`. -/
def Bare (before : Disk) (extra : Place → Prop) (created : List Place) (disk : Disk) : Prop :=
  ∀ p, get disk p = get before p ∨ (p = stagingRoot ∧ get disk p = none) ∨
    (get before p = none ∧ get disk p = some .dir ∧ (p ∈ created ∨ extra p))

/-- The deepest directory that was made goes, unless it holds one of `extra`. -/
theorem Bare.rmdir (tree : Tree before) (quiet : Quiet run)
    (bare : Bare before extra (first ++ [c]) run.disk) (new : get before c = none)
    (order : ∀ a ∈ first, ¬c <+: a) (closed : ∀ p q, extra q → p <+: q → extra p) :
    Bare before extra first (attempt (fun disk => DiskTree.rmdir disk c) run).disk := by
  have away : ∀ p, p ≠ c → get (attempt (fun disk => DiskTree.rmdir disk c) run).disk p = get run.disk p := by
    intro p other
    cases attempt_rmdir run c p with
    | inl same => exact same
    | inr gone => exact absurd gone.1 other
  intro p
  by_cases here : p = c
  · subst here
    cases attempt_rmdir run p p with
    | inr gone =>
      apply Or.inl
      rw [gone.2.2, new]
    | inl same =>
      cases bare p with
      | inl kept => exact .inl (same.trans kept)
      | inr changed =>
        cases changed with
        | inl root => exact .inr (.inl ⟨root.1,same.trans root.2⟩)
        | inr made =>
          have ⟨_,there,_⟩ := made
          by_cases held : extra p
          · exact .inr (.inr ⟨new,same.trans there,.inr held⟩)
          · have nonempty : p ≠ [] := by
              rintro rfl
              rw [tree.root] at new
              cases new
            have free : ∀ q, p <+: q → q ≠ p → get run.disk q = none := by
              intro q below other
              have was := tree.absent new below
              cases bare q with
              | inl kept => rw [kept, was]
              | inr changed =>
                cases changed with
                | inl root => exact root.2
                | inr made =>
                  cases made.2.2 with
                  | inl listed =>
                    have earlier := (List.mem_append.mp listed).resolve_right
                      (fun last => other (List.mem_singleton.mp last))
                    exact absurd below (order q earlier)
                  | inr partly => exact absurd (closed p q partly below) held
            apply Or.inl
            rw [quiet.attempt_disk (rmdir_ready nonempty there free), get_remove,
              Function.update_self, new]
  · rw [away p here]
    apply (bare p).imp_right
    apply Or.imp_right
    intro made
    use made.1, made.2.1
    apply made.2.2.imp_left
    intro listed
    exact (List.mem_append.mp listed).resolve_right (fun last => here (List.mem_singleton.mp last))

theorem removeCreated_bare (tree : Tree before) (quiet : Quiet run)
    (bare : Bare before extra (first ++ created) run.disk)
    (new : ∀ c ∈ created, get before c = none)
    (order : (first ++ created).Pairwise (fun a b => ¬b <+: a))
    (closed : ∀ p q, extra q → p <+: q → extra p) :
    Bare before extra first (removeCreated created run).disk ∧ Quiet (removeCreated created run) := by
  induction created generalizing first with
  | nil =>
    rw [List.append_nil] at bare
    exact ⟨bare,quiet⟩
  | cons c rest ih =>
    have split : first ++ c :: rest = (first ++ [c]) ++ rest := by
      rw [List.append_assoc]
      rfl
    rw [split] at bare order
    have ⟨bare',quiet'⟩ := ih bare (fun d member => new d (List.mem_cons_of_mem _ member)) order
    have earlier := (List.pairwise_append.mp order).1
    rw [List.pairwise_append] at earlier
    constructor
    · apply bare'.rmdir tree quiet' (new c List.mem_cons_self) _ closed
      exact fun a member => earlier.2.2 a member c (List.mem_singleton_self c)
    · exact quiet'.attempt

end Cleaning

section Results

variable {before : Disk} {name : PyString} {writes : List PlannedWrite} {extra : Place → Prop}
  {run after : Run} {mode next : ℕ} {faults : List Fault} {error : ApplyError} {p : Place}

/-- Below the staging prefix everything is as before, once the directory of the run is gone. -/
theorem discarded_below (planned : Planned writes) (tree : Tree before) (quiet : Quiet run)
    (inv : Inv before name writes extra [] run.toWork) {restored : Run} (calm : Quiet restored)
    (rolled : restored = (rollback run.touched ⟨[],[]⟩ (dropRunDirectory run)).2) (below : Below p) :
    get (discardStaging run.staging restored).disk p = get before p := by
  have staging : ∀ path, run.staging = some path → path = runDirectory name :=
    fun path current => (inv.staging path current).1
  have outside : ∀ m ∈ run.touched, p ≠ m.destination := by
    rintro m member rfl
    obtain ⟨listed,place⟩ := inv.named m member
    rw [place] at below
    exact planned.not_below listed below
  by_cases inside : runDirectory name <+: p
  · cases current : run.staging with
    | some path =>
      obtain ⟨same,made⟩ := inv.staging path current
      obtain ⟨_,fresh,_⟩ := inv.made _ made
      have gone : get (removeTree path restored).disk p = none := by
        have cleared : (removeTree path restored).disk = rmtree restored.disk path [] := by
          simp only [removeTree, calm.head]
          rfl
        rw [cleared, same, get_rmtree, if_neg (by simp [inside])]
      rw [tree.absent fresh inside]
      cases attempt_rmdir (removeTree path restored) stagingRoot p with
      | inl kept => exact kept.trans gone
      | inr removed => exact removed.2.2
    | none =>
      have untouched : run.touched = [] := inv.idle current
      have dropped : restored = dropRunDirectory run := by
        rw [rolled, untouched]
        rfl
      have was : get (dropRunDirectory run).disk p = get before p := by
        rw [dropRunDirectory]
        cases made : run.made with
        | none =>
          dsimp only
          by_cases here : p = runDirectory name
          · rw [here]
            exact inv.unmade made
          · exact inv.empty current p ⟨inside,here⟩
        | some path =>
          obtain ⟨same,fresh,there⟩ := inv.made path made
          subst same
          simp only [current]
          have free : ∀ q, runDirectory name <+: q → q ≠ runDirectory name → get run.disk q = none := by
            intro q within other
            rw [inv.empty current q ⟨within,other⟩, tree.absent fresh within]
          have nonempty : runDirectory name ≠ [] := by simp [runDirectory, stagingRoot]
          rw [quiet.attempt_disk (rmdir_ready nonempty there free), get_remove]
          by_cases here : p = runDirectory name
          · rw [here, Function.update_self, fresh]
          · rw [Function.update_of_ne here]
            exact inv.empty current p ⟨inside,here⟩
      cases attempt_rmdir restored stagingRoot p with
      | inl kept =>
        rw [← was, ← dropped]
        exact kept
      | inr removed => exact absurd removed.1 below.2
  · have away : p ≠ runDirectory name := by
      rintro rfl
      exact inside List.prefix_rfl
    have dropped : get (dropRunDirectory run).disk p = get run.disk p := by
      rw [dropRunDirectory]
      split
      · rename_i path made _
        cases attempt_rmdir run path p with
        | inl kept => exact kept
        | inr gone => exact absurd (gone.1.trans (inv.made path made).1) away
      · rfl
    rw [discardStaging_get staging restored inside below.2, rolled, rollback_get, dropped]
    · exact inv.elsewhere p below inside
    · intro m member
      use outside m member
      intro original
      have held := inv.held m member
      rw [Held, original] at held
      exact inside (held.1 ▸ aside_ours.1)

theorem recover_quiet (planned : Planned writes) (tree : Tree before) (quiet : Quiet run)
    (inv : Inv before name writes extra [] run.toWork) (closed : ∀ p q, extra q → p <+: q → extra p) :
    Bare before extra [] (recover error run).disk := by
  have calm : Quiet (dropRunDirectory run) := by
    rw [dropRunDirectory]
    split
    · exact quiet.attempt
    · exact quiet
  have start := inv.undo planned
  obtain ⟨nothing,restored⟩ := rollback_quiet planned tree calm inv.run_apart start
  have undone := undo_rollback planned inv.run_apart start
  rw [List.append_nil, nothing] at undone
  generalize rolled : rollback run.touched ⟨[],[]⟩ (dropRunDirectory run) = result at undone nothing restored
  rcases result with ⟨losses,middle⟩
  dsimp only at undone nothing restored
  subst nothing
  have ended : (recover error run).disk =
      (removeCreated run.created (discardStaging run.staging middle)).disk := by
    rw [recover, rolled]
    simp
  have still : Quiet (discardStaging run.staging middle) := by
    cases current : run.staging with
    | none => exact Quiet.attempt restored
    | some path => exact Quiet.attempt restored.spent
  have bare : Bare before extra ([] ++ run.created) (discardStaging run.staging middle).disk := by
    intro p
    by_cases below : Below p
    · exact .inl (discarded_below planned tree quiet inv restored (by rw [rolled]) below)
    · have same : Same before middle.disk (fun p => p ∈ run.created ∨ extra p) p := by
        by_cases touched : ∃ m ∈ run.touched, m.destination = p
        · obtain ⟨m,member,here⟩ := touched
          have settled := undone.settled m (List.mem_reverse.mpr member)
          rw [here] at settled
          exact settled.resolve_right (not_or.mpr ⟨by rintro ⟨⟩,by rintro ⟨⟩⟩)
        · apply undone.same p below (by rintro _ ⟨⟩)
          exact fun m member here => touched ⟨m,List.mem_reverse.mp member,here⟩
      by_cases root : p = stagingRoot
      · subst root
        have away : ¬runDirectory name <+: stagingRoot := fun inside => (below_of_run inside).2 rfl
        have kept : get (discardStaging run.staging middle).disk stagingRoot = get middle.disk stagingRoot ∨
            get (discardStaging run.staging middle).disk stagingRoot = none := by
          cases current : run.staging with
          | none =>
            exact (attempt_rmdir middle stagingRoot stagingRoot).imp_right (fun gone => gone.2.2)
          | some path =>
            have cleared : get (removeTree path middle).disk stagingRoot = get middle.disk stagingRoot := by
              show get (rmtree _ _ _) _ = _
              rw [(inv.staging path current).1, get_rmtree, if_pos (.inl away)]
            rw [← cleared]
            exact (attempt_rmdir (removeTree path middle) stagingRoot stagingRoot).imp_right
              (fun gone => gone.2.2)
        cases kept with
        | inl kept =>
          rw [kept]
          exact same.imp_right .inr
        | inr gone => exact .inr (.inl ⟨rfl,gone⟩)
      · have outside : ¬runDirectory name <+: p := fun inside => below (below_of_run inside)
        rw [discardStaging_get (fun path current => (inv.staging path current).1) middle outside root]
        exact same.imp_right .inr
  rw [ended]
  exact (removeCreated_bare tree still bare (fun c member => (inv.created c member).1) inv.order closed).1

theorem failed_writes_restore (planned : Planned writes) (tree : Tree before)
    {ended : Except ApplyError Unit × Run} {applied : Applied}
    (ran : body mode name writes (start before faults next) = ended)
    (result : applyWrites mode name writes (start before faults next) = applied)
    (failed : ended.1 = .error error) (quiet : Quiet ended.2) (p : Place) :
    get applied.disk p = get before p ∨ (p = stagingRoot ∧ get applied.disk p = none) ∨
      (get before p = none ∧ get applied.disk p = some .dir ∧ p <+: goal ended.2.toWork ∧
        get ended.2.disk (goal ended.2.toWork) ≠ some .dir) := by
  rcases ended with ⟨_,after⟩
  dsimp only at failed quiet ⊢
  subst failed
  have final : applied.disk = (recover error after).disk := by
    rw [← result, applyWrites, ran]
  rw [final]
  cases start_body planned tree ran with
  | inl inv =>
    have bare : Bare before _ [] (recover error after).disk :=
      recover_quiet planned tree quiet inv (fun _ _ none _ => none)
    apply (bare p).imp_right
    apply Or.imp_right
    intro made
    exact made.2.2.elim (by rintro ⟨⟩) False.elim
  | inr partly =>
    obtain ⟨inv,missing⟩ := partly
    have closed : ∀ p q, q <+: goal after.toWork → p <+: q → p <+: goal after.toWork :=
      fun _ _ way below => below.trans way
    have bare : Bare before _ [] (recover error after).disk :=
      recover_quiet planned tree quiet inv closed
    apply (bare p).imp_right
    apply Or.imp_right
    intro made
    exact ⟨made.1,made.2.1,made.2.2.elim (by rintro ⟨⟩) (fun way => way),missing⟩

def sampleBody (faults : List Fault) : Except ApplyError Unit × Run :=
  body 420 (points "r") (pendingWrites samplePlan) (start sampleDisk faults 100)

theorem sampleBody_eq (faults : List Fault) : body 420 (points "r") (pendingWrites samplePlan)
    (start sampleDisk faults 100) = sampleBody faults := rfl

/-- The second of two directories cannot be made. -/
def directoryFault : List Fault := List.replicate 25 .passed ++ [.refused]

/-- A directory of the call that has failed stays. -/
example : get (sampleApply directoryFault).disk [fv,points "history"] = some .dir := by decide +kernel

end Results

end MigrationApply

end EvidenceV4
