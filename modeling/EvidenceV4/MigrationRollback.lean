import EvidenceV4.MigrationMoves

/-!
# What a failed migration leaves behind

The roll-back puts the originals back from where their records say that they are.
Where a call of the roll-back fails as well, the destination is reported and its
original is kept. When no call behind the first failure fails, everything is as it
was, apart from directories of the call that has failed.
-/

set_option autoImplicit false

namespace EvidenceV4

namespace MigrationApply

open DiskTree
open CheckerJson (PyString points)
open Migration (PlannedWrite)

section Undo

variable {before disk disk' : Disk} {name : PyString} {writes : List PlannedWrite} {new : Place → Prop}
  {moved : Moved} {rest finished : List Moved} {losses : Losses} {run run' : Run}

/-- The destinations of `waiting` are still to be put back, those of `finished` are, or are
reported. -/
structure Undo (before : Disk) (name : PyString) (new : Place → Prop) (waiting finished : List Moved)
    (losses : Losses) (disk : Disk) : Prop where
  tree : Tree disk
  same : ∀ p, ¬Below p → (∀ m ∈ waiting, m.destination ≠ p) → (∀ m ∈ finished, m.destination ≠ p) →
    Same before disk new p
  held : ∀ m ∈ waiting, Held before disk name new m
  settled : ∀ m ∈ finished, Same before disk new m.destination ∨
    m.write.path ∈ losses.stranded ∨ m.write.path ∈ losses.lost
  stranded : ∀ path ∈ losses.stranded, ∃ m ∈ finished, m.write.path = path ∧ m.landed = true ∧
    Held before disk name new m
  lost : ∀ path ∈ losses.lost, ∃ m ∈ finished, m.write.path = path ∧ m.landed = false ∧
    m.original ≠ none ∧ Held before disk name new m

/-- The destinations of all records differ, and none is in the staging tree. -/
structure Apart (writes : List PlannedWrite) (waiting finished : List Moved) : Prop where
  distinct : ((waiting ++ finished).map Moved.destination).Nodup
  named : ∀ m ∈ waiting ++ finished, m.write ∈ writes ∧ m.destination = destination m.write

theorem Apart.next (apart : Apart writes (moved :: rest) finished) :
    Apart writes rest (moved :: finished) where
  distinct := by
    have same : (rest ++ moved :: finished).Perm (moved :: rest ++ finished) := List.perm_middle
    exact (same.map Moved.destination).nodup_iff.mpr apart.distinct
  named := fun m member => apart.named m (List.perm_middle.mem_iff.mp member)

theorem Apart.ne (apart : Apart writes (moved :: rest) finished) {m : Moved}
    (member : m ∈ rest ++ finished) : m.destination ≠ moved.destination := by
  have distinct := apart.distinct
  rw [List.cons_append, List.map_cons, List.nodup_cons] at distinct
  intro same
  exact distinct.1 (same ▸ List.mem_map_of_mem member)

/-- One record is put back, and the places of the others stay. -/
theorem Undo.put (undo : Undo before name new (moved :: rest) finished losses disk)
    (tree : Tree disk') (restored : Same before disk' new moved.destination)
    (others : ∀ m ∈ rest ++ finished, Held before disk name new m → Held before disk' name new m)
    (settled : ∀ m ∈ finished, get disk' m.destination = get disk m.destination)
    (clear : ∀ p, ¬Below p → p ≠ moved.destination → get disk' p = get disk p) :
    Undo before name new rest (moved :: finished) losses disk' where
  tree := tree
  same := by
    intro p outside free free'
    have other : p ≠ moved.destination := fun same => free' moved List.mem_cons_self same.symm
    rw [Same, clear p outside other]
    apply undo.same p outside
    · intro m member
      cases List.mem_cons.mp member with
      | inl same => exact same ▸ other.symm
      | inr later => exact free m later
    · exact fun m member => free' m (List.mem_cons_of_mem _ member)
  held := fun m member => others m (List.mem_append_left _ member)
    (undo.held m (List.mem_cons_of_mem _ member))
  settled := by
    intro m member
    cases List.mem_cons.mp member with
    | inl same => exact .inl (same ▸ restored)
    | inr earlier =>
      rw [Same, settled m earlier]
      exact undo.settled m earlier
  stranded := by
    intro path reported
    obtain ⟨m,member,same,landed,held⟩ := undo.stranded path reported
    exact ⟨m,List.mem_cons_of_mem _ member,same,landed,others m (List.mem_append_right _ member) held⟩
  lost := by
    intro path reported
    obtain ⟨m,member,same,landed,taken,held⟩ := undo.lost path reported
    exact ⟨m,List.mem_cons_of_mem _ member,same,landed,taken,
      others m (List.mem_append_right _ member) held⟩

/-- One record cannot be put back. -/
theorem Undo.report (undo : Undo before name new (moved :: rest) finished losses disk)
    (taken : moved.landed = false → moved.original ≠ none) :
    Undo before name new rest (moved :: finished) (losses.add moved) disk := by
  have held := undo.held moved List.mem_cons_self
  have same : ∀ p, ¬Below p → (∀ m ∈ rest, m.destination ≠ p) →
      (∀ m ∈ moved :: finished, m.destination ≠ p) → Same before disk new p := by
    intro p outside free free'
    apply undo.same p outside
    · intro m member
      cases List.mem_cons.mp member with
      | inl same => exact free' m (same ▸ List.mem_cons_self)
      | inr later => exact free m later
    · exact fun m member => free' m (List.mem_cons_of_mem _ member)
  have before' := fun m member => undo.held m (List.mem_cons_of_mem _ member)
  cases landed : moved.landed with
  | true =>
    rw [Losses.add, if_pos landed]
    constructor
    · exact undo.tree
    · exact same
    · exact before'
    · intro m member
      cases List.mem_cons.mp member with
      | inl same =>
        subst same
        exact .inr (.inl List.mem_cons_self)
      | inr earlier =>
        exact (undo.settled m earlier).imp_right (Or.imp_left (List.mem_cons_of_mem _))
    · intro path reported
      cases List.mem_cons.mp reported with
      | inl same => exact ⟨moved,List.mem_cons_self,same.symm,landed,held⟩
      | inr earlier =>
        have ⟨m,member,rest⟩ := undo.stranded path earlier
        exact ⟨m,List.mem_cons_of_mem _ member,rest⟩
    · intro path reported
      have ⟨m,member,rest⟩ := undo.lost path reported
      exact ⟨m,List.mem_cons_of_mem _ member,rest⟩
  | false =>
    rw [Losses.add, if_neg (by simp [landed])]
    constructor
    · exact undo.tree
    · exact same
    · exact before'
    · intro m member
      cases List.mem_cons.mp member with
      | inl same =>
        subst same
        exact .inr (.inr List.mem_cons_self)
      | inr earlier =>
        exact (undo.settled m earlier).imp_right (Or.imp_right (List.mem_cons_of_mem _))
    · intro path reported
      have ⟨m,member,rest⟩ := undo.stranded path reported
      exact ⟨m,List.mem_cons_of_mem _ member,rest⟩
    · intro path reported
      cases List.mem_cons.mp reported with
      | inl same => exact ⟨moved,List.mem_cons_self,same.symm,landed,taken landed,held⟩
      | inr earlier =>
        have ⟨m,member,rest⟩ := undo.lost path earlier
        exact ⟨m,List.mem_cons_of_mem _ member,rest⟩

theorem call_ok {effect : Disk → Option Disk} (ran : call effect run = (.ok (),run')) :
    effect run.disk = some run'.disk := by
  rw [call, system] at ran
  split at ran
  · cases moved : effect run.disk with
    | some disk =>
      rw [moved] at ran
      cases ran
      rfl
    | none =>
      rw [moved] at ran
      cases ran
  · cases ran
  · cases ran

theorem call_error {effect : Disk → Option Disk} {error : ApplyError}
    (ran : call effect run = (.error error,run')) : run'.disk = run.disk := by
  rw [call, system] at ran
  split at ran
  · cases moved : effect run.disk with
    | some disk =>
      rw [moved] at ran
      cases ran
    | none =>
      rw [moved] at ran
      cases ran
      rfl
  · cases ran
    rfl
  · cases ran
    rfl

/-- What putting one record back does to the disk. -/
theorem undo_restore (planned : Planned writes) (apart : Apart writes (moved :: rest) finished)
    (undo : Undo before name new (moved :: rest) finished losses run.disk)
    (ran : restore moved run = (.ok (),run')) :
    Undo before name new rest (moved :: finished) losses run'.disk := by
  obtain ⟨listed,place⟩ := apart.named moved List.mem_cons_self
  have outside : ¬Below moved.destination := by
    rw [place]
    exact planned.not_below listed
  have held := undo.held moved List.mem_cons_self
  have frame : ∀ {disk : Disk} {q : Place}, (∀ p, p ≠ moved.destination → p ≠ q → get disk p = get run.disk p) →
      (∀ m ∈ rest ++ finished, m.destination ≠ q) →
      (∀ m ∈ rest ++ finished, aside (runDirectory name) m.write ≠ q) →
      ∀ m ∈ rest ++ finished, Held before run.disk name new m → Held before disk name new m := by
    intro disk q agree clear asides m member held
    obtain ⟨listed',place'⟩ := apart.named m (List.mem_cons_of_mem _ member)
    apply held.frame (agree _ (apart.ne member) (clear m member))
    intro path original
    rw [Held, original] at held
    rw [held.1]
    apply agree _ _ (asides m member)
    intro same
    exact outside (same ▸ below_of_run aside_ours.1)
  have clear' : ∀ m ∈ rest ++ finished, ¬Below m.destination := by
    intro m member
    obtain ⟨listed',place'⟩ := apart.named m (List.mem_cons_of_mem _ member)
    rw [place']
    exact planned.not_below listed'
  rw [restore] at ran
  cases original : moved.original with
  | some path =>
    simp only [original] at ran
    rw [Held, original] at held
    obtain ⟨same,old,was,kept,_⟩ := held
    obtain ⟨_,found,_,_,changed⟩ := replace_some (call_ok ran)
    rw [kept] at found
    cases found
    have agree : ∀ p, p ≠ moved.destination → p ≠ path → get run'.disk p = get run.disk p := by
      intro p other other'
      rw [changed, Function.update_of_ne other, Function.update_of_ne other']
    have away : ∀ p, ¬Below p → p ≠ path := by
      rintro p clear rfl
      rw [same] at clear
      exact clear (below_of_run aside_ours.1)
    apply undo.put (replace_tree undo.tree (call_ok ran))
    · apply Or.inl
      rw [changed, Function.update_self, was]
    · apply frame agree
      · exact fun m member => away _ (clear' m member)
      · intro m member back
        obtain ⟨listed',place'⟩ := apart.named m (List.mem_cons_of_mem _ member)
        have twice := planned.aside_inj listed' listed (back.trans same)
        rw [← place', ← place] at twice
        exact apart.ne member twice
    · exact fun m member => agree _ (apart.ne (List.mem_append_right _ member))
        (away _ (clear' m (List.mem_append_right _ member)))
    · exact fun p clear other => agree p other (away p clear)
  | none =>
    simp only [original] at ran
    rw [Held, original] at held
    cases landed : moved.landed with
    | false =>
      rw [landed] at ran held
      cases ran
      exact undo.put undo.tree held (fun _ _ held => held) (fun _ _ => rfl) (fun _ _ _ => rfl)
    | true =>
      rw [landed, if_pos rfl] at ran held
      obtain ⟨_,changed⟩ := unlink_some (call_ok ran)
      have agree : ∀ p, p ≠ moved.destination → p ≠ moved.destination → get run'.disk p = get run.disk p := by
        intro p other _
        rw [changed, Function.update_of_ne other]
      apply undo.put (unlink_tree undo.tree (call_ok ran))
      · apply Or.inl
        rw [changed, Function.update_self, held.1]
      · apply frame agree
        · exact fun m member => apart.ne member
        · intro m member back
          exact outside (back ▸ below_of_run aside_ours.1)
      · exact fun m member => agree _ (apart.ne (List.mem_append_right _ member))
          (apart.ne (List.mem_append_right _ member))
      · exact fun p _ other => agree p other other

theorem undo_failed {error : ApplyError} (ran : restore moved run = (.error error,run'))
    (undo : Undo before name new (moved :: rest) finished losses run.disk) :
    Undo before name new rest (moved :: finished) (losses.add moved) run'.disk := by
  rw [restore] at ran
  cases original : moved.original with
  | some path =>
    simp only [original] at ran
    rw [call_error ran]
    apply undo.report
    intro _
    rw [original]
    exact nofun
  | none =>
    simp only [original] at ran
    cases landed : moved.landed with
    | false =>
      rw [landed] at ran
      cases ran
    | true =>
      rw [landed, if_pos rfl] at ran
      rw [call_error ran]
      apply undo.report
      rw [landed]
      exact nofun

/-- The roll-back puts every record back or reports it. -/
theorem undo_rollback (planned : Planned writes) {waiting finished : List Moved} {losses : Losses}
    {run : Run} (apart : Apart writes waiting finished)
    (undo : Undo before name new waiting finished losses run.disk) :
    Undo before name new [] (waiting.reverse ++ finished) (rollback waiting losses run).1
      (rollback waiting losses run).2.disk := by
  induction waiting generalizing finished losses run with
  | nil => exact undo
  | cons moved rest ih =>
    rw [rollback, List.reverse_cons, List.append_assoc]
    rcases ran : restore moved run with ⟨error | _,run'⟩
    · exact ih apart.next (undo_failed ran undo)
    · exact ih apart.next (undo_restore planned apart undo ran)

end Undo

section Cleaning

variable {before : Disk} {name : PyString} {writes : List PlannedWrite} {extra : Place → Prop}
  {run : Run} {p path : Place} {created : List Place}

theorem attempt_disk {effect : Disk → Option Disk} :
    (attempt effect run).disk = run.disk ∨ effect run.disk = some (attempt effect run).disk := by
  rw [attempt]
  rcases ran : call effect run with ⟨error | _,after⟩
  · exact .inl (call_error ran)
  · exact .inr (call_ok ran)

/-- An attempt to remove a directory takes away at most that directory. -/
theorem attempt_rmdir (run : Run) (path p : Place) :
    get (attempt (fun disk => rmdir disk path) run).disk p = get run.disk p ∨
      p = path ∧ get run.disk p = some .dir ∧
        get (attempt (fun disk => rmdir disk path) run).disk p = none := by
  cases @attempt_disk run (fun disk => rmdir disk path) with
  | inl same => exact .inl (by rw [same])
  | inr removed =>
    have ⟨_,found,_,changed⟩ := rmdir_some removed
    by_cases here : p = path
    · subst here
      exact .inr ⟨rfl,found,by rw [changed, Function.update_self]⟩
    · exact .inl (by rw [changed, Function.update_of_ne here])

theorem attempt_tree (tree : Tree run.disk) :
    Tree (attempt (fun disk => rmdir disk path) run).disk := by
  cases @attempt_disk run (fun disk => rmdir disk path) with
  | inl same => exact same ▸ tree
  | inr removed => exact rmdir_tree tree removed

theorem removeCreated_get (created : List Place) (run : Run) (p : Place) :
    get (removeCreated created run).disk p = get run.disk p ∨
      p ∈ created ∧ get run.disk p = some .dir ∧ get (removeCreated created run).disk p = none := by
  induction created with
  | nil => exact .inl rfl
  | cons c rest ih =>
    have last := attempt_rmdir (removeCreated rest run) c p
    rw [show removeCreated (c :: rest) run =
      attempt (fun disk => rmdir disk c) (removeCreated rest run) from rfl]
    cases last with
    | inl same =>
      rw [same]
      exact ih.imp_right (fun gone => ⟨List.mem_cons_of_mem _ gone.1,gone.2⟩)
    | inr removed =>
      have ⟨here,there,gone⟩ := removed
      cases ih with
      | inl same =>
        rw [same] at there
        exact .inr ⟨here ▸ List.mem_cons_self,there,gone⟩
      | inr earlier =>
        rw [earlier.2.2] at there
        cases there

theorem discardStaging_get (staging : ∀ path, run.staging = some path → path = runDirectory name)
    (state : Run) (away : ¬runDirectory name <+: p) (other : p ≠ stagingRoot) :
    get (discardStaging run.staging state).disk p = get state.disk p := by
  have removed : ∀ middle : Run, get middle.disk p = get state.disk p →
      get (attempt (fun disk => rmdir disk stagingRoot) middle).disk p = get state.disk p := by
    intro middle same
    cases attempt_rmdir middle stagingRoot p with
    | inl kept => rw [kept, same]
    | inr gone => exact absurd gone.1 other
  cases current : run.staging with
  | none => exact removed state rfl
  | some path =>
    apply removed
    show get (rmtree _ _ _) p = _
    rw [staging path current, get_rmtree, if_pos (.inl away)]

end Cleaning

section Results

variable {before disk : Disk} {name : PyString} {writes : List PlannedWrite} {extra : Place → Prop}
  {run : Run} {mode next : ℕ} {faults : List Fault} {error : ApplyError} {p : Place}

/-- The place is as it was, or a directory where nothing was. -/
def Kept (before disk : Disk) (p : Place) : Prop :=
  get disk p = get before p ∨ get before p = none ∧ get disk p = some .dir

/-- What the report says of a write, against what was there before. -/
structure Reported (before disk : Disk) (name : PyString) (write : PlannedWrite)
    (outcome : Outcome) : Prop where
  written : outcome = .written →
    (∃ inode, get disk (destination write) = some (.file inode) ∧ Fits write inode) ∧
      ∀ old, get before (destination write) = some (.file old) →
        get disk (aside (runDirectory name) write) = some (.file old)
  lost : outcome = .lost → get disk (destination write) = none ∧
    ∃ old, get before (destination write) = some (.file old) ∧
      get disk (aside (runDirectory name) write) = some (.file old)
  kept : outcome ≠ .written → outcome ≠ .lost → Kept before disk (destination write)

theorem Same.kept {new : Place → Prop} (same : Same before disk new p) : Kept before disk p :=
  same.imp_right (fun made => ⟨made.1,made.2.1⟩)

theorem Broken.inv {work : Work} (broken : Broken before name writes work) :
    ∃ extra, Inv before name writes extra [] work := by
  cases broken with
  | inl exact => exact ⟨_,exact⟩
  | inr partly => exact ⟨_,partly.1⟩

theorem Inv.run_apart {work : Work} (inv : Inv before name writes extra [] work) :
    Apart writes work.touched [] := by
  constructor
  · rw [List.append_nil]
    exact inv.apart
  · rw [List.append_nil]
    exact inv.named

/-- The roll-back starts from what its records say, also behind the removal of a run directory that
its guard has refused. -/
theorem Inv.undo (planned : Planned writes) (inv : Inv before name writes extra [] run.toWork) :
    Undo before name (fun p => p ∈ run.created ∨ extra p) run.touched [] ⟨[],[]⟩
      (dropRunDirectory run).disk := by
  have drop : Tree (dropRunDirectory run).disk ∧ ∀ p, p ≠ runDirectory name →
      get (dropRunDirectory run).disk p = get run.disk p := by
    rw [dropRunDirectory]
    split
    · rename_i path made _
      use attempt_tree inv.tree
      intro p other
      cases attempt_rmdir run path p with
      | inl same => exact same
      | inr gone => exact absurd (gone.1.trans (inv.made path made).1) other
    · exact ⟨inv.tree,fun _ _ => rfl⟩
  obtain ⟨tree,agree⟩ := drop
  have clear : ∀ p, ¬Below p → p ≠ runDirectory name := by
    rintro p outside rfl
    exact outside root_below
  constructor
  · exact tree
  · intro p outside free _
    rw [Same, agree p (clear p outside)]
    exact inv.same p outside free
  · intro m member
    obtain ⟨listed,place⟩ := inv.named m member
    have outside : ¬Below m.destination := by
      rw [place]
      exact planned.not_below listed
    have held := inv.held m member
    apply held.frame (agree _ (clear _ outside))
    intro path original
    rw [Held, original] at held
    apply agree
    rw [held.1]
    exact aside_ours.2
  · rintro _ ⟨⟩
  · rintro _ ⟨⟩
  · rintro _ ⟨⟩

theorem start_body (planned : Planned writes) (tree : Tree before) {after : Run}
    (ran : body mode name writes (start before faults next) = (.error error,after)) :
    Broken before name writes after.toWork :=
  Raising.triple_error (does_body planned tree) rfl ran

theorem Planned.path_inj (planned : Planned writes) {write write' : PlannedWrite}
    (member : write ∈ writes) (member' : write' ∈ writes) (same : write.path = write'.path) :
    write = write' := by
  apply List.inj_on_of_nodup_map planned.distinct member member'
  rw [destination, same]
  rfl

/-- The state in which `recover` ends, from one in which a call has failed. -/
theorem recover_keeps (planned : Planned writes) (inv : Inv before name writes extra [] run.toWork) :
    (∀ p, ¬stagingRoot <+: p → (∀ w ∈ writes, destination w ≠ p) →
      Kept before (recover error run).disk p) ∧
    ∀ w ∈ writes, Reported before (recover error run).disk name w ((recover error run).outcome w) := by
  have undone := undo_rollback planned inv.run_apart (inv.undo planned)
  rw [List.append_nil] at undone
  have apart := inv.apart
  generalize rolled : rollback run.touched ⟨[],[]⟩ (dropRunDirectory run) = result at undone
  rcases result with ⟨losses,restored⟩
  dsimp only at undone
  let cleaned :=
    if losses.stranded = [] ∧ losses.lost = [] then discardStaging run.staging restored else restored
  have ended : recover error run = ⟨.error error,(removeCreated run.created cleaned).disk,
      outcome run losses⟩ := by
    rw [recover, rolled]
  have staging : ∀ path, run.staging = some path → path = runDirectory name :=
    fun path current => (inv.staging path current).1
  have cleaned_get : ∀ p, ¬stagingRoot <+: p → get cleaned.disk p = get restored.disk p := by
    intro p outside
    show get (if _ then _ else _ : Run).disk p = _
    split_ifs
    · apply discardStaging_get staging restored
      · exact fun below => outside ((List.prefix_append _ _).trans below)
      · rintro rfl
        exact outside List.prefix_rfl
    · rfl
  have kept : ∀ p, ¬stagingRoot <+: p → Kept before restored.disk p →
      Kept before (removeCreated run.created cleaned).disk p := by
    intro p outside kept
    have same := cleaned_get p outside
    cases removeCreated_get run.created cleaned p with
    | inl stays =>
      rw [Kept, stays, same]
      exact kept
    | inr gone => exact .inl (by rw [gone.2.2, (inv.created p gone.1).1])
  have untouched : ∀ p, ¬stagingRoot <+: p → (∀ m ∈ run.touched, m.destination ≠ p) →
      Kept before restored.disk p := by
    intro p outside free
    apply (undone.same p (fun below => outside below.1) (by rintro _ ⟨⟩) _).kept
    exact fun m member => free m (List.mem_reverse.mp member)
  rw [ended]
  constructor
  · intro p outside free
    apply kept p outside
    apply untouched p outside
    intro m member same
    obtain ⟨listed,place⟩ := inv.named m member
    exact free m.write listed (place.symm.trans same)
  · intro w member
    have outside := planned.clear member
    have record : ∀ m, m ∈ run.touched.reverse → m.write.path = w.path →
        m.write = w ∧ m.destination = destination w := by
      intro m inside same
      obtain ⟨listed,place⟩ := inv.named m (List.mem_reverse.mp inside)
      have equal := planned.path_inj listed member same
      exact ⟨equal,equal ▸ place⟩
    have files : ∀ p inode, cleaned = restored → get restored.disk p = some (.file inode) →
        get (removeCreated run.created cleaned).disk p = some (.file inode) := by
      intro p inode same found
      rw [same]
      cases removeCreated_get run.created restored p with
      | inl stays => rw [stays, found]
      | inr gone =>
        rw [found] at gone
        cases gone.2.1
    show Reported before _ name w (outcome run losses w)
    constructor
    · intro written
      have stranded : w.path ∈ losses.stranded := by
        by_contra other
        rw [outcome, if_neg other] at written
        split_ifs at written
      have whole : cleaned = restored := if_neg (fun none => by
        rw [none.1] at stranded
        cases stranded)
      obtain ⟨m,inside,same,landed,held⟩ := undone.stranded w.path stranded
      obtain ⟨equal,place⟩ := record m inside same
      rw [Held, if_pos landed] at held
      cases original : m.original with
      | none =>
        simp only [original] at held
        obtain ⟨fresh,inode,found,fits⟩ := held
        rw [place] at fresh found
        use ⟨inode,files _ _ whole found,equal ▸ fits⟩
        rw [fresh]
        rintro _ ⟨⟩
      | some path =>
        simp only [original] at held
        obtain ⟨where',old,was,saved,landed⟩ := held
        rw [if_pos ‹_›] at landed
        obtain ⟨inode,found,fits⟩ := landed
        rw [place] at was found
        use ⟨inode,files _ _ whole found,equal ▸ fits⟩
        intro old' before'
        rw [was] at before'
        cases before'
        rw [← equal, ← where']
        exact files _ _ whole saved
    · intro reported
      have lost : w.path ∈ losses.lost := by
        by_contra other
        rw [outcome, if_neg other] at reported
        split_ifs at reported
      have whole : cleaned = restored := if_neg (fun none => by
        rw [none.2] at lost
        cases lost)
      obtain ⟨m,inside,same,waits,taken,held⟩ := undone.lost w.path lost
      obtain ⟨equal,place⟩ := record m inside same
      obtain ⟨path,original⟩ := Option.ne_none_iff_exists'.mp taken
      rw [Held, original] at held
      obtain ⟨where',old,was,saved,gone⟩ := held
      rw [if_neg (by simp [waits])] at gone
      rw [place] at was gone
      constructor
      · show get (removeCreated run.created cleaned).disk _ = none
        rw [whole]
        cases removeCreated_get run.created restored (destination w) with
        | inl stays => rw [stays, gone]
        | inr removed => exact removed.2.2
      · use old, was
        rw [← equal, ← where']
        exact files _ _ whole saved
    · intro unwritten found
      have stranded : w.path ∉ losses.stranded := fun stranded => unwritten (if_pos stranded)
      have lost : w.path ∉ losses.lost := by
        intro lost
        rw [outcome, if_neg stranded, if_pos lost] at found
        exact found rfl
      apply kept _ outside
      by_cases touched : ∃ m ∈ run.touched, m.destination = destination w
      · obtain ⟨m,inside,same⟩ := touched
        obtain ⟨listed,place⟩ := inv.named m inside
        have equal : m.write = w := by
          apply List.inj_on_of_nodup_map planned.distinct listed member
          rw [← place, same]
        cases undone.settled m (List.mem_reverse.mpr inside) with
        | inl restored => exact same ▸ restored.kept
        | inr reported =>
          rw [equal] at reported
          exact absurd reported (not_or.mpr ⟨stranded,lost⟩)
      · apply untouched _ outside
        exact fun m inside same => touched ⟨m,inside,same⟩

theorem failed_writes_keep (planned : Planned writes) (tree : Tree before) {applied : Applied}
    (ran : applyWrites mode name writes (start before faults next) = applied)
    (failed : applied.result = .error error) :
    (∀ p, ¬stagingRoot <+: p → (∀ w ∈ writes, destination w ≠ p) → Kept before applied.disk p) ∧
    ∀ w ∈ writes, Reported before applied.disk name w (applied.outcome w) := by
  subst ran
  rw [applyWrites] at failed ⊢
  rcases ran : body mode name writes (start before faults next) with ⟨error' | _,after⟩
  · have ⟨extra,inv⟩ := (start_body planned tree ran).inv
    exact recover_keeps planned inv
  · rw [ran] at failed
    cases failed

theorem writes_land (planned : Planned writes) (tree : Tree before) {applied : Applied}
    {paths : List PyString} (ran : applyWrites mode name writes (start before faults next) = applied)
    (done : applied.result = .ok paths) :
    paths = writes.map PlannedWrite.path ∧
    (∀ w ∈ writes, ∃ inode, get applied.disk (destination w) = some (.file inode) ∧ Fits w inode) ∧
    (∀ p, ¬stagingRoot <+: p → (∀ w ∈ writes, destination w ≠ p) → Kept before applied.disk p) ∧
    ∀ p, Below p → ¬runDirectory name <+: p → get applied.disk p = get before p := by
  subst ran
  rw [applyWrites] at done ⊢
  rcases ran : body mode name writes (start before faults next) with ⟨error | _,after⟩
  · rw [ran] at done
    cases done
  · rw [ran] at done
    cases done
    have moved : MovingTo before name writes [] writes after.toWork :=
      Raising.triple_ok (does_body planned tree) rfl ran
    have inv := moved.exact
    have staging : ∀ path, after.staging = some path → path = runDirectory name :=
      fun path current => (inv.staging path current).1
    have outside : ∀ p, ¬stagingRoot <+: p →
        get (discardStaging after.staging after).disk p = get after.disk p := by
      intro p clear
      apply discardStaging_get staging after
      · exact fun below => clear ((List.prefix_append _ _).trans below)
      · rintro rfl
        exact clear List.prefix_rfl
    have listed : after.touched.reverse.map Moved.write = writes := by
      rw [List.map_reverse, moved.touched, List.reverse_reverse]
    have touched : ∀ w ∈ writes, ∃ m ∈ after.touched, m.write = w := by
      intro w member
      rw [← listed] at member
      have ⟨m,inside,same⟩ := List.mem_map.mp member
      exact ⟨m,List.mem_reverse.mp inside,same⟩
    constructor
    · calc after.touched.reverse.map (fun moved => moved.write.path)
          = (after.touched.reverse.map Moved.write).map PlannedWrite.path := by
            rw [List.map_map]
            rfl
        _ = writes.map PlannedWrite.path := by rw [listed]
    · constructor
      · intro w member
        have ⟨m,inside,same⟩ := touched w member
        have ⟨inode,found,fits⟩ := inv.landed inside (moved.landed m inside)
        have place := (inv.named m inside).2
        use inode
        rw [same] at fits place
        rw [place] at found
        exact ⟨(outside _ (planned.clear member)).trans found,fits⟩
      · constructor
        · intro p clear free
          rw [Kept, outside p clear]
          apply (inv.same p (fun below => clear below.1) _).kept
          intro m inside same
          have ⟨member,place⟩ := inv.named m inside
          exact free m.write member (place.symm.trans same)
        · intro p below other
          rw [← inv.elsewhere p below other]
          exact discardStaging_get staging after other below.2

/-- One file that is there is rewritten, and one is written two directories down. -/
def dispatchWrite : PlannedWrite := ⟨points ".fv/dispatch.json",[1,2],.adopt,some 384,true,false,[]⟩

def ledgerWrite : PlannedWrite := ⟨points ".fv/history/runs/ledger.md",[3],.create,none,false,false,[]⟩

def sampleDisk : Disk :=
  [([],.dir),([fv],.dir),([fv,points "dispatch.json"],.file ⟨7,[9],384⟩)]

def samplePlan : Migration.Plan := { Migration.emptyPlan with writes := [ledgerWrite,dispatchWrite] }

theorem samplePending : pendingWrites samplePlan = [dispatchWrite,ledgerWrite] := by
  have order : ¬ledgerWrite.path ≤ dispatchWrite.path := by decide +kernel
  simp only [pendingWrites, samplePlan, Migration.emptyPlan, List.insertionSort_cons,
    List.insertionSort_nil, List.orderedInsert, if_neg order]
  rfl

def sampleApply (faults : List Fault) : Applied :=
  apply 420 (points "r") samplePlan (start sampleDisk faults 100)

theorem sampleApply_eq (faults : List Fault) :
    apply 420 (points "r") samplePlan (start sampleDisk faults 100) = sampleApply faults := rfl

theorem samplePlanned : Planned (pendingWrites samplePlan) := by
  rw [samplePending]
  constructor
  · intro write member
    cases List.mem_cons.mp member with
    | inl first =>
      rw [first]
      exact ⟨points "dispatch.json",[],by decide +kernel,by decide⟩
    | inr last =>
      rw [List.mem_singleton.mp last]
      exact ⟨points "history",[points "runs",points "ledger.md"],by decide +kernel,by decide⟩
  · decide +kernel

theorem sample_dispatch : dispatchWrite ∈ pendingWrites samplePlan := by
  rw [samplePending]
  exact List.mem_cons_self

theorem sample_ledger : ledgerWrite ∈ pendingWrites samplePlan := by
  rw [samplePending]
  exact List.mem_cons_of_mem _ (List.mem_singleton_self _)

theorem sampleTree : Tree sampleDisk := by decide +kernel

variable {plan : Migration.Plan}

/-- The second move fails, and with it the call that would put the first file back. -/
def sampleFaults : List Fault := List.replicate 23 .passed ++ [.refused,.refused]

/-- An `apply` that succeeds has written every file, and nothing else but directories on the way. -/
theorem apply_lands (planned : Planned (pendingWrites plan)) (tree : Tree before)
    {applied : Applied} {paths : List PyString}
    (ran : apply mode name plan (start before faults next) = applied)
    (done : applied.result = .ok paths) :
    paths = (pendingWrites plan).map PlannedWrite.path ∧
    (∀ w ∈ pendingWrites plan, ∃ inode,
      get applied.disk (destination w) = some (.file inode) ∧ Fits w inode) ∧
    (∀ p, ¬stagingRoot <+: p → (∀ w ∈ pendingWrites plan, destination w ≠ p) →
      Kept before applied.disk p) ∧
    ∀ p, Below p → ¬runDirectory name <+: p → get applied.disk p = get before p := by
  rw [apply] at ran
  split_ifs at ran with _ nothing
  · subst ran
    cases done
  · subst ran
    cases done
    rw [nothing]
    exact ⟨rfl,nofun,fun _ _ _ => .inl rfl,fun _ _ _ => rfl⟩
  · exact writes_land planned tree ran done

theorem apply_lands_sample : ∃ inode, get (sampleApply []).disk (destination ledgerWrite) =
    some (.file inode) ∧ Fits ledgerWrite inode := by
  have done : (sampleApply []).result = .ok [dispatchWrite.path,ledgerWrite.path] := by decide +kernel
  exact (apply_lands samplePlanned sampleTree (sampleApply_eq []) done).2.1 ledgerWrite sample_ledger

end Results

end MigrationApply

end EvidenceV4
