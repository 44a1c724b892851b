import EvidenceV4.MigrationInvariant

/-!
# The moves of a migration

A destination that exists is moved aside before the staged file is moved to it. In
between, and when either call fails, the record of the destination says where its
original is.
-/

set_option autoImplicit false

namespace EvidenceV4

namespace MigrationApply

open DiskTree
open CheckerJson (PyString points)
open Migration (PlannedWrite)

section Moves

variable {before : Disk} {name : PyString} {writes ready ready' : List PlannedWrite} {work : Work}
  {write : PlannedWrite} {disk : Disk} {moved moved' : Moved} {rest : List Moved} {q : Place}
  {keeps : Work → Prop}

/-- One destination and one place in the directory of the run change. -/
theorem Inv.moves (planned : Planned writes) (inv : Exact before name writes ready work)
    (running : work.staging ≠ none) (touched : work.touched = moved :: rest)
    (sameWrite : moved'.write = moved.write) (samePlace : moved'.destination = moved.destination)
    (tree : Tree disk) (ours : Ours name q)
    (agree : ∀ p, p ≠ moved.destination → p ≠ q → get disk p = get work.disk p)
    (held : Held before disk name (fun p => p ∈ work.created ∨ False) moved')
    (asides : ∀ m ∈ rest, ∀ path, m.original = some path → path ≠ q)
    (kind : get work.disk moved.destination ≠ some .dir)
    (waiting : ∀ w ∈ ready', w ∈ ready ∧ staged (runDirectory name) w ≠ q) :
    Exact before name writes ready' { work with disk := disk, touched := moved' :: rest } := by
  have apart := inv.apart
  rw [touched, List.map_cons, List.nodup_cons] at apart
  have named : ∀ m ∈ moved :: rest, m.write ∈ writes ∧ m.destination = destination m.write :=
    touched ▸ inv.named
  obtain ⟨listed,place⟩ := named moved List.mem_cons_self
  have away : ∀ p, Ours name p → p ≠ moved.destination := by
    rintro p inside rfl
    rw [place] at inside
    exact planned.not_below listed (below_of_run inside.1)
  have outside : ∀ p, ¬Below p → p ≠ q := by
    rintro p clear rfl
    exact clear (below_of_run ours.1)
  constructor
  · exact tree
  · intro p clear free
    have other : p ≠ moved.destination := by
      rintro rfl
      exact free moved' List.mem_cons_self samePlace
    have free' : ∀ m ∈ work.touched, m.destination ≠ p := by
      intro m member
      rw [touched] at member
      cases List.mem_cons.mp member with
      | inl same => exact same ▸ other.symm
      | inr later => exact free m (List.mem_cons_of_mem _ later)
    rw [Same, agree p other (outside p clear)]
    exact inv.same p clear free'
  · intro m member
    cases List.mem_cons.mp member with
    | inl same => exact same ▸ held
    | inr later =>
      have inside : m ∈ work.touched := touched ▸ List.mem_cons_of_mem _ later
      obtain ⟨listed',place'⟩ := inv.named m inside
      have other : m.destination ≠ moved.destination := by
        intro same
        exact apart.1 (same ▸ List.mem_map_of_mem later)
      have clear : ¬Below m.destination := by
        rw [place']
        exact planned.not_below listed'
      have before := inv.held m inside
      apply before.frame (agree _ other (outside _ clear))
      intro path original
      rw [Held, original] at before
      apply agree path _ (asides m later path original)
      rw [before.1]
      exact away _ aside_ours
  · rw [List.map_cons, samePlace, List.nodup_cons]
    exact apart
  · intro m member
    cases List.mem_cons.mp member with
    | inl same =>
      rw [same, sameWrite, samePlace]
      exact ⟨listed,place⟩
    | inr later => exact named m (List.mem_cons_of_mem _ later)
  · intro c member
    obtain ⟨new,clear,there⟩ := inv.created c member
    use new, clear
    rw [agree c _ (outside c clear)]
    · exact there
    · rintro rfl
      exact kind there
  · exact inv.order
  · intro w member
    obtain ⟨ready,other⟩ := waiting w member
    obtain ⟨listed,inode,found,fits⟩ := inv.waiting w ready
    use listed, inode
    rw [agree _ (away _ staged_ours) other]
    exact ⟨found,fits⟩
  · intro p below other
    rw [agree p]
    · exact inv.elsewhere p below other
    · rintro rfl
      rw [place] at below
      exact planned.not_below listed below
    · rintro rfl
      exact other ours.1
  · intro unmade
    obtain ⟨path,current⟩ := Option.ne_none_iff_exists'.mp running
    rw [show work.made = _ from (inv.staging path current).2] at unmade
    cases unmade
  · intro path current
    obtain ⟨same,fresh,there⟩ := inv.made path current
    use same, fresh
    rw [agree]
    · exact there
    · intro back
      rw [place] at back
      exact planned.not_below listed (back ▸ root_below)
    · rintro rfl
      exact ours.2 rfl
  · exact fun none => absurd none running
  · exact inv.staging
  · exact fun none => absurd none running

theorem Inv.touch (planned : Planned writes) (inv : Exact before name writes ready work)
    (running : work.staging ≠ none) (member : write ∈ writes) (fresh : ∀ m ∈ work.touched, m.destination ≠ destination write) :
    Exact before name writes ready
      { work with touched := ⟨write,destination write,none,false⟩ :: work.touched } where
  tree := inv.tree
  same := fun p clear free => inv.same p clear (fun m inside => free m (List.mem_cons_of_mem _ inside))
  held := by
    intro m inside
    cases List.mem_cons.mp inside with
    | inl same =>
      subst same
      exact inv.same _ (planned.not_below member) fresh
    | inr later => exact inv.held m later
  apart := by
    rw [List.map_cons, List.nodup_cons]
    use fun inside => by
      have ⟨m,touched,same⟩ := List.mem_map.mp inside
      exact fresh m touched same
    exact inv.apart
  named := by
    intro m inside
    cases List.mem_cons.mp inside with
    | inl same =>
      subst same
      exact ⟨member,rfl⟩
    | inr later => exact inv.named m later
  created := inv.created
  order := inv.order
  waiting := inv.waiting
  elsewhere := inv.elsewhere
  unmade := inv.unmade
  made := inv.made
  empty := inv.empty
  staging := inv.staging
  idle := fun none => absurd none running

/-- The original of a destination has been moved aside. -/
theorem Inv.setAside (planned : Planned writes) (inv : Exact before name writes ready work)
    (running : work.staging ≠ none) (touched : work.touched = moved :: rest)
    (plain : moved.original = none) (waits : moved.landed = false)
    (replaced : replace work.disk moved.destination (aside (runDirectory name) moved.write) =
      some disk) :
    Exact before name writes ready { work with
      disk := disk
      touched := { moved with original := some (aside (runDirectory name) moved.write) } :: rest } := by
  obtain ⟨old,found,_,_,changed⟩ := replace_some replaced
  have inside : moved ∈ work.touched := touched ▸ List.mem_cons_self
  obtain ⟨listed,place⟩ := inv.named moved inside
  have apart : moved.destination ≠ aside (runDirectory name) moved.write := by
    intro same
    rw [place] at same
    exact planned.not_below listed (same ▸ below_of_run aside_ours.1)
  have was : get before moved.destination = some (.file old) := by
    have held := inv.held moved inside
    rw [Held, plain, waits] at held
    rw [Same, found] at held
    exact held.elim Eq.symm (fun made => by cases made.2.1)
  apply inv.moves planned running touched (by rfl) (by rfl) (replace_tree inv.tree replaced) aside_ours
  · intro p other other'
    rw [changed, Function.update_of_ne other', Function.update_of_ne other]
  · use rfl, old, was
    rw [changed, Function.update_self]
    use rfl
    rw [if_neg (by simp [waits]), Function.update_of_ne apart, Function.update_self]
  · intro m later path original same
    have held := inv.held m (touched ▸ List.mem_cons_of_mem _ later)
    rw [Held, original] at held
    obtain ⟨listed',place'⟩ := inv.named m (touched ▸ List.mem_cons_of_mem _ later)
    have twice := planned.aside_inj listed' listed (held.1.symm.trans same)
    have apart := inv.apart
    rw [touched, List.map_cons, List.nodup_cons] at apart
    rw [← place', ← place] at twice
    exact apart.1 (twice ▸ List.mem_map_of_mem later)
  · rw [found]
    rintro ⟨⟩
  · exact fun w member => ⟨member,staged_ne_aside⟩

/-- The staged file has been moved to its destination. -/
theorem Inv.land (planned : Planned writes) (inv : Exact before name writes ready work)
    (running : work.staging ≠ none) (touched : work.touched = moved :: rest)
    (waits : moved.landed = false) (prepared : moved.write ∈ ready)
    (free : get work.disk moved.destination = none ∨ get work.disk moved.destination = some .dir)
    (replaced : replace work.disk (staged (runDirectory name) moved.write) moved.destination =
      some disk) (fewer : ∀ w ∈ ready', w ∈ ready ∧ destination w ≠ destination moved.write) :
    Exact before name writes ready' { work with
      disk := disk
      touched := { moved with landed := true } :: rest } := by
  obtain ⟨inode,found,placed,kind,changed⟩ := replace_some replaced
  have free := free.resolve_right kind
  have inside : moved ∈ work.touched := touched ▸ List.mem_cons_self
  obtain ⟨listed,place⟩ := inv.named moved inside
  obtain ⟨_,inode',found',fits⟩ := inv.waiting moved.write prepared
  rw [found] at found'
  cases found'
  have apart : staged (runDirectory name) moved.write ≠ moved.destination := by
    intro same
    rw [place] at same
    exact planned.not_below listed (same ▸ below_of_run staged_ours.1)
  have landed : Landed disk { moved with landed := true } := by
    use inode
    rw [changed, Function.update_self]
    exact ⟨rfl,fits⟩
  have held := inv.held moved inside
  apply inv.moves planned running touched (by rfl) (by rfl) (replace_tree inv.tree replaced) staged_ours
  · intro p other other'
    rw [changed, Function.update_of_ne other, Function.update_of_ne other']
  · rw [Held] at held ⊢
    split at held
    · rename_i plain
      simp only [plain, if_true]
      rw [waits, Same, free] at held
      exact ⟨held.elim Eq.symm (fun made => by cases made.2.1),landed⟩
    · rename_i path original
      simp only [original, if_true]
      obtain ⟨same,old,was,kept,_⟩ := held
      use same, old, was
      rw [changed, Function.update_of_ne, Function.update_of_ne]
      · exact ⟨kept,landed⟩
      · rw [same]
        exact staged_ne_aside.symm
      · rw [same, place]
        intro back
        exact planned.not_below listed (back ▸ below_of_run aside_ours.1)
  · intro m later path original same
    have held := inv.held m (touched ▸ List.mem_cons_of_mem _ later)
    rw [Held, original] at held
    exact staged_ne_aside (same.symm.trans held.1)
  · exact kind
  · intro w member
    obtain ⟨waiting,other⟩ := fewer w member
    use waiting
    exact fun same => other (planned.staged_inj (inv.waiting w waiting).1 listed same)

end Moves

section Loop

variable {before : Disk} {name : PyString} {writes ready ready' : List PlannedWrite} {work : Work}
  {write : PlannedWrite} {moved : Moved} {old : List Moved} {done rest : List PlannedWrite}

theorem Inv.broken (inv : Exact before name writes ready work) : Broken before name writes work :=
  .inl (inv.weaken (fun _ none => none) nofun)

/-- What holds of the work between two writes of the second loop. -/
structure MovingTo (before : Disk) (name : PyString) (writes ready done : List PlannedWrite)
    (work : Work) : Prop where
  exact : Exact before name writes ready work
  running : work.staging ≠ none
  landed : ∀ m ∈ work.touched, m.landed = true
  touched : work.touched.map Moved.write = done.reverse

theorem does_setAside (planned : Planned writes) :
    Does (fun w => Exact before name writes ready w ∧ w.staging ≠ none ∧
        w.touched = ⟨write,destination write,none,false⟩ :: old)
      (setAside name write)
      (fun _ w => Exact before name writes ready w ∧ w.staging ≠ none ∧
        (∃ original, w.touched = ⟨write,destination write,original,false⟩ :: old) ∧
          get w.disk (destination write) = none)
      (Broken before name writes) := by
  have inside : runDirectory name <+: (aside (runDirectory name) write).dropLast := by
    rw [aside, List.dropLast_append_cons]
    exact List.prefix_append _ _
  apply does_bind (does_weaken (does_mkdirParents planned inside (fun _ _ same => same))
    (fun _ start => start) (fun _ _ after => after) (fun _ failed => failed.broken))
  intro _
  apply does_from
  intro work start
  have ⟨inv,running,touched⟩ := start
  apply @does_bind _ _ _ _ _ _ (fun _ w => ∃ disk, w = work.onDisk disk ∧
    replace work.disk (destination write) (aside (runDirectory name) write) = some disk)
  · apply does_call
    · intro w disk same replaced
      subst same
      exact ⟨disk,rfl,replaced⟩
    · intro w same
      exact same ▸ inv.broken
  · intro _
    apply does_modify (fun w => w.change (fun moved =>
      { moved with original := some (aside (runDirectory name) write) })) (fun _ => rfl)
    rintro w ⟨disk,rfl,replaced⟩
    have exact := inv.setAside planned running touched rfl rfl replaced
    have ⟨_,_,_,_,changed⟩ := replace_some replaced
    have listed := (inv.named _ (touched ▸ List.mem_cons_self)).1
    have apart : destination write ≠ aside (runDirectory name) write := by
      intro same
      exact planned.not_below listed (same ▸ below_of_run aside_ours.1)
    simp only [Work.change, Work.onDisk, touched, List.modifyHead_cons]
    use exact, running
    constructor
    · exact ⟨_,rfl⟩
    · rw [changed, Function.update_of_ne apart, Function.update_self]

theorem does_land (planned : Planned writes) (prepared : write ∈ ready)
    (fewer : ∀ w ∈ ready', w ∈ ready ∧ destination w ≠ destination write)
    (landed : ∀ m ∈ old, m.landed = true) (listed : old.map Moved.write = done.reverse) :
    Does (fun w => Exact before name writes ready w ∧ w.staging ≠ none ∧
        (∃ original, w.touched = ⟨write,destination write,original,false⟩ :: old) ∧
          (get w.disk (destination write) = none ∨ get w.disk (destination write) = some .dir))
      (land name write) (fun _ => MovingTo before name writes ready' (done ++ [write]))
      (Broken before name writes) := by
  apply does_from
  intro work start
  have ⟨inv,running,⟨original,touched⟩,free⟩ := start
  apply @does_bind _ _ _ _ _ _ (fun _ w => ∃ disk, w = work.onDisk disk ∧
    replace work.disk (staged (runDirectory name) write) (destination write) = some disk)
  · apply does_call
    · intro w disk same replaced
      subst same
      exact ⟨disk,rfl,replaced⟩
    · intro w same
      exact same ▸ inv.broken
  · intro _
    apply does_modify (fun w => w.change (fun moved => { moved with landed := true })) (fun _ => rfl)
    rintro w ⟨disk,rfl,replaced⟩
    have exact := inv.land planned running touched rfl prepared free replaced fewer
    simp only [Work.change, Work.onDisk, touched, List.modifyHead_cons]
    constructor
    · exact exact
    · exact running
    · intro m member
      cases List.mem_cons.mp member with
      | inl same => exact same ▸ rfl
      | inr later => exact landed m later
    · rw [List.map_cons, listed, List.reverse_append]
      rfl

theorem does_moveIn (planned : Planned writes) (member : write ∈ writes)
    (fresh : ∀ m ∈ old, m.destination ≠ destination write)
    (fewer : ∀ w ∈ rest, w ∈ write :: rest ∧ destination w ≠ destination write)
    (landed : ∀ m ∈ old, m.landed = true) (listed : old.map Moved.write = done.reverse) {disk : Disk} :
    Does (fun w => Exact before name writes (write :: rest) w ∧ w.staging ≠ none ∧ w.touched = old ∧
        w.disk = disk)
      (moveIn name disk write) (fun _ => MovingTo before name writes rest (done ++ [write]))
      (Broken before name writes) := by
  apply @does_bind _ _ _ _ _ _ (fun _ w => (Exact before name writes (write :: rest) w ∧
    w.staging ≠ none ∧ w.touched = ⟨write,destination write,none,false⟩ :: old) ∧ w.disk = disk)
  · apply does_modify (fun w => { w with
      touched := ⟨write,destination write,none,false⟩ :: w.touched }) (fun _ => rfl)
    rintro w ⟨inv,running,rfl,same⟩
    exact ⟨⟨inv.touch planned running member fresh,running,rfl⟩,same⟩
  intro _
  apply does_bind (does_check (fun _ start => start.1.1.broken))
  intro _
  apply does_ite
  · intro _
    apply does_bind (does_weaken (does_setAside planned) (fun _ start => start.1)
      (fun _ _ after => after) (fun _ failed => failed))
    intro _
    apply does_weaken (does_land planned List.mem_cons_self fewer landed listed) _
      (fun _ _ after => after) (fun _ failed => failed)
    exact fun _ after => ⟨after.1,after.2.1,after.2.2.1,.inl after.2.2.2⟩
  · intro plain
    apply does_weaken (does_land planned List.mem_cons_self fewer landed listed) _
      (fun _ _ after => after) (fun _ failed => failed)
    intro w start
    have ⟨⟨inv,running,touched⟩,same⟩ := start
    use inv, running, ⟨none,touched⟩
    rw [isFile, ← same] at plain
    cases found : get w.disk (destination write) with
    | none => exact .inl rfl
    | some node =>
      cases node with
      | dir => exact .inr rfl
      | file inode =>
        rw [found] at plain
        exact absurd rfl plain

theorem does_move (planned : Planned writes) (split : writes = done ++ write :: rest) :
    Does (MovingTo before name writes (write :: rest) done) (move name write)
      (fun _ => MovingTo before name writes rest (done ++ [write])) (Broken before name writes) := by
  have member : write ∈ writes := by
    rw [split]
    exact List.mem_append_right _ List.mem_cons_self
  have apart := planned.distinct
  rw [split, List.map_append, List.map_cons, List.nodup_append, List.nodup_cons] at apart
  have clear : ∀ p, p <+: (destination write).dropLast → ¬Below p := by
    intro p above below
    exact planned.clear member (below.1.trans (above.trans (List.dropLast_prefix _)))
  have fresh : ∀ old : List Moved, old.map Moved.write = done.reverse →
      (∀ m ∈ old, m.destination = destination m.write) → ∀ m ∈ old, m.destination ≠ destination write := by
    intro old listed named m inside same
    have earlier : m.write ∈ done := by
      rw [← List.mem_reverse, ← listed]
      exact List.mem_map_of_mem inside
    rw [named m inside] at same
    exact apart.2.2 _ (List.mem_map_of_mem earlier) _ List.mem_cons_self same
  have fewer : ∀ w ∈ rest, w ∈ write :: rest ∧ destination w ≠ destination write := by
    intro w later
    use List.mem_cons_of_mem _ later
    intro same
    exact apart.2.1.1 (same ▸ List.mem_map_of_mem later)
  let waits (w : Work) := (Exact before name writes (write :: rest) w ∧
    ∀ m ∈ w.touched, m.landed = true) ∧ goal w = (destination write).dropLast ∧
      w.staging ≠ none ∧ w.touched.map Moved.write = done.reverse
  apply @does_bind _ _ _ _ _ _ (fun _ => waits)
  · apply does_modify (fun w => { w with current := some write }) (fun _ => rfl)
    exact fun w start => ⟨⟨start.exact.begin _,start.landed⟩,rfl,start.running,start.touched⟩
  intro _
  apply does_bind (does_makeDirs clear (fun _ _ _ kept => kept))
  intro _
  apply does_bind (does_check (fun _ start => start.1.1.broken))
  intro _
  apply @does_bind _ _ _ _ _ _ (fun disk w => waits w ∧ disk = w.disk)
  · apply Raising.triple_asking
    exact fun run start => ⟨start,rfl⟩
  intro disk
  apply does_ite
  · intro _ run start
    exact start.1.1.1.broken
  intro _
  apply does_from
  rintro work ⟨⟨⟨inv,landed⟩,_,running,listed⟩,rfl⟩
  have named : ∀ m ∈ work.touched, m.destination = destination m.write :=
    fun m inside => (inv.named m inside).2
  apply does_weaken (does_moveIn planned member (fresh _ listed named) fewer landed listed) _
    (fun _ _ after => after) (fun _ failed => failed)
  intro w same
  subst same
  exact ⟨inv,running,rfl,rfl⟩

end Loop

section Body

variable {before : Disk} {name : PyString} {writes : List PlannedWrite} {mode : ℕ} {work : Work}
  {disk : Disk}

/-- Nothing is made and nothing is touched at the start. -/
theorem inv_start (tree : Tree before) :
    Exact before name writes [] ⟨before,none,none,[],[],none⟩ where
  tree := tree
  same := fun _ _ _ => .inl rfl
  held := nofun
  apart := List.nodup_nil
  named := nofun
  created := nofun
  order := .nil
  waiting := nofun
  elsewhere := fun _ _ _ => rfl
  unmade := fun _ => rfl
  made := nofun
  empty := fun _ _ _ => rfl
  staging := nofun
  idle := fun _ => rfl

/-- The run directory has been made. -/
theorem Inv.makeRun (inv : Exact before name writes [] work) (unmade : work.made = none)
    (fresh : work.staging = none) (untouched : work.touched = [])
    (moved : mkdir work.disk (runDirectory name) = some disk) :
    Exact before name writes [] { work with disk := disk, made := some (runDirectory name) } := by
  obtain ⟨free,_,changed⟩ := mkdir_some moved
  have agree : ∀ p, p ≠ runDirectory name → get disk p = get work.disk p := by
    intro p other
    rw [changed, Function.update_of_ne other]
  have clear : ∀ p, ¬Below p → get disk p = get work.disk p := by
    intro p outside
    apply agree
    rintro rfl
    exact outside root_below
  constructor
  · exact mkdir_tree inv.tree moved
  · intro p outside none
    rw [Same, clear p outside]
    exact inv.same p outside none
  · rw [show work.touched = [] from untouched]
    rintro _ ⟨⟩
  · exact inv.apart
  · exact inv.named
  · intro c member
    obtain ⟨new,outside,there⟩ := inv.created c member
    exact ⟨new,outside,(clear c outside).trans there⟩
  · exact inv.order
  · rintro _ ⟨⟩
  · intro p below other
    rw [agree p (fun same => other (same ▸ List.prefix_rfl))]
    exact inv.elsewhere p below other
  · rintro ⟨⟩
  · intro path current
    cases current
    use rfl
    rw [← inv.unmade unmade, free, changed, Function.update_self]
    exact ⟨rfl,rfl⟩
  · intro none p ours
    rw [agree p ours.2]
    exact inv.empty none p ours
  · rw [show work.staging = none from fresh]
    rintro _ ⟨⟩
  · exact fun _ => untouched

theorem Inv.stagingDirectory (inv : Exact before name writes [] work)
    (made : work.made = some (runDirectory name)) :
    Exact before name writes []
      { work with staging := some (runDirectory name) } where
  tree := inv.tree
  same := inv.same
  held := inv.held
  apart := inv.apart
  named := inv.named
  created := inv.created
  order := inv.order
  waiting := nofun
  elsewhere := inv.elsewhere
  unmade := inv.unmade
  made := inv.made
  empty := nofun
  staging := by
    intro path current
    cases current
    exact ⟨rfl,made⟩
  idle := nofun

theorem does_makeRunDirectory (tree : Tree before) :
    Does (fun w => w = ⟨before,none,none,[],[],none⟩) (makeRunDirectory name)
      (fun _ => StagingTo before name writes []) (Broken before name writes) := by
  have clear : ∀ p, p <+: stagingRoot → ¬Below p := by
    intro p above below
    exact below.2 (above.eq_of_length_le below.1.length_le)
  let fresh (w : Work) := (Exact before name writes [] w ∧ ∀ m ∈ w.touched, m.landed = true) ∧
    goal w = stagingRoot ∧ w.made = none ∧ w.staging = none ∧ w.touched = []
  have first : Exact before name writes [] ⟨before,none,none,[],[],none⟩ := inv_start tree
  have dirs : Does fresh (makeDirs stagingRoot) (fun _ => fresh) (Broken before name writes) :=
    does_makeDirs clear (fun _ _ _ kept => kept)
  apply does_bind (does_check (fun _ same => same ▸ first.broken))
  intro _
  apply does_bind (does_weaken dirs _ (fun _ _ after => after) (fun _ failed => failed))
  · intro _
    apply does_from
    intro work start
    have ⟨⟨inv,_⟩,_,unmade,idle,untouched⟩ := start
    apply @does_bind _ _ _ _ _ _ (fun _ w => ∃ disk, w = work.onDisk disk ∧
      mkdir work.disk (runDirectory name) = some disk)
    · apply does_call
      · intro w disk same moved
        subst same
        exact ⟨disk,rfl,moved⟩
      · intro w same
        exact same ▸ inv.broken
    intro _
    apply @does_bind _ _ _ _ _ _ (fun _ w => Exact before name writes [] w ∧ w.touched = [] ∧
      w.made = some (runDirectory name))
    · apply does_modify (fun w => { w with made := some (runDirectory name) }) (fun _ => rfl)
      rintro w ⟨disk,rfl,moved⟩
      exact ⟨inv.makeRun unmade idle untouched moved,untouched,rfl⟩
    intro _
    apply does_bind (does_check (fun _ start => start.1.broken))
    intro _
    apply does_modify (fun w => { w with staging := some (runDirectory name) }) (fun _ => rfl)
    intro w start
    have ⟨inv,untouched,made⟩ := start
    exact ⟨inv.stagingDirectory made,nofun,untouched⟩
  · intro w same
    subst same
    exact ⟨⟨first,nofun⟩,rfl,rfl,rfl,rfl⟩

theorem does_body (planned : Planned writes) (tree : Tree before) :
    Does (fun w => w = ⟨before,none,none,[],[],none⟩) (body mode name writes)
      (fun _ => MovingTo before name writes [] writes) (Broken before name writes) := by
  have distinct := planned.distinct
  apply does_bind (does_makeRunDirectory tree)
  intro _
  apply @does_bind _ _ _ _ _ _ (fun _ => StagingTo before name writes writes)
  · apply does_forM
    intro done write rest split
    have member : write ∈ writes := by
      rw [split]
      exact List.mem_append_right _ List.mem_cons_self
    apply does_weaken (does_stage planned member _) (fun _ start => start) (fun _ _ after => after)
      (fun _ failed => failed.broken)
    rw [split, List.map_append, List.nodup_append] at distinct
    intro w earlier
    exact distinct.2.2 _ (List.mem_map_of_mem earlier) _ List.mem_cons_self
  · intro _
    let sofar (done : List PlannedWrite) (w : Work) :=
      ∃ rest, writes = done ++ rest ∧ MovingTo before name writes rest done w
    have moves : Does (sofar []) (forM writes (move name)) (fun _ => sofar writes)
        (Broken before name writes) := by
      apply does_forM
      intro done write rest split
      apply does_from
      rintro work ⟨rest',split',start⟩
      have same : rest' = write :: rest := List.append_cancel_left (split'.symm.trans split)
      subst same
      apply does_weaken (does_move planned split) _ _ (fun _ failed => failed)
      · intro w same
        exact same ▸ start
      · intro _ w after
        exact ⟨rest,by rw [split, List.append_assoc]; rfl,after⟩
    apply does_weaken moves _ _ (fun _ failed => failed)
    · intro w start
      use writes, rfl, start.exact, start.running
      · rw [start.untouched]
        exact nofun
      · rw [start.untouched]
        rfl
    · rintro _ w ⟨rest,split,after⟩
      have finished : rest = [] := by simpa using split
      exact finished ▸ after

end Body

end MigrationApply

end EvidenceV4
