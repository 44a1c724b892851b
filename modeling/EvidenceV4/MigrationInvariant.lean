import EvidenceV4.MigrationApply

/-!
# What the writes of a migration keep

At every point of `apply` each destination either is as it was before, or what was
there is kept aside. Directories are the only other thing that is new outside of
the staging tree, and they are recorded before the next call, unless the call that
makes them fails half way.
-/

set_option autoImplicit false

namespace EvidenceV4

namespace MigrationApply

open DiskTree
open CheckerJson (PyString points)
open Migration (PlannedWrite)

/-- A triple about the work, whatever becomes of the calls. -/
def Does {α : Type} (before : Work → Prop) (x : Act α) (after : α → Work → Prop)
    (raised : Work → Prop) : Prop :=
  Raising.Triple (fun run => before run.toWork) x (fun a run => after a run.toWork)
    (fun run => raised run.toWork)

section Calls

variable {α β : Type} {before after raised : Work → Prop} {x : Act α}

def Work.onDisk (work : Work) (disk : Disk) : Work := { work with disk := disk }

theorem does_bind {next : α → Act β} {middle : α → Work → Prop} {after : β → Work → Prop}
    (first : Does before x middle raised) (second : ∀ a, Does (middle a) (next a) after raised) :
    Does before (x >>= next) after raised := Raising.triple_bind first second

/-- It is enough to know what a computation does from each state that it can start from. -/
theorem does_from {after : α → Work → Prop}
    (each : ∀ work, before work → Does (fun w => w = work) x after raised) :
    Does before x after raised :=
  fun run holds => each run.toWork holds run rfl

theorem does_weaken {before' : Work → Prop} {after after' : α → Work → Prop} {raised' : Work → Prop}
    (does : Does before x after raised) (start : ∀ w, before' w → before w)
    (done : ∀ a w, after a w → after' a w) (failed : ∀ w, raised w → raised' w) :
    Does before' x after' raised' :=
  Raising.triple_weaken does (fun run => start run.toWork) (fun a run => done a run.toWork)
    (fun run => failed run.toWork)

theorem does_forM {ι : Type} {xs : List ι} {f : ι → Act Unit} {invariant : List ι → Work → Prop}
    (step : ∀ done i rest, xs = done ++ i :: rest →
      Does (invariant done) (f i) (fun _ => invariant (done ++ [i])) raised) :
    Does (invariant []) (forM xs f) (fun _ => invariant xs) raised :=
  @Raising.triple_forM _ _ _ _ _ _ (fun done (run : Run) => invariant done run.toWork) step

theorem does_modify {change : Run → Run} (change' : Work → Work)
    (same : ∀ run, (change run).toWork = change' run.toWork)
    (done : ∀ work, before work → after (change' work)) :
    Does before (Raising.modify change) (fun _ => after) raised := by
  intro run start
  show after (change run).toWork
  rw [same]
  exact done run.toWork start

theorem does_ite {c : Prop} [Decidable c] {y : Act α} {after : α → Work → Prop}
    (yes : c → Does before x after raised) (no : ¬c → Does before y after raised) :
    Does before (if c then x else y) after raised := Raising.triple_ite yes no

theorem does_pure {a : α} {after : α → Work → Prop} (done : ∀ work, before work → after a work) :
    Does before (pure a : Act α) after raised := fun run start => done run.toWork start

theorem does_system {part : ℕ → Run → Option Disk} {effect : Run → Option Disk}
    (done : ∀ (run : Run) disk, before run.toWork → effect run = some disk →
      after (run.toWork.onDisk disk))
    (failed : ∀ work, before work → raised work)
    (torn : ∀ length (run : Run) disk, before run.toWork → part length run = some disk →
      raised (run.toWork.onDisk disk)) :
    Does before (system part effect) (fun _ => after) raised := by
  intro run start
  cases head : run.faults.headD .passed with
  | passed =>
    simp only [system, head]
    cases moved : effect run with
    | some disk => exact done run disk start moved
    | none => exact failed run.toWork start
  | refused =>
    simp only [system, head]
    exact failed run.toWork start
  | kept paths =>
    simp only [system, head]
    exact failed run.toWork start
  | torn length =>
    simp only [system, head]
    cases moved : part length run with
    | some disk => exact torn length run disk start moved
    | none => exact failed run.toWork start

theorem does_call {effect : Disk → Option Disk}
    (done : ∀ work disk, before work → effect work.disk = some disk → after (work.onDisk disk))
    (failed : ∀ work, before work → raised work) :
    Does before (call effect) (fun _ => after) raised :=
  does_system (fun run disk => done run.toWork disk) failed (fun _ _ _ _ moved => nomatch moved)

theorem does_check (failed : ∀ work, before work → raised work) :
    Does before check (fun _ => before) raised := by
  apply does_call _ failed
  intro work disk start same
  cases same
  exact start

end Calls

section Directories

/-- Directories were made where nothing was. -/
structure Made (work : Work) (paths : List Place) (work' : Work) : Prop where
  same : work' = work.onDisk work'.disk
  tree : Tree work'.disk
  new : ∀ p ∈ paths, get work.disk p = none
  disk : ∀ p, get work'.disk p = if p ∈ paths then some .dir else get work.disk p

theorem made_none {work : Work} (tree : Tree work.disk) : Made work [] work :=
  ⟨rfl,tree,nofun,fun _ => rfl⟩

theorem Made.mkdir {work middle : Work} {paths : List Place} {p : Place} {disk : Disk}
    (made : Made work paths middle) (moved : mkdir middle.disk p = some disk) :
    Made work (paths ++ [p]) (middle.onDisk disk) := by
  have ⟨free,_,changed⟩ := mkdir_some moved
  have outside : p ∉ paths := by
    intro member
    rw [made.disk, if_pos member] at free
    cases free
  rw [made.disk, if_neg outside] at free
  constructor
  · rw [made.same]
    rfl
  · exact mkdir_tree made.tree moved
  · intro q member
    cases List.mem_append.mp member with
    | inl before => exact made.new q before
    | inr last => exact List.mem_singleton.mp last ▸ free
  · intro q
    show get disk q = _
    rw [changed]
    by_cases same : q = p
    · subst same
      rw [Function.update_self, if_pos (List.mem_append_right _ (List.mem_singleton_self q))]
    · rw [Function.update_of_ne same, made.disk]
      simp [same]

theorem missing_mem {disk : Disk} {directory p : Place} (member : p ∈ missing disk directory) :
    p <+: directory ∧ get disk p = none := by
  have found := List.mem_takeWhile_imp member
  have inside := (List.takeWhile_sublist _).subset member
  rw [List.mem_reverse, List.mem_inits] at inside
  exact ⟨inside,by simpa using found⟩

/-- The directories are made from above; a failure leaves the first ones of them. -/
theorem does_addMissing {work : Work} {directory : Place} (tree : Tree work.disk) :
    Does (fun w => w = work) (addMissing directory)
      (fun paths w => paths = (missing work.disk directory).reverse ∧ Made work paths w)
      (fun w => w = work ∨ ∃ done i rest, (missing work.disk directory).reverse = done ++ i :: rest ∧
        Made work done w) := by
  have loop : Does (Made work []) (forM (missing work.disk directory).reverse
      (fun path => call (fun disk => mkdir disk path)))
      (fun _ => Made work (missing work.disk directory).reverse)
      (fun w => w = work ∨ ∃ done i rest, (missing work.disk directory).reverse = done ++ i :: rest ∧
        Made work done w) := by
    apply does_forM
    intro done i rest split
    apply does_call
    · exact fun _ _ made moved => made.mkdir moved
    · exact fun _ made => .inr ⟨done,i,rest,split,made⟩
  apply does_bind (does_check (fun _ same => .inl same))
  intro _
  apply @does_bind _ _ _ _ _ _ (fun paths w => paths = missing work.disk directory ∧ w = work)
  · apply Raising.triple_asking
    intro run same
    exact ⟨by rw [same],same⟩
  · intro paths
    apply does_from
    rintro w ⟨rfl,rfl⟩
    apply does_bind (does_weaken loop _ (fun _ _ made => made) (fun _ failed => failed))
    · intro _
      exact does_pure (fun _ made => ⟨rfl,made⟩)
    · intro _ same
      subst same
      exact made_none tree

end Directories

section Places

variable {name : PyString} {write write' : PlannedWrite} {writes : List PlannedWrite} {p : Place}

/-- Strictly below the staging prefix. -/
def Below (p : Place) : Prop := stagingRoot <+: p ∧ p ≠ stagingRoot

/-- The writes go to different places below `.fv` and not below the staging prefix. -/
structure Planned (writes : List PlannedWrite) : Prop where
  shape : ∀ write ∈ writes, ∃ head rest, destination write = fv :: head :: rest ∧
    head ≠ points ".migrate-staging"
  distinct : (writes.map destination).Nodup

theorem Planned.clear (planned : Planned writes) (member : write ∈ writes) :
    ¬stagingRoot <+: destination write := by
  have ⟨head,rest,same,other⟩ := planned.shape write member
  rw [same]
  intro below
  have inner := (List.cons_prefix_cons.mp below).2
  exact other (List.cons_prefix_cons.mp inner).1.symm

theorem Planned.place (planned : Planned writes) (member : write ∈ writes) :
    destination write = fv :: inside write ∧ destination write ≠ [] := by
  have ⟨head,rest,same,_⟩ := planned.shape write member
  rw [inside, same]
  exact ⟨rfl,nofun⟩

theorem Planned.staged_inj (planned : Planned writes) (member : write ∈ writes)
    (member' : write' ∈ writes) (same : staged (runDirectory name) write = staged (runDirectory name) write') :
    destination write = destination write' := by
  have inner := (List.cons.inj (List.append_cancel_left same)).2
  rw [(planned.place member).1, (planned.place member').1, inner]

theorem Planned.aside_inj (planned : Planned writes) (member : write ∈ writes)
    (member' : write' ∈ writes) (same : aside (runDirectory name) write = aside (runDirectory name) write') :
    destination write = destination write' := by
  have inner := (List.cons.inj (List.append_cancel_left same)).2
  rw [(planned.place member).1, (planned.place member').1, inner]

theorem staged_ne_aside : staged (runDirectory name) write ≠ aside (runDirectory name) write' := by
  intro same
  have heads := (List.cons.inj (List.append_cancel_left same)).1
  exact absurd heads (by decide)

/-- Strictly below the directory of the run. -/
def Ours (name : PyString) (p : Place) : Prop := runDirectory name <+: p ∧ p ≠ runDirectory name

theorem root_below : Below (runDirectory name) :=
  ⟨List.prefix_append _ _,fun same => absurd (congrArg List.length same) (by simp [runDirectory])⟩

theorem below_of_run (inside : runDirectory name <+: p) : Below p := by
  use (List.prefix_append _ _).trans inside
  rintro rfl
  have short := inside.length_le
  rw [runDirectory, List.length_append] at short
  exact absurd short (by simp)

theorem ours_append (key : PyString) (rest : List PyString) :
    Ours name (runDirectory name ++ key :: rest) :=
  ⟨List.prefix_append _ _,by simp⟩

theorem staged_ours : Ours name (staged (runDirectory name) write) := ours_append _ _

theorem aside_ours : Ours name (aside (runDirectory name) write) := ours_append _ _

theorem Planned.not_below (planned : Planned writes) (member : write ∈ writes) :
    ¬Below (destination write) := fun below => planned.clear member below.1

end Places

section Invariant

def Fits (write : PlannedWrite) (inode : Inode) : Prop :=
  inode.bytes = write.data ∧ ∀ mode, write.mode = some mode → inode.mode = mode

/-- The place is as it was, or a new directory. -/
def Same (before disk : Disk) (new : Place → Prop) (p : Place) : Prop :=
  get disk p = get before p ∨ get before p = none ∧ get disk p = some .dir ∧ new p

def Landed (disk : Disk) (moved : Moved) : Prop :=
  ∃ inode, get disk moved.destination = some (.file inode) ∧ Fits moved.write inode

/-- What the record of a touched destination says about the disk. -/
def Held (before disk : Disk) (name : PyString) (new : Place → Prop) (moved : Moved) : Prop :=
  match moved.original with
  | none =>
    if moved.landed then get before moved.destination = none ∧ Landed disk moved
    else Same before disk new moved.destination
  | some path => path = aside (runDirectory name) moved.write ∧ ∃ old,
    get before moved.destination = some (.file old) ∧ get disk path = some (.file old) ∧
      if moved.landed then Landed disk moved else get disk moved.destination = none

/-- `extra` are directories that a failing call has made and not recorded; `ready` are the writes
whose staged file is complete. -/
structure Inv (before : Disk) (name : PyString) (writes : List PlannedWrite) (extra : Place → Prop)
    (ready : List PlannedWrite) (work : Work) : Prop where
  tree : Tree work.disk
  same : ∀ p, ¬Below p → (∀ m ∈ work.touched, m.destination ≠ p) →
    Same before work.disk (fun p => p ∈ work.created ∨ extra p) p
  held : ∀ m ∈ work.touched, Held before work.disk name (fun p => p ∈ work.created ∨ extra p) m
  apart : (work.touched.map Moved.destination).Nodup
  named : ∀ m ∈ work.touched, m.write ∈ writes ∧ m.destination = destination m.write
  created : ∀ c ∈ work.created, get before c = none ∧ ¬Below c ∧ get work.disk c = some .dir
  order : work.created.Pairwise (fun a b => ¬b <+: a)
  waiting : ∀ w ∈ ready, w ∈ writes ∧
    ∃ inode, get work.disk (staged (runDirectory name) w) = some (.file inode) ∧ Fits w inode
  elsewhere : ∀ p, Below p → ¬runDirectory name <+: p → get work.disk p = get before p
  unmade : work.made = none → get work.disk (runDirectory name) = get before (runDirectory name)
  made : ∀ path, work.made = some path → path = runDirectory name ∧
    get before (runDirectory name) = none ∧ get work.disk (runDirectory name) = some .dir
  empty : work.staging = none → ∀ p, Ours name p → get work.disk p = get before p
  staging : ∀ path, work.staging = some path → path = runDirectory name ∧
    work.made = some (runDirectory name)
  idle : work.staging = none → work.touched = []

variable {before : Disk} {name : PyString} {writes ready ready' : List PlannedWrite}
  {extra extra' : Place → Prop} {work : Work} {disk : Disk} {write : PlannedWrite}

theorem Same.mono {new new' : Place → Prop} {p : Place} (same : Same before disk new p)
    (more : new p → new' p) : Same before disk new' p :=
  same.imp_right (fun made => ⟨made.1,made.2.1,more made.2.2⟩)

theorem Held.mono {new new' : Place → Prop} {moved : Moved} (held : Held before disk name new moved)
    (more : new moved.destination → new' moved.destination) : Held before disk name new' moved := by
  rw [Held] at held ⊢
  split at held
  · split_ifs at held ⊢
    · exact held
    · exact held.mono more
  · exact held

theorem Held.frame {new : Place → Prop} {moved : Moved} {disk' : Disk}
    (held : Held before disk name new moved)
    (there : get disk' moved.destination = get disk moved.destination)
    (kept : ∀ path, moved.original = some path → get disk' path = get disk path) :
    Held before disk' name new moved := by
  rw [Held] at held ⊢
  split at held
  · rw [Landed, Same, there]
    exact held
  · rename_i path original
    rw [Landed, there, kept path original]
    exact held

theorem Inv.weaken (inv : Inv before name writes extra ready work) (more : ∀ p, extra p → extra' p)
    (fewer : ∀ w ∈ ready', w ∈ ready) : Inv before name writes extra' ready' work where
  tree := inv.tree
  same := fun p outside free => (inv.same p outside free).mono (fun new => new.imp_right (more p))
  held := fun m member => (inv.held m member).mono (fun new => new.imp_right (more _))
  apart := inv.apart
  named := inv.named
  created := inv.created
  order := inv.order
  waiting := fun w member => inv.waiting w (fewer w member)
  elsewhere := inv.elsewhere
  unmade := inv.unmade
  made := inv.made
  empty := inv.empty
  staging := inv.staging
  idle := inv.idle

theorem Inv.begin (inv : Inv before name writes extra ready work) (current : Option PlannedWrite) :
    Inv before name writes extra ready { work with current := current } :=
  ⟨inv.tree,inv.same,inv.held,inv.apart,inv.named,inv.created,inv.order,inv.waiting,inv.elsewhere,
    inv.unmade,inv.made,inv.empty,inv.staging,inv.idle⟩

/-- A change strictly below the directory of the run. -/
theorem Inv.inside (planned : Planned writes) (inv : Inv before name writes extra ready work)
    (running : work.staging ≠ none) (tree : Tree disk)
    (agree : ∀ p, ¬Ours name p → get disk p = get work.disk p)
    (kept : ∀ m ∈ work.touched, ∀ path, m.original = some path → get disk path = get work.disk path)
    (waiting : ∀ w ∈ ready', w ∈ writes ∧
      ∃ inode, get disk (staged (runDirectory name) w) = some (.file inode) ∧ Fits w inode) :
    Inv before name writes extra ready' (work.onDisk disk) where
  tree := tree
  same := by
    intro p outside free
    have away : ¬Ours name p := fun ours => outside (below_of_run ours.1)
    rw [Same, Work.onDisk, agree p away]
    exact inv.same p outside free
  held := by
    intro m member
    have ⟨planned',place⟩ := inv.named m member
    have away : ¬Ours name m.destination := by
      rw [place]
      exact fun ours => planned.not_below planned' (below_of_run ours.1)
    exact (inv.held m member).frame (agree _ away) (kept m member)
  apart := inv.apart
  named := inv.named
  created := by
    intro c member
    have ⟨new,outside,there⟩ := inv.created c member
    have away : ¬Ours name c := fun ours => outside (below_of_run ours.1)
    exact ⟨new,outside,(agree c away).trans there⟩
  order := inv.order
  waiting := waiting
  elsewhere := fun p below other => (agree p (fun ours => other ours.1)).trans
    (inv.elsewhere p below other)
  unmade := fun unmade => (agree _ (fun ours => ours.2 rfl)).trans (inv.unmade unmade)
  made := by
    intro path current
    have ⟨same,fresh,there⟩ := inv.made path current
    exact ⟨same,fresh,(agree _ (fun ours => ours.2 rfl)).trans there⟩
  empty := fun none => absurd none running
  staging := inv.staging
  idle := inv.idle

end Invariant

section Staging

variable {before : Disk} {name : PyString} {writes ready : List PlannedWrite} {work work' : Work}
  {write : PlannedWrite} {disk : Disk} {path p : Place} {paths : List Place} {keeps : Work → Prop}
  {mode : ℕ}

/-- All new directories are recorded. -/
abbrev Exact (before : Disk) (name : PyString) (writes ready : List PlannedWrite) (work : Work) :
    Prop := Inv before name writes (fun _ => False) ready work

theorem Inv.running {extra : Place → Prop} (inv : Inv before name writes extra ready work)
    (running : work.staging ≠ none) : get work.disk (runDirectory name) = some .dir := by
  have ⟨current,same⟩ := Option.ne_none_iff_exists'.mp running
  exact (inv.made _ (inv.staging current same).2).2.2

/-- Directories that are made on the way to a place in the directory of the run. -/
theorem Made.inside (planned : Planned writes) (inv : Exact before name writes ready work)
    (running : work.staging ≠ none) (made : Made work paths work')
    (toward : ∀ p ∈ paths, p <+: path) (inside : runDirectory name <+: path) :
    Exact before name writes ready work' := by
  have there := inv.running running
  have ours : ∀ p ∈ paths, Ours name p := by
    intro p member
    have free := made.new p member
    cases List.prefix_or_prefix_of_prefix (toward p member) inside with
    | inl above =>
      have found : get work.disk p = some .dir := by
        by_cases same : p = runDirectory name
        · rw [same, there]
        · exact inv.tree.above above (fun back => same back.symm) (by simp [there])
      rw [found] at free
      cases free
    | inr below =>
      use below
      rintro rfl
      rw [there] at free
      cases free
  have files : ∀ p inode, get work.disk p = some (.file inode) → get work'.disk p = get work.disk p := by
    intro p inode found
    have apart : p ∉ paths := by
      intro member
      rw [made.new p member] at found
      cases found
    rw [made.disk, if_neg apart]
  rw [made.same]
  apply inv.inside planned running made.tree
  · intro p away
    rw [made.disk, if_neg (fun member => away (ours p member))]
  · intro m member path original
    have held := inv.held m member
    rw [Held, original] at held
    obtain ⟨_,old,_,kept,_⟩ := held
    exact files path old kept
  · intro w member
    obtain ⟨listed,inode,found,fits⟩ := inv.waiting w member
    exact ⟨listed,inode,(files _ inode found).trans found,fits⟩

theorem does_mkdirParents (planned : Planned writes) (inside : runDirectory name <+: path)
    (kept : ∀ work disk, keeps work → keeps (work.onDisk disk)) :
    Does (fun w => Exact before name writes ready w ∧ w.staging ≠ none ∧ keeps w) (mkdirParents path)
      (fun _ w => Exact before name writes ready w ∧ w.staging ≠ none ∧ keeps w)
      (fun w => Exact before name writes ready w) := by
  apply does_from
  intro work start
  have ⟨inv,running,keep⟩ := start
  have step : ∀ {paths w}, Made work paths w → (∀ p ∈ paths, p <+: path) →
      Exact before name writes ready w ∧ w.staging ≠ none ∧ keeps w := by
    intro paths w made toward
    use made.inside planned inv running toward inside
    rw [made.same]
    exact ⟨running,kept work _ keep⟩
  apply @does_bind _ _ _ _ _ _ (fun _ w => Exact before name writes ready w ∧ w.staging ≠ none ∧ keeps w)
  · apply does_weaken (does_addMissing inv.tree) (fun _ same => same)
    · intro paths w after
      apply step after.2
      intro p member
      rw [after.1, List.mem_reverse] at member
      exact (missing_mem member).1
    · intro w failed
      cases failed with
      | inl same => exact same ▸ inv
      | inr some =>
        have ⟨done,i,rest,split,made⟩ := some
        apply (step made _).1
        intro p member
        have listed : p ∈ (missing work.disk path).reverse := by
          rw [split]
          exact List.mem_append_left _ member
        exact (missing_mem (List.mem_reverse.mp listed)).1
  · intro _
    apply does_call
    · intro w disk holds found
      rw [isDir, Option.ite_none_right_eq_some] at found
      have ⟨_,same⟩ := found
      cases same
      exact holds
    · exact fun _ holds => holds.1

/-- The staged file of one write changes. -/
theorem Inv.stage (planned : Planned writes) (inv : Exact before name writes ready work)
    (running : work.staging ≠ none) (member : write ∈ writes) (tree : Tree disk) {inode : Inode}
    (changed : get disk = Function.update (get work.disk) (staged (runDirectory name) write)
      (some (.file inode))) (others : ∀ w ∈ ready, destination w ≠ destination write) :
    Exact before name writes ready (work.onDisk disk) ∧
      (Fits write inode → Exact before name writes (ready ++ [write]) (work.onDisk disk)) := by
  have agree : ∀ p, p ≠ staged (runDirectory name) write → get disk p = get work.disk p := by
    intro p other
    rw [changed, Function.update_of_ne other]
  have away : ∀ p, ¬Ours name p → get disk p = get work.disk p := by
    intro p outside
    apply agree
    rintro rfl
    exact outside staged_ours
  have kept : ∀ m ∈ work.touched, ∀ path, m.original = some path →
      get disk path = get work.disk path := by
    intro m touched path original
    have held := inv.held m touched
    rw [Held, original] at held
    apply agree
    rw [held.1]
    exact staged_ne_aside.symm
  have waiting : ∀ w ∈ ready, w ∈ writes ∧
      ∃ inode, get disk (staged (runDirectory name) w) = some (.file inode) ∧ Fits w inode := by
    intro w ready
    have ⟨listed,inode,found,fits⟩ := inv.waiting w ready
    use listed, inode
    rw [agree]
    · exact ⟨found,fits⟩
    · exact fun same => others w ready (planned.staged_inj listed member same)
  use inv.inside planned running tree away kept waiting
  intro fits
  apply inv.inside planned running tree away kept
  intro w listed
  cases List.mem_append.mp listed with
  | inl ready => exact waiting w ready
  | inr last =>
    cases List.mem_singleton.mp last
    exact ⟨member,inode,by rw [changed, Function.update_self],fits⟩

theorem content_bytes {bytes : List UInt8} {run : Run} {old : Option Inode} :
    (content mode bytes run old).bytes = bytes := by
  cases old with
  | none => rfl
  | some inode => rfl

/-- What holds of the work between two writes of the first loop. -/
structure StagingTo (before : Disk) (name : PyString) (writes ready : List PlannedWrite)
    (work : Work) : Prop where
  exact : Exact before name writes ready work
  running : work.staging ≠ none
  untouched : work.touched = []

theorem does_stage (planned : Planned writes) (member : write ∈ writes)
    (others : ∀ w ∈ ready, destination w ≠ destination write) :
    Does (StagingTo before name writes ready) (stage mode name write)
      (fun _ => StagingTo before name writes (ready ++ [write]))
      (Exact before name writes []) := by
  have drop : ∀ {ready w}, Exact before name writes ready w → Exact before name writes [] w :=
    fun exact => exact.weaken (fun _ none => none) (by rintro _ ⟨⟩)
  have inside : runDirectory name <+: (staged (runDirectory name) write).dropLast := by
    rw [staged, List.dropLast_append_cons]
    exact List.prefix_append _ _
  apply @does_bind _ _ _ _ _ _ (fun _ w => Exact before name writes ready w ∧ w.staging ≠ none ∧ w.touched = [])
  · apply does_modify (fun w => { w with current := some write }) (fun _ => rfl)
    exact fun w start => ⟨start.exact.begin _,start.running,start.untouched⟩
  intro _
  apply does_bind (does_weaken (does_mkdirParents planned inside (fun _ _ same => same))
    (fun _ start => start) (fun _ _ after => after) (fun _ failed => drop failed))
  intro _
  apply @does_bind _ _ _ _ _ _ (fun _ w => (Exact before name writes ready w ∧ w.staging ≠ none ∧
    w.touched = []) ∧ (∃ inode, get w.disk (staged (runDirectory name) write) = some (.file inode) ∧
      inode.bytes = write.data) ∧ (write.mode = none → Exact before name writes (ready ++ [write]) w))
  · apply does_system
    · intro run disk start written
      obtain ⟨inv,running,untouched⟩ := start
      obtain ⟨_,old,changed,_⟩ := write_some written
      obtain ⟨exact,ready⟩ := inv.stage planned running member (write_tree inv.tree written) changed others
      constructor
      · exact ⟨exact,running,untouched⟩
      · constructor
        · use content mode write.data run old
          constructor
          · show get disk _ = _
            rw [changed, Function.update_self]
          · exact content_bytes
        · intro plain
          apply ready
          use content_bytes
          rw [plain]
          rintro _ ⟨⟩
    · exact fun _ start => drop start.1
    · intro length run disk start written
      obtain ⟨inv,running,_⟩ := start
      obtain ⟨_,old,changed,_⟩ := write_some written
      exact drop (inv.stage planned running member (write_tree inv.tree written) changed others).1
  · intro _
    cases moded : write.mode with
    | none => exact does_pure (fun w start => ⟨start.2.2 rfl,start.1.2.1,start.1.2.2⟩)
    | some mode =>
      apply does_call
      · intro w disk start changed
        obtain ⟨⟨inv,running,untouched⟩,⟨inode,found,bytes⟩,_⟩ := start
        rw [remode, found] at changed
        cases changed
        have other : staged (runDirectory name) write ≠ [] := by simp [staged, runDirectory]
        have placed := inv.tree.placed (by simp [found]) other
        have tree := @put_tree _ _ _ _ _ (.file { inode with mode := mode }) inv.tree placed
          (by simp [found])
        obtain ⟨_,ready⟩ := inv.stage planned running member tree get_put others
        constructor
        · apply ready
          use bytes
          intro wanted same
          rw [moded] at same
          cases same
          rfl
        · exact running
        · exact untouched
      · exact fun _ start => drop start.1.1

end Staging

section Outside

variable {before : Disk} {name : PyString} {writes ready : List PlannedWrite} {work work' : Work}
  {directory p : Place} {paths : List Place} {keeps : Work → Prop}

theorem inits_order (path : Place) : path.inits.Pairwise (fun a b => ¬b <+: a) := by
  induction path with
  | nil => simp
  | cons head rest ih =>
    rw [List.inits_cons, List.pairwise_cons]
    constructor
    · intro b member below
      have ⟨init,_,same⟩ := List.mem_map.mp member
      subst same
      cases List.prefix_nil.mp below
    · rw [List.pairwise_map]
      exact ih.imp (fun apart below => apart (List.cons_prefix_cons.mp below).2)

theorem missing_order (disk : Disk) : (missing disk directory).reverse.Pairwise (fun a b => ¬b <+: a) := by
  rw [List.pairwise_reverse]
  have all := List.pairwise_reverse.mp ((List.reverse_reverse directory.inits).symm ▸ inits_order directory)
  exact all.sublist (List.takeWhile_sublist _)

theorem Inv.landed {extra : Place → Prop} (inv : Inv before name writes extra ready work) {m : Moved}
    (member : m ∈ work.touched) (landed : m.landed = true) : Landed work.disk m := by
  have held := inv.held m member
  rw [Held, if_pos landed] at held
  split at held
  · exact held.2
  · have ⟨_,_,_,_,there⟩ := held
    rw [if_pos landed] at there
    exact there

theorem Inv.absent (inv : Exact before name writes ready work)
    (landed : ∀ m ∈ work.touched, m.landed = true) (outside : ¬Below p)
    (free : get work.disk p = none) : get before p = none := by
  have untouched : ∀ m ∈ work.touched, m.destination ≠ p := by
    rintro m member rfl
    have ⟨inode,found,_⟩ := inv.landed member (landed m member)
    rw [found] at free
    cases free
  have same := inv.same p outside untouched
  rw [Same, free] at same
  exact same.elim Eq.symm (fun made => nomatch made.2.1)

/-- Directories that are made outside of the staging tree, when every touched file has landed. -/
theorem Made.outside (inv : Exact before name writes ready work)
    (landed : ∀ m ∈ work.touched, m.landed = true) (made : Made work paths work')
    (clear : ∀ p ∈ paths, ¬Below p) : Inv before name writes (fun p => p ∈ paths) ready work' := by
  have files : ∀ p inode, get work.disk p = some (.file inode) → get work'.disk p = get work.disk p := by
    intro p inode found
    have apart : p ∉ paths := by
      intro member
      rw [made.new p member] at found
      cases found
    rw [made.disk, if_neg apart]
  have below : ∀ p, Below p → get work'.disk p = get work.disk p := by
    intro p inside
    rw [made.disk, if_neg (fun member => clear p member inside)]
  have dirs : ∀ p, get work.disk p = some .dir → get work'.disk p = some .dir := by
    intro p found
    rw [made.disk, found, ite_self]
  rw [made.same]
  constructor
  · exact made.tree
  · intro p outside free
    have same := inv.same p outside free
    show Same before work'.disk _ p
    by_cases member : p ∈ paths
    · apply Or.inr
      rw [made.disk, if_pos member]
      rw [Same, made.new p member] at same
      exact ⟨same.elim Eq.symm (fun made => nomatch made.2.1),rfl,.inr member⟩
    · have grown : Same before work.disk (fun p => p ∈ work.created ∨ p ∈ paths) p :=
        same.mono (fun new => .inl (new.resolve_right id))
      rw [Same] at grown ⊢
      rw [made.disk, if_neg member]
      exact grown
  · intro m member
    have held := inv.held m member
    have ⟨inode,found,_⟩ := inv.landed member (landed m member)
    have moved : Held before work'.disk name (fun p => p ∈ work.created ∨ False) m := by
      apply held.frame (files _ inode found)
      intro path original
      rw [Held, original] at held
      have ⟨_,old,_,kept,_⟩ := held
      exact files path old kept
    exact moved.mono (fun new => new.imp_right False.elim)
  · exact inv.apart
  · exact inv.named
  · intro c member
    have ⟨new,outside,there⟩ := inv.created c member
    exact ⟨new,outside,dirs c there⟩
  · exact inv.order
  · intro w member
    have ⟨listed,inode,found,fits⟩ := inv.waiting w member
    exact ⟨listed,inode,(files _ inode found).trans found,fits⟩
  · exact fun p inside other => (below p inside).trans (inv.elsewhere p inside other)
  · exact fun unmade => (below _ root_below).trans (inv.unmade unmade)
  · intro path current
    have ⟨same,fresh,there⟩ := inv.made path current
    exact ⟨same,fresh,dirs _ there⟩
  · exact fun none p ours => (below p (below_of_run ours.1)).trans (inv.empty none p ours)
  · exact inv.staging
  · exact inv.idle

/-- The directories are recorded. -/
theorem Inv.record (inv : Inv before name writes (fun p => p ∈ paths) ready work)
    (new : ∀ p ∈ paths, get before p = none ∧ ¬Below p ∧ get work.disk p = some .dir)
    (later : ∀ a ∈ work.created, ∀ b ∈ paths, ¬b <+: a)
    (order : paths.Pairwise (fun a b => ¬b <+: a)) :
    Exact before name writes ready { work with created := work.created ++ paths } where
  tree := inv.tree
  same := fun p outside free => (inv.same p outside free).mono
    (fun new => .inl (List.mem_append.mpr new))
  held := fun m member => (inv.held m member).mono (fun new => .inl (List.mem_append.mpr new))
  apart := inv.apart
  named := inv.named
  created := fun c member => (List.mem_append.mp member).elim (inv.created c) (new c)
  order := List.pairwise_append.mpr ⟨inv.order,order,later⟩
  waiting := inv.waiting
  elsewhere := inv.elsewhere
  unmade := inv.unmade
  made := inv.made
  empty := inv.empty
  staging := inv.staging
  idle := inv.idle

/-- The directory that the calls of `_make_dirs` lead to. -/
def goal (work : Work) : Place :=
  match work.current with
  | none => stagingRoot
  | some write => (destination write).dropLast

/-- What holds when a call of `apply` has failed. -/
def Broken (before : Disk) (name : PyString) (writes : List PlannedWrite) (work : Work) : Prop :=
  Exact before name writes [] work ∨
    Inv before name writes (fun p => p <+: goal work) [] work ∧ get work.disk (goal work) ≠ some .dir

theorem does_makeDirs (clear : ∀ p, p <+: directory → ¬Below p)
    (kept : ∀ work disk created, keeps work → keeps { work with disk := disk, created := created }) :
    Does (fun w => (Exact before name writes ready w ∧ ∀ m ∈ w.touched, m.landed = true) ∧
        goal w = directory ∧ keeps w)
      (makeDirs directory)
      (fun _ w => (Exact before name writes ready w ∧ ∀ m ∈ w.touched, m.landed = true) ∧
        goal w = directory ∧ keeps w)
      (Broken before name writes) := by
  apply does_from
  intro work start
  obtain ⟨⟨inv,landed⟩,toward,keep⟩ := start
  have member_clear : ∀ p ∈ (missing work.disk directory).reverse, ¬Below p := by
    intro p member
    exact clear p (missing_mem (List.mem_reverse.mp member)).1
  apply does_bind (does_weaken (does_addMissing inv.tree) (fun _ same => same)
    (fun _ _ after => after) _)
  · intro paths
    apply does_modify (fun w => { w with created := w.created ++ paths }) (fun _ => rfl)
    intro w after
    obtain ⟨listed,made⟩ := after
    subst listed
    have outside := made.outside inv landed member_clear
    have same := made.same
    constructor
    · constructor
      · apply outside.record
        · intro p member
          use inv.absent landed (member_clear p member) (made.new p member), member_clear p member
          rw [made.disk, if_pos member]
        · intro a recorded b member below
          rw [same] at recorded
          obtain ⟨_,_,there⟩ := inv.created a recorded
          have free := made.new b member
          by_cases here : a = b
          · rw [← here, there] at free
            cases free
          · rw [inv.tree.above below here (by simp [there])] at free
            cases free
        · exact missing_order work.disk
      · rw [same]
        exact landed
    · rw [same]
      exact ⟨toward,kept work _ _ keep⟩
  · intro w failed
    cases failed with
    | inl same => exact .inl (same ▸ inv.weaken (fun _ none => none) (by rintro _ ⟨⟩))
    | inr some =>
      obtain ⟨done,i,rest,split,made⟩ := some
      have listed : ∀ p, p ∈ done → p ∈ (missing work.disk directory).reverse := by
        intro p member
        rw [split]
        exact List.mem_append_left _ member
      have next : i ∈ missing work.disk directory := by
        rw [← List.mem_reverse, split]
        exact List.mem_append_right _ List.mem_cons_self
      obtain ⟨above,free⟩ := missing_mem next
      have outside := made.outside inv landed (fun p member => member_clear p (listed p member))
      have here : goal w = directory := by
        rw [made.same]
        exact toward
      apply Or.inr
      rw [here]
      constructor
      · have toward : ∀ p ∈ done, p <+: directory :=
          fun p member => (missing_mem (List.mem_reverse.mp (listed p member))).1
        exact outside.weaken toward (by rintro _ ⟨⟩)
      · have order := @missing_order directory work.disk
        rw [split, List.pairwise_append] at order
        have last : directory ∉ done :=
          fun member => order.2.2 directory member i List.mem_cons_self above
        rw [made.disk, if_neg last, inv.tree.absent free above]
        rintro ⟨⟩

end Outside

end MigrationApply

end EvidenceV4
