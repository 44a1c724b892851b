import EvidenceV4.LockSafety

/-!
# What a recovery and a finished session leave

The list that a session stores has every lock file that names it, as long as no
storage failure has cut it off from a file it has created. A recovery that has
retired an owner has therefore removed all of them.
-/

set_option autoImplicit false

namespace EvidenceV4

namespace LockFiles

open OwnedCells

section Records

variable {File Owner : Type} {s : Owner} {disk disk' : Disk File Owner}
  {registry registry' locks locks' todo acquired : List File} {session : Session File Owner}
  {attempt attempt' : Option (Attempt File Owner)}

/-- Files that name the session are in its stored list, and in its own record unless they are
just being written. -/
structure Listed (s : Owner) (disk : Disk File Owner) (registry locks : List File)
    (attempt : Option (Attempt File Owner)) : Prop where
  listed : ∀ f c, disk f = some c → c.owner = s → f ∈ registry
  known : ∀ f c, disk f = some c → c.owner = s → f ∈ locks ∨
    ∃ a rest, attempt = some a ∧ a.pc = .write ∧ a.todo = f :: rest
  planned : ∀ a, attempt = some a → a.pc ≠ .register → ∀ f ∈ a.todo, f ∈ registry

def Settled (attempt : Option (Attempt File Owner)) : Prop :=
  ∀ a, attempt = some a → a.pc ≠ .write

theorem Listed.settled (listed : Listed s disk registry locks attempt) (settled : Settled attempt)
    {f : File} {c : Content Owner} (found : disk f = some c) (own : c.owner = s) : f ∈ locks := by
  cases listed.known f c found own with
  | inl inside => exact inside
  | inr writing =>
    have ⟨a,_,current,pc,_⟩ := writing
    exact absurd pc (settled a current)

/-- A step of another actor. -/
theorem Listed.frame {actor : Owner} (listed : Listed s disk registry locks attempt)
    (acts : Acts Content.owner actor disk disk') (other : s ≠ actor) :
    Listed s disk' registry locks attempt where
  listed := fun f c found own =>
    listed.listed f c (acts.came found (fun same => other (own.symm.trans same))) own
  known := fun f c found own =>
    listed.known f c (acts.came found (fun same => other (own.symm.trans same))) own
  planned := listed.planned

/-- A step of the session that writes no file. -/
theorem Listed.turn (listed : Listed s disk registry locks attempt) (settled : Settled attempt)
    (came : ∀ f c, disk' f = some c → disk f = some c)
    (kept : ∀ f ∈ locks, f ∈ locks' ∨ Foreign s disk' f)
    (planned : ∀ a, attempt' = some a → a.pc ≠ .register → ∀ f ∈ a.todo, f ∈ registry) :
    Listed s disk' registry locks' attempt' where
  listed := fun f c found own => listed.listed f c (came f c found) own
  known := by
    intro f c found own
    have inside := listed.settled settled (came f c found) own
    cases kept f inside with
    | inl still => exact .inl still
    | inr foreign => exact absurd own (foreign c found)
  planned := planned

theorem Listed.drop (listed : Listed s disk registry locks attempt) (settled : Settled attempt) :
    Listed s disk registry locks none :=
  listed.turn settled (fun _ _ found => found) (fun _ member => .inl member) nofun

theorem Listed.next {a b : Attempt File Owner} (listed : Listed s disk registry locks (some a))
    (settled : a.pc ≠ .write) (started : a.pc ≠ .register) (same : b.todo = a.todo) :
    Listed s disk registry locks (some b) := by
  apply listed.turn
  · intro _ current
    cases current
    exact settled
  · exact fun _ _ found => found
  · exact fun _ member => .inl member
  · intro _ current _
    cases current
    rw [same]
    exact listed.planned a rfl started

theorem proceed_storage :
    (session.proceed todo acquired).storageFailed = session.storageFailed := by
  cases todo with
  | nil => rfl
  | cons f rest => rfl

theorem proceed_locks :
    (session.proceed todo acquired).locks = session.locks := by
  cases todo with
  | nil => rfl
  | cons f rest => rfl

theorem proceed_attempt {a : Attempt File Owner} (current : (session.proceed todo acquired).attempt = some a) :
    a.pc = .create ∧ a.todo = todo := by
  cases todo with
  | nil => cases current
  | cons f rest =>
    cases current
    exact ⟨rfl,rfl⟩

end Records

section Calls

variable {File Owner Project : Type} [DecidableEq File] [DecidableEq Owner]
  {home : Owner → Project} {owners : Project → Option Owner} {s : Owner} {v : View File Owner}
  {attempt : Attempt File Owner} {effect : Effect}

def View.Listed (s : Owner) (v : View File Owner) : Prop :=
  v.session.storageFailed = false →
    LockFiles.Listed s v.files v.registry v.session.locks v.session.attempt

theorem removal_came {disk disk' : Disk File Owner} {locks locks' : List File}
    {removal removal' : Removal File}
    (moved : removalStep s disk locks effect removal = some (disk',locks',removal')) (f : File)
    (c : Content Owner) (found : disk' f = some c) : disk f = some c := by
  cases removal_files moved f with
  | inl same => rw [← same, found]
  | inr taken =>
    rw [taken.2] at found
    cases found

theorem removal_kept {disk disk' : Disk File Owner} {locks locks' : List File}
    {removal removal' : Removal File}
    (moved : removalStep s disk locks effect removal = some (disk',locks',removal')) {f : File}
    (member : f ∈ locks) : f ∈ locks' ∨ f ∈ removal.gone ∧ disk' = disk := by
  rcases removal with ⟨todo,stage⟩
  cases todo with
  | nil => cases moved
  | cons g rest =>
    cases stage with
    | look | unlink =>
      rw [removalStep] at moved
      split_ifs at moved
      cases moved
      exact .inl member
    | forget =>
      rw [removalStep] at moved
      split_ifs at moved
      cases moved
      by_cases same : f = g
      · subst same
        exact .inr ⟨List.mem_singleton_self f,rfl⟩
      · exact .inl (List.mem_filter.mpr ⟨member,by simpa using same⟩)

theorem register_listed (listed : v.Listed s) (current : v.session.attempt = some attempt)
    (pc : attempt.pc = .register) : (v.advance home owners s attempt effect).Listed s := by
  have settled : Settled v.session.attempt := by
    intro _ same
    rw [current] at same
    cases same
    simp [pc]
  simp only [View.advance, pc]
  cases effect with
  | done =>
    intro healthy
    have before := listed (proceed_storage.symm.trans healthy)
    have inside : ∀ f c, v.files f = some c → c.owner = s → f ∈ v.session.locks :=
      fun f c found own => before.settled settled found own
    constructor
    · exact fun f c found own => List.mem_append_left _ (inside f c found own)
    · intro f c found own
      apply Or.inl
      show f ∈ (v.session.proceed attempt.todo attempt.acquired).locks
      rw [proceed_locks]
      exact inside f c found own
    · intro a same _ f member
      rw [(proceed_attempt same).2] at member
      exact List.mem_append_right _ member
  | failed => rintro ⟨⟩
  | unsynced => rintro ⟨⟩

theorem create_listed {f : File} {rest : List File} (listed : v.Listed s)
    (current : v.session.attempt = some attempt) (pc : attempt.pc = .create)
    (todo : attempt.todo = f :: rest) : (v.advance home owners s attempt effect).Listed s := by
  simp only [View.advance, pc, todo]
  split_ifs
  · cases found : v.files f with
    | none =>
      intro healthy
      have before := listed healthy
      have settled : Settled v.session.attempt := by
        intro _ same
        rw [current] at same
        cases same
        simp [pc]
      have planned := before.planned attempt current (by simp [pc])
      rw [todo] at planned
      constructor
      · intro g c there own
        by_cases same : g = f
        · rw [same]
          exact planned f List.mem_cons_self
        · exact before.listed g c ((Function.update_of_ne same _ _).symm.trans there) own
      · intro g c there own
        by_cases same : g = f
        · subst same
          exact .inr ⟨_,rest,rfl,rfl,rfl⟩
        · exact .inl (before.settled settled ((Function.update_of_ne same _ _).symm.trans there) own)
      · intro _ same _
        cases same
        exact planned
    | some c =>
      intro healthy
      have before := listed healthy
      rw [current] at before
      exact before.next (by simp [pc]) (by simp [pc]) todo.symm
  · rintro ⟨⟩

theorem write_listed {f : File} {rest : List File} (listed : v.Listed s)
    (current : v.session.attempt = some attempt) (pc : attempt.pc = .write)
    (todo : attempt.todo = f :: rest) : (v.advance home owners s attempt effect).Listed s := by
  simp only [View.advance, pc, todo]
  cases effect with
  | done =>
    intro healthy
    change (Session.proceed { v.session with locks := v.session.locks ++ [f] } rest
      (attempt.acquired ++ [f])).storageFailed = false at healthy
    rw [proceed_storage] at healthy
    have before := listed healthy
    have planned := before.planned attempt current (by simp [pc])
    rw [todo] at planned
    constructor
    · intro g c there own
      by_cases same : g = f
      · rw [same]
        exact planned f List.mem_cons_self
      · exact before.listed g c ((Function.update_of_ne same _ _).symm.trans there) own
    · intro g c there own
      apply Or.inl
      show g ∈ (Session.proceed { v.session with locks := v.session.locks ++ [f] } rest
        (attempt.acquired ++ [f])).locks
      rw [proceed_locks]
      by_cases same : g = f
      · rw [same]
        exact List.mem_append_right _ (List.mem_singleton_self f)
      · cases before.known g c ((Function.update_of_ne same _ _).symm.trans there) own with
        | inl inside => exact List.mem_append_left _ inside
        | inr writing =>
          obtain ⟨a,_,mine,_,head⟩ := writing
          rw [current] at mine
          cases mine
          rw [todo] at head
          cases head
          exact absurd rfl same
    · intro a same _ g member
      rw [(proceed_attempt same).2] at member
      exact planned g (List.mem_cons_of_mem f member)
  | failed => rintro ⟨⟩
  | unsynced => rintro ⟨⟩

theorem clean_listed {removal : Removal File} {answer : Answer} (sound : Sound s v.files v.session)
    (listed : v.Listed s) (current : v.session.attempt = some attempt)
    (pc : attempt.pc = .clean removal answer) :
    (v.advance home owners s attempt effect).Listed s := by
  have settled : Settled v.session.attempt := by
    intro _ same
    rw [current] at same
    cases same
    simp [pc]
  have gone : attempt.gone = removal.gone := by rw [Attempt.gone, pc]
  simp only [View.advance, pc]
  cases moved : removalStep s v.files v.session.locks effect removal with
  | none => exact fun healthy => (listed healthy).drop settled
  | some result =>
    rcases result with ⟨disk,locks,removal'⟩
    intro healthy
    have before := listed healthy
    have absent := sound.lists.absent
    rw [gone_current _ current, gone] at absent
    apply before.turn settled (removal_came moved)
    · intro f member
      apply (removal_kept moved member).imp_right
      intro left
      obtain ⟨taken,same⟩ := left
      subst same
      exact absent f (List.mem_append_left _ taken)
    · intro _ same _
      cases same
      exact before.planned attempt current (by simp [pc])

theorem advance_listed (sound : Sound s v.files v.session) (listed : v.Listed s)
    (current : v.session.attempt = some attempt) :
    (v.advance home owners s attempt effect).Listed s := by
  have next : ∀ b : Attempt File Owner, attempt.pc ≠ .write → attempt.pc ≠ .register →
      b.todo = attempt.todo → (v.keep (v.session.going b)).Listed s := by
    intro b settled started same healthy
    have before := listed healthy
    rw [current] at before
    exact before.next settled started same
  cases pc : attempt.pc with
  | register => exact register_listed listed current pc
  | create =>
    cases todo : attempt.todo with
    | nil =>
      simp only [View.advance, pc, todo]
      exact listed
    | cons f rest => exact create_listed listed current pc todo
  | write =>
    cases todo : attempt.todo with
    | nil =>
      simp only [View.advance, pc, todo]
      exact listed
    | cons f rest => exact write_listed listed current pc todo
  | read =>
    cases todo : attempt.todo with
    | nil =>
      simp only [View.advance, pc, todo]
      exact listed
    | cons f rest =>
      simp only [View.advance, pc, todo]
      split_ifs
      · cases found : v.files f with
        | none => exact next _ (by simp [pc]) (by simp [pc]) rfl
        | some content =>
          rcases content with ⟨o,written⟩
          cases written with
          | false => exact next _ (by simp [pc]) (by simp [pc]) rfl
          | true => exact next _ (by simp [pc]) (by simp [pc]) todo.symm
      · exact next _ (by simp [pc]) (by simp [pc]) rfl
  | owner o =>
    simp only [View.advance, pc]
    split_ifs
    · exact next _ (by simp [pc]) (by simp [pc]) rfl
    · exact next _ (by simp [pc]) (by simp [pc]) rfl
  | reread o =>
    cases todo : attempt.todo with
    | nil =>
      simp only [View.advance, pc, todo]
      exact listed
    | cons f rest =>
      simp only [View.advance, pc, todo]
      split_ifs
      · exact next _ (by simp [pc]) (by simp [pc]) rfl
      · exact next _ (by simp [pc]) (by simp [pc]) rfl
  | clean removal answer => exact clean_listed sound listed current pc

theorem remove_listed {i : ℕ} {held : List File} {removal : Removal File}
    (sound : Sound s v.files v.session) (listed : v.Listed s)
    (found : v.session.handles[i]? = some ⟨held,.releasing removal⟩) :
    (v.remove s i held removal effect).Listed s := by
  simp only [View.remove]
  split_ifs
  · exact listed
  · cases moved : removalStep s v.files v.session.locks effect removal with
    | none => exact listed
    | some result =>
      rcases result with ⟨disk,locks,removal'⟩
      intro healthy
      have before := listed healthy
      have absent := (sound.apart found).absent
      constructor
      · exact fun f c there own => before.listed f c (removal_came moved f c there) own
      · intro f c there own
        cases before.known f c (removal_came moved f c there) own with
        | inl inside =>
          cases removal_kept moved inside with
          | inl still => exact .inl still
          | inr left =>
            obtain ⟨taken,same⟩ := left
            subst same
            exact absurd own (absent f (List.mem_append_left _ taken) c there)
        | inr writing => exact .inr writing
      · exact before.planned

end Calls

section Worlds

variable {File Owner Project Ticket : Type} {home : Owner → Project}
  {w w' : World File Owner Project Ticket} {s : Owner} {r : Ticket} {recovery : Recovery File Owner}
  {effect : Effect}

/-- Where the recovery has yet to look for files that name its owner. -/
def RecoveryPc.Leaves (f : File) : RecoveryPc File → Prop
  | .sweep todo _ => f ∈ todo
  | .retire => False
  | .closing retired => retired = false
  | .finished retired => retired = false
  | _ => True

/-- What the stored lists have to do with the disk. -/
structure Stored (w : World File Owner Project Ticket) : Prop where
  lists : ∀ s, (w.view s).Listed s
  swept : ∀ r recovery, w.recoveries r = some recovery →
    (w.sessions recovery.owner).storageFailed = false → ∀ f c, w.files f = some c →
      c.owner = recovery.owner → recovery.pc.Leaves f

theorem stored_empty : Stored (empty : World File Owner Project Ticket) where
  lists := fun _ _ => ⟨nofun,nofun,nofun⟩
  swept := nofun

theorem RecoveryPc.leaves {pc : RecoveryPc File} {f : File} (unverified : ¬pc.Verified) : pc.Leaves f := by
  cases pc with
  | guard | verify => trivial
  | load | sweep _ _ | retire => exact absurd trivial unverified
  | closing retired =>
    cases retired with
    | false => rfl
    | true => exact absurd rfl unverified
  | finished retired =>
    cases retired with
    | false => rfl
    | true => exact absurd rfl unverified

variable [DecidableEq Owner]

theorem Stored.session (stored : Stored w) (inv : Inv home w)
    (alive : (w.sessions s).status ≠ .dead) {v : View File Owner}
    {owners : Project → Option Owner} (acts : Acts Content.owner s w.files v.files)
    (listed : v.Listed s) : Stored { w.become s v with owners := owners } where
  lists := by
    intro o
    by_cases same : o = s
    · subst same
      simp only [World.view, World.become, Function.update_self]
      exact listed
    · simp only [World.view, World.become, Function.update_of_ne same]
      exact fun healthy => (stored.lists o healthy).frame acts same
  swept := by
    intro r recovery found healthy f c there own
    by_cases verified : recovery.pc.Verified
    · have dead := inv.dead r recovery found verified
      have other : recovery.owner ≠ s := by
        intro same
        exact alive (same ▸ dead)
      simp only [World.become, Function.update_of_ne other] at healthy
      have before := acts.came there (fun same => other (own.symm.trans same))
      exact stored.swept r recovery found healthy f c before own
    · exact RecoveryPc.leaves verified

variable [DecidableEq Ticket]

omit [DecidableEq Owner] in
theorem Stored.recover (stored : Stored w) {next : Recovery File Owner} {files : Disk File Owner}
    {guards : Project → Option Ticket} {owners : Project → Option Owner}
    (fewer : ∀ f c, files f = some c → w.files f = some c)
    (leaves : (w.sessions next.owner).storageFailed = false → ∀ f c, files f = some c →
      c.owner = next.owner → next.pc.Leaves f) :
    Stored { w.setRecovery r next with files := files, guards := guards, owners := owners } where
  lists := by
    intro s healthy
    have before := stored.lists s healthy
    exact ⟨fun f c there => before.listed f c (fewer f c there),
      fun f c there => before.known f c (fewer f c there),before.planned⟩
  swept := by
    intro r' recovery found healthy f c there own
    by_cases same : r' = r
    · subst same
      simp only [World.setRecovery, Function.update_self, Option.some.injEq] at found
      subst found
      exact leaves healthy f c there own
    · simp only [World.setRecovery, Function.update_of_ne same] at found
      exact stored.swept r' recovery found healthy f c (fewer f c there) own

omit [DecidableEq Owner] in
theorem Stored.go (stored : Stored w) {next : Recovery File Owner}
    (leaves : (w.sessions next.owner).storageFailed = false → ∀ f c, w.files f = some c →
      c.owner = next.owner → next.pc.Leaves f) : Stored (w.setRecovery r next) := by
  show Stored { w.setRecovery r next with
    files := w.files
    guards := w.guards
    owners := w.owners }
  exact stored.recover (fun _ _ there => there) leaves

variable [DecidableEq File] [DecidableEq Project]

theorem sweep_stored {todo : List File} {stage : SweepStage} (stored : Stored w)
    (found : w.recoveries r = some recovery) (pc : recovery.pc = .sweep todo stage) :
    Stored (w.pursue home r recovery effect) := by
  have closing : Stored (w.setRecovery r { recovery with pc := .closing false }) :=
    stored.go (fun _ _ _ _ _ => rfl)
  have left := stored.swept r recovery found
  cases todo with
  | nil =>
    simp only [World.pursue, pc]
    rw [pc] at left
    apply stored.go
    intro healthy f c there own
    cases left healthy f c there own
  | cons f rest =>
    have keep : ∀ next, Stored (w.setRecovery r { recovery with pc := .sweep (f :: rest) next }) := by
      intro next
      rw [pc] at left
      exact stored.go left
    have drop : ∀ {files : Disk File Owner}, (∀ g c, files g = some c → w.files g = some c) →
        (∀ c, files f = some c → c.owner ≠ recovery.owner) →
        (w.sessions recovery.owner).storageFailed = false → ∀ g c, files g = some c →
          c.owner = recovery.owner → g ∈ rest := by
      intro files fewer foreign healthy g c there own
      have inside := left healthy g c (fewer g c there) own
      rw [pc] at inside
      cases List.mem_cons.mp inside with
      | inl same =>
        subst same
        exact absurd own (foreign c there)
      | inr later => exact later
    have removed : ∀ g c, Function.update w.files f none g = some c → w.files g = some c := by
      intro g c there
      by_cases same : g = f
      · rw [same, Function.update_self] at there
        cases there
      · rw [Function.update_of_ne same] at there
        exact there
    cases stage with
    | look =>
      simp only [World.pursue, pc]
      split_ifs
      · cases there : w.files f with
        | none =>
          apply stored.go
          exact drop (fun _ _ same => same) (by simp [there])
        | some content =>
          rcases content with ⟨other,written⟩
          cases written with
          | false => exact closing
          | true =>
            dsimp only
            split_ifs with same
            · exact keep .compare
            · apply stored.go
              apply drop (fun _ _ same => same)
              intro c found
              rw [there] at found
              cases found
              exact same
      · exact closing
    | compare =>
      simp only [World.pursue, pc]
      split_ifs
      · exact keep .unlink
      · exact closing
    | unlink =>
      simp only [World.pursue, pc]
      cases effect with
      | done =>
        apply stored.recover removed
        apply drop removed
        intro c found
        rw [Function.update_self] at found
        cases found
      | failed => exact closing
      | unsynced => exact stored.recover removed (fun _ _ _ _ _ => rfl)

theorem pursue_stored (stored : Stored w) (found : w.recoveries r = some recovery) :
    Stored (w.pursue home r recovery effect) := by
  have closing : Stored (w.setRecovery r { recovery with pc := .closing false }) :=
    stored.go (fun _ _ _ _ _ => rfl)
  have left := stored.swept r recovery found
  have here : ∀ f c, w.files f = some c → w.files f = some c := fun _ _ there => there
  cases pc : recovery.pc with
  | guard =>
    simp only [World.pursue, pc]
    split_ifs
    · exact stored.recover here (fun _ _ _ _ _ => trivial)
    · exact stored.go (fun _ _ _ _ _ => rfl)
  | verify =>
    simp only [World.pursue, pc]
    split_ifs
    · exact stored.go (fun _ _ _ _ _ => trivial)
    · exact closing
  | load =>
    simp only [World.pursue, pc]
    split_ifs
    · apply stored.go
      intro healthy f c there own
      exact (stored.lists recovery.owner healthy).listed f c there own
    · exact closing
  | sweep todo stage => exact sweep_stored stored found pc
  | retire =>
    rw [pc] at left
    simp only [World.pursue, pc]
    split_ifs
    · cases effect with
      | done =>
        apply stored.recover here
        intro healthy f c there own
        exact (left healthy f c there own).elim
      | failed => exact closing
      | unsynced => exact stored.recover here (fun _ _ _ _ _ => rfl)
    · exact closing
  | closing retired =>
    rw [pc] at left
    simp only [World.pursue, pc]
    split_ifs
    · exact stored.recover here left
    · exact stored.go left
  | finished retired =>
    simp only [World.pursue, pc]
    exact stored

omit [DecidableEq Ticket] [DecidableEq File] [DecidableEq Project] in
theorem Stored.safe (stored : Stored w) (inv : Inv home w) (live : (w.sessions s).status = .live)
    {v : View File Owner} (safe : Safe s (w.view s) v) (listed : v.Listed s) :
    Stored (w.become s v) := by
  have alive : (w.sessions s).status ≠ .dead := by simp [live]
  show Stored { w.become s v with owners := w.owners }
  exact stored.session inv alive safe.2 listed

theorem step_stored {event : Event File Owner Ticket} (inv : Inv home w) (stored : Stored w)
    (moved : step home w event = some w') : Stored w' := by
  have sound : ∀ {s}, (w.sessions s).status = .live → Sound s w.files (w.sessions s) :=
    fun live => inv.sound _ (by simp [live])
  cases event with
  | launch s =>
    simp only [step] at moved
    split_ifs at moved with ready
    cases moved
    exact stored.session inv (by simp [ready.1]) .refl (stored.lists s)
  | attempt s files =>
    simp only [step] at moved
    split_ifs at moved with ready held
    · cases moved
      exact stored
    · cases moved
      show Stored { w.become s ((w.view s).keep ((w.sessions s).going ⟨files,[],.register⟩)) with
        owners := w.owners }
      apply stored.session inv (by simp [ready.1]) .refl
      intro healthy
      have before := stored.lists s healthy
      apply before.turn
      · intro _ current
        rw [show (w.view s).session.attempt = none from ready.2] at current
        cases current
      · exact fun _ _ there => there
      · exact fun _ member => .inl member
      · intro _ same pc
        cases same
        exact absurd rfl pc
  | advance s effect =>
    simp only [step] at moved
    split at moved
    · rename_i live current
      cases moved
      exact stored.safe inv live (advance_safe (sound live) current)
        (advance_listed (sound live) (stored.lists s) current)
    · cases moved
  | release s i =>
    simp only [step] at moved
    split at moved
    · rename_i live found
      cases moved
      exact stored.safe inv live (safe_same (release_safe (sound live) found)) (stored.lists s)
    · cases moved
  | remove s i effect =>
    simp only [step] at moved
    split at moved
    · rename_i live found
      cases moved
      exact stored.safe inv live (remove_safe (sound live) found)
        (remove_listed (sound live) (stored.lists s) found)
    · cases moved
  | finish s effect =>
    rw [step, Option.ite_none_right_eq_some] at moved
    obtain ⟨ready,same⟩ := moved
    cases same
    exact stored.session inv (by simp [ready.1]) .refl (stored.lists s)
  | crash s =>
    simp only [step] at moved
    split_ifs at moved with live
    cases moved
    exact stored.safe inv live (safe_same (sound live).enter) (stored.lists s)
  | recover r o =>
    simp only [step] at moved
    split_ifs at moved
    cases moved
    exact stored.go (fun _ _ _ _ _ => trivial)
  | pursue r effect =>
    simp only [step, Option.map_eq_some_iff] at moved
    obtain ⟨recovery,found,same⟩ := moved
    subst same
    exact pursue_stored stored found
  | desert r =>
    simp only [step, Option.map_eq_some_iff] at moved
    obtain ⟨recovery,found,same⟩ := moved
    subst same
    exact stored.go (fun _ _ _ _ _ => rfl)

theorem stored_reachable (run : Reachable home w) : Stored w := by
  induction run with
  | empty => exact stored_empty
  | step event before moved stored => exact step_stored (inv_reachable before) stored moved

/-- Two sessions hold a lock each, the process of one dies, and its owner is retired. -/
def recoveredEvents : List (Event ℕ ℕ ℕ) :=
  [.launch 0,.launch 1,.attempt 0 [7],.attempt 1 [8]] ++ List.replicate 3 (.advance 0 .done) ++
    List.replicate 3 (.advance 1 .done) ++ [.crash 0,.recover 5 0] ++
    List.replicate 8 (.pursue 5 .done)

theorem recovered_ran : (run id recoveredEvents).isSome := by decide

def recovered : World ℕ ℕ ℕ ℕ := (run id recoveredEvents).get recovered_ran

theorem recovered_reached : Reachable id recovered := reachable_run (Option.some_get recovered_ran).symm

theorem recovered_found : recovered.recoveries 5 = some ⟨0,.closing true⟩ := by decide

/-- When a recovery has retired an owner, no lock file names it any more, unless the session had met
a storage failure. -/
theorem recovery_clears (run : Reachable home w) (found : w.recoveries r = some recovery)
    (retired : recovery.pc = .closing true ∨ recovery.pc = .finished true)
    (healthy : (w.sessions recovery.owner).storageFailed = false) {f : File} {c : Content Owner}
    (there : w.files f = some c) : c.owner ≠ recovery.owner := by
  intro own
  have leaves := (stored_reachable run).swept r recovery found healthy f c there own
  cases retired with
  | inl pc =>
    rw [pc] at leaves
    cases leaves
  | inr pc =>
    rw [pc] at leaves
    cases leaves

theorem recovery_clears_sample : (⟨1,true⟩ : Content ℕ).owner ≠ 0 :=
  have found : recovered.files 8 = some ⟨1,true⟩ := by decide
  recovery_clears recovered_reached recovered_found (.inl rfl) rfl found

/-- A session that is released leaves no lock file that names it. -/
theorem finish_clears (run : Reachable home w) {effect : Effect}
    (moved : step home w (.finish s effect : Event File Owner Ticket) = some w') {f : File}
    {c : Content Owner} (there : w'.files f = some c) : c.owner ≠ s := by
  rw [step, Option.ite_none_right_eq_some] at moved
  obtain ⟨ready,same⟩ := moved
  obtain ⟨_,idle,unlocked,healthy,_⟩ := ready
  cases same
  intro own
  have settled : Settled (w.view s).session.attempt := by
    intro _ current
    rw [show (w.view s).session.attempt = none from idle] at current
    cases current
  have inside := ((stored_reachable run).lists s healthy).settled settled there own
  rw [show (w.view s).session.locks = [] from unlocked] at inside
  cases inside

def releasedEvents : List (Event ℕ ℕ ℕ) :=
  [.launch 0,.launch 1,.attempt 0 [7],.attempt 1 [8]] ++ List.replicate 3 (.advance 0 .done) ++
    List.replicate 3 (.advance 1 .done) ++ [.release 0 0] ++ List.replicate 4 (.remove 0 0 .done)

theorem released_ran : (run id releasedEvents).isSome := by decide

def released : World ℕ ℕ ℕ ℕ := (run id releasedEvents).get released_ran

theorem released_reached : Reachable id released := reachable_run (Option.some_get released_ran).symm

theorem finish_clears_sample : ∃ w', step id released (.finish 0 .done) = some w' ∧
    w'.files 8 = some ⟨1,true⟩ ∧ ∀ f c, w'.files f = some c → c.owner ≠ 0 :=
  have moved : step id released (.finish 0 .done) = some _ := rfl
  ⟨_,moved,by decide,fun _ _ there => finish_clears released_reached moved there⟩

end Worlds

end LockFiles

end EvidenceV4
