import EvidenceV4.LockFiles
import Mathlib.Data.List.Flatten
import Mathlib.Data.List.Perm.Subperm

/-!
# What the lock files guarantee

A session claims the files that its calls have created and have not yet taken
back. Whatever the processes do in between, a claimed file names its session, so
that a lock that one session holds is held by no other.
-/

set_option autoImplicit false

namespace EvidenceV4

namespace LockFiles

open OwnedCells

section Claims

variable {File Owner : Type}

def Removal.claims (removal : Removal File) : List File :=
  match removal.stage with
  | .forget => removal.todo.tail
  | _ => removal.todo

/-- The file that is removed and still in the session's own record. -/
def Removal.gone (removal : Removal File) : List File :=
  match removal.stage with
  | .forget => removal.todo.take 1
  | _ => []

def Attempt.claims (attempt : Attempt File Owner) : List File :=
  match attempt.pc with
  | .clean removal _ => removal.claims
  | _ => attempt.acquired

def Attempt.gone (attempt : Attempt File Owner) : List File :=
  match attempt.pc with
  | .clean removal _ => removal.gone
  | _ => []

def Handle.claims (handle : Handle File) : List File :=
  match handle.phase with
  | .held => handle.files
  | .releasing removal => removal.claims
  | _ => []

def Handle.gone (handle : Handle File) : List File :=
  match handle.phase with
  | .releasing removal => removal.gone
  | _ => []

def Session.claims (session : Session File Owner) : List File :=
  session.attempt.toList.flatMap Attempt.claims ++ session.handles.flatMap Handle.claims

def Session.gone (session : Session File Owner) : List File :=
  session.attempt.toList.flatMap Attempt.gone ++ session.handles.flatMap Handle.gone

end Claims

section Lists

variable {File Owner : Type} {s : Owner} {disk disk' : Disk File Owner}
  {locks locks' claims claims' gone gone' : List File} {f : File}

/-- Claimed files are on disk under the session's name, removed ones are not, and the session's
own record has both. -/
structure Lists (s : Owner) (disk : Disk File Owner) (locks claims gone : List File) : Prop where
  apart : (claims ++ gone).Nodup
  own : ∀ f ∈ claims, disk f = some ⟨s,true⟩
  locked : ∀ f ∈ claims ++ gone, f ∈ locks
  absent : ∀ f ∈ gone, ∀ c, disk f = some c → c.owner ≠ s

theorem Lists.subperm (lists : Lists s disk locks claims gone) (fewer : claims'.Subperm claims)
    (left : gone'.Subperm gone) : Lists s disk locks claims' gone' where
  apart := by
    have ⟨_,same,part⟩ := fewer.append left
    exact same.nodup_iff.mp (lists.apart.sublist part)
  own := fun f member => lists.own f (fewer.subset member)
  locked := fun f member => lists.locked f ((fewer.append left).subset member)
  absent := fun f member => lists.absent f (left.subset member)

theorem Lists.frame {actor : Owner} (lists : Lists s disk locks claims gone)
    (acts : Acts Content.owner actor disk disk') (other : s ≠ actor) :
    Lists s disk' locks claims gone where
  apart := lists.apart
  own := fun f member => acts.kept (lists.own f member) other
  locked := lists.locked
  absent := by
    intro f member c found
    by_cases mine : c.owner = actor
    · rw [mine]
      exact other.symm
    · exact lists.absent f member c (acts.came found mine)

theorem Lists.unclaimed (lists : Lists s disk locks claims gone) (other : disk f ≠ some ⟨s,true⟩) :
    f ∉ claims := fun member => other (lists.own f member)

theorem Lists.present (lists : Lists s disk locks claims gone) (other : disk f ≠ some ⟨s,true⟩)
    (unlocked : f ∈ locks → f ∈ claims) : f ∉ gone := fun member =>
  lists.unclaimed other (unlocked (lists.locked f (List.mem_append_right _ member)))

variable [DecidableEq File]

theorem Lists.touch (lists : Lists s disk locks claims gone) (unclaimed : f ∉ claims)
    (present : f ∉ gone) (content : Option (Content Owner)) :
    Lists s (Function.update disk f content) locks claims gone where
  apart := lists.apart
  own := by
    intro g member
    have apart : g ≠ f := ne_of_mem_of_not_mem member unclaimed
    rw [Function.update_of_ne apart]
    exact lists.own g member
  locked := lists.locked
  absent := by
    intro g member
    have apart : g ≠ f := ne_of_mem_of_not_mem member present
    rw [Function.update_of_ne apart]
    exact lists.absent g member

theorem Lists.write (lists : Lists s disk locks claims gone) (unclaimed : f ∉ claims)
    (present : f ∉ gone) :
    Lists s (Function.update disk f (some ⟨s,true⟩)) (locks ++ [f]) (f :: claims) gone := by
  have touched := lists.touch unclaimed present (some ⟨s,true⟩)
  constructor
  · rw [List.cons_append, List.nodup_cons, List.mem_append]
    exact ⟨fun member => member.elim unclaimed present,lists.apart⟩
  · intro g member
    cases List.mem_cons.mp member with
    | inl same => rw [same, Function.update_self]
    | inr before => exact touched.own g before
  · intro g member
    rw [List.cons_append, List.mem_cons] at member
    cases member with
    | inl same =>
      rw [same]
      exact List.mem_append_right _ (List.mem_singleton_self f)
    | inr before => exact List.mem_append_left _ (lists.locked g before)
  · exact touched.absent

theorem Lists.unlink (lists : Lists s disk locks (f :: claims) gone) :
    Lists s (Function.update disk f none) locks claims (f :: gone) := by
  have apart : (claims ++ f :: gone).Nodup := List.perm_middle.nodup_iff.mpr lists.apart
  have unclaimed : f ∉ claims := fun member =>
    (List.nodup_cons.mp lists.apart).1 (List.mem_append_left _ member)
  constructor
  · exact apart
  · intro g member
    have other : g ≠ f := fun same => unclaimed (same ▸ member)
    rw [Function.update_of_ne other]
    exact lists.own g (List.mem_cons_of_mem f member)
  · intro g member
    exact lists.locked g (List.perm_middle.mem_iff.mp member)
  · intro g member c found
    by_cases same : g = f
    · rw [same, Function.update_self] at found
      cases found
    · rw [Function.update_of_ne same] at found
      exact lists.absent g ((List.mem_cons.mp member).resolve_left same) c found

theorem Lists.forget (lists : Lists s disk locks claims (f :: gone)) :
    Lists s disk (locks.filter (· ≠ f)) claims gone := by
  have apart : (f :: (claims ++ gone)).Nodup := List.perm_middle.nodup_iff.mp lists.apart
  have ⟨away,rest⟩ := List.nodup_cons.mp apart
  constructor
  · exact rest
  · exact lists.own
  · intro g member
    have other : g ≠ f := fun same => away (same ▸ member)
    have inside := lists.locked g (List.perm_middle.mem_iff.mpr (List.mem_cons_of_mem f member))
    exact List.mem_filter.mpr ⟨inside,by simpa using other⟩
  · exact fun g member => lists.absent g (List.mem_cons_of_mem f member)

end Lists

section Removals

variable {File Owner : Type} [DecidableEq File] [DecidableEq Owner] {s : Owner}
  {disk disk' : Disk File Owner} {locks locks' others present : List File}
  {removal removal' : Removal File} {effect : Effect}

theorem removal_lists
    (lists : Lists s disk locks (removal.claims ++ others) (removal.gone ++ present))
    (moved : removalStep s disk locks effect removal = some (disk',locks',removal')) :
    Lists s disk' locks' (removal'.claims ++ others) (removal'.gone ++ present) := by
  rcases removal with ⟨todo,stage⟩
  cases todo with
  | nil => cases moved
  | cons f rest =>
    cases stage with
    | look =>
      rw [removalStep] at moved
      split_ifs at moved
      cases moved
      exact lists
    | unlink =>
      rw [removalStep] at moved
      split_ifs at moved
      cases moved
      exact lists.unlink
    | forget =>
      rw [removalStep] at moved
      split_ifs at moved
      cases moved
      exact lists.forget

/-- A removal takes away claimed files and nothing else. -/
theorem removal_files (moved : removalStep s disk locks effect removal = some (disk',locks',removal'))
    (f : File) : disk' f = disk f ∨ f ∈ removal.claims ∧ disk' f = none := by
  rcases removal with ⟨todo,stage⟩
  cases todo with
  | nil => cases moved
  | cons g rest =>
    cases stage with
    | look =>
      rw [removalStep] at moved
      split_ifs at moved
      cases moved
      exact .inl rfl
    | unlink =>
      rw [removalStep] at moved
      split_ifs at moved
      cases moved
      by_cases same : f = g
      · subst same
        exact .inr ⟨List.mem_cons_self,Function.update_self _ _ _⟩
      · exact .inl (Function.update_of_ne same _ _)
    | forget =>
      rw [removalStep] at moved
      split_ifs at moved
      cases moved
      exact .inl rfl

theorem removal_locks (moved : removalStep s disk locks effect removal = some (disk',locks',removal'))
    {f : File} (member : f ∈ locks') : f ∈ locks := by
  rcases removal with ⟨todo,stage⟩
  cases todo with
  | nil => cases moved
  | cons g rest =>
    cases stage with
    | look | unlink =>
      rw [removalStep] at moved
      split_ifs at moved
      cases moved
      exact member
    | forget =>
      rw [removalStep] at moved
      split_ifs at moved
      cases moved
      exact List.mem_of_mem_filter member

/-- A file that leaves the list of a removal is gone. -/
theorem removal_todo (moved : removalStep s disk locks effect removal = some (disk',locks',removal'))
    {f : File} (member : f ∈ removal.todo) : f ∈ removal'.todo ∨ f ∈ removal.gone ∧ disk' = disk := by
  rcases removal with ⟨todo,stage⟩
  cases todo with
  | nil => cases moved
  | cons g rest =>
    cases stage with
    | look | unlink =>
      rw [removalStep] at moved
      split_ifs at moved
      cases moved
      exact .inl member
    | forget =>
      rw [removalStep] at moved
      split_ifs at moved
      cases moved
      cases List.mem_cons.mp member with
      | inl same =>
        subst same
        exact .inr ⟨List.mem_singleton_self f,rfl⟩
      | inr later => exact .inl later

end Removals

section Sessions

variable {File Owner : Type} {s : Owner} {disk disk' : Disk File Owner}
  {session : Session File Owner}

def Foreign (s : Owner) (disk : Disk File Owner) (f : File) : Prop :=
  ∀ c, disk f = some c → c.owner ≠ s

/-- What holds of the record of a live session and the disk. -/
structure Sound (s : Owner) (disk : Disk File Owner) (session : Session File Owner) : Prop where
  lists : Lists s disk session.locks session.claims session.gone
  writing : ∀ attempt f rest, session.attempt = some attempt → attempt.pc = .write →
    attempt.todo = f :: rest → disk f = some ⟨s,false⟩
  unlocked : ∀ attempt, session.attempt = some attempt → ∀ f ∈ attempt.todo, f ∈ session.locks →
    f ∈ attempt.acquired
  cleaned : ∀ attempt removal answer, session.attempt = some attempt →
    attempt.pc = .clean removal answer → ∀ f ∈ attempt.acquired,
      f ∈ removal.todo ∨ Foreign s disk f

theorem Foreign.frame {actor : Owner} {f : File} (foreign : Foreign s disk f)
    (acts : Acts Content.owner actor disk disk') (other : s ≠ actor) : Foreign s disk' f := by
  intro c found
  by_cases mine : c.owner = actor
  · rw [mine]
    exact other.symm
  · exact foreign c (acts.came found mine)

theorem Foreign.removed {f : File} {taken : Prop} (foreign : Foreign s disk f)
    (removed : disk' f = disk f ∨ taken ∧ disk' f = none) : Foreign s disk' f := by
  intro c found
  cases removed with
  | inl same => exact foreign c (same ▸ found)
  | inr free =>
    rw [free.2] at found
    cases found

theorem Sound.frame {actor : Owner} (sound : Sound s disk session)
    (acts : Acts Content.owner actor disk disk') (other : s ≠ actor) : Sound s disk' session where
  lists := sound.lists.frame acts other
  writing := fun attempt f rest current pc todo =>
    acts.kept (sound.writing attempt f rest current pc todo) other
  unlocked := sound.unlocked
  cleaned := fun attempt removal answer current pc f member =>
    (sound.cleaned attempt removal answer current pc f member).imp_right
      (fun foreign => foreign.frame acts other)

end Sessions

section Calls

variable {File Owner Project : Type} {home : Owner → Project} {owners : Project → Option Owner}
  {s : Owner} {v : View File Owner} {attempt attempt' : Attempt File Owner} {effect : Effect}

theorem claims_current (session : Session File Owner) (current : session.attempt = some attempt) :
    session.claims = attempt.claims ++ session.handles.flatMap Handle.claims := by
  rw [Session.claims, current]
  simp

theorem gone_current (session : Session File Owner) (current : session.attempt = some attempt) :
    session.gone = attempt.gone ++ session.handles.flatMap Handle.gone := by
  rw [Session.gone, current]
  simp

/-- A call that ends leaves what it has claimed to nobody. -/
theorem Sound.leave (sound : Sound s v.files v.session) (failed : Bool) :
    Sound s v.files { v.session with attempt := none, storageFailed := failed } where
  lists := sound.lists.subperm (List.sublist_append_right _ _).subperm
    (List.sublist_append_right _ _).subperm
  writing := nofun
  unlocked := nofun
  cleaned := nofun

/-- A call goes on without a change of the disk. -/
theorem Sound.going (sound : Sound s v.files v.session) (current : v.session.attempt = some attempt)
    (claims : attempt'.claims.Subperm attempt.claims) (gone : attempt'.gone.Subperm attempt.gone)
    (writing : attempt'.pc ≠ .write)
    (todo : ∀ f ∈ attempt'.todo, f ∈ v.session.locks → f ∈ attempt'.acquired)
    (cleaned : ∀ removal answer, attempt'.pc = .clean removal answer →
      ∀ f ∈ attempt'.acquired, f ∈ removal.todo ∨ Foreign s v.files f) :
    Sound s v.files (v.session.going attempt') where
  lists := by
    have lists := sound.lists
    rw [claims_current _ current, gone_current _ current] at lists
    rw [claims_current (v.session.going attempt') rfl, gone_current (v.session.going attempt') rfl]
    exact lists.subperm (claims.append (List.Subperm.refl _)) (gone.append (List.Subperm.refl _))
  writing := by
    intro _ _ _ same pc
    cases same
    exact absurd pc writing
  unlocked := by
    intro _ same
    cases same
    exact todo
  cleaned := by
    intro _ removal answer same
    cases same
    exact cleaned removal answer

/-- The loop over the files has taken its claims so far to the next file or to a handle. -/
theorem Sound.proceed {session : Session File Owner} {disk : Disk File Owner}
    {todo acquired : List File}
    (lists : Lists s disk session.locks (acquired ++ session.handles.flatMap Handle.claims)
      (session.handles.flatMap Handle.gone))
    (unlocked : ∀ f ∈ todo, f ∈ session.locks → f ∈ acquired) :
    Sound s disk (session.proceed todo acquired) := by
  cases todo with
  | nil =>
    constructor
    · apply lists.subperm
      · show (List.flatMap Handle.claims (session.handles ++ [⟨acquired,.held⟩])).Subperm _
        rw [List.flatMap_append, List.flatMap_singleton]
        exact List.perm_append_comm.subperm
      · show (List.flatMap Handle.gone (session.handles ++ [⟨acquired,.held⟩])).Subperm _
        rw [List.flatMap_append, List.flatMap_singleton]
        exact (List.append_nil _).symm ▸ List.Subperm.refl _
    · exact nofun
    · exact nofun
    · exact nofun
  | cons f rest =>
    constructor
    · rw [claims_current (session.proceed (f :: rest) acquired) rfl,
        gone_current (session.proceed (f :: rest) acquired) rfl]
      exact lists
    · intro _ _ _ same pc
      cases same
      cases pc
    · intro _ same
      cases same
      exact unlocked
    · intro _ _ _ same pc
      cases same
      cases pc

theorem Attempt.busy (busy : ∀ removal answer, attempt.pc ≠ .clean removal answer) :
    attempt.claims = attempt.acquired ∧ attempt.gone = [] := by
  rw [Attempt.claims, Attempt.gone]
  split
  · exact absurd ‹_› (busy _ _)
  · exact ⟨rfl,rfl⟩

/-- The call goes on to look at something else. -/
theorem Sound.turn (sound : Sound s v.files v.session) (current : v.session.attempt = some attempt)
    (busy : ∀ removal answer, attempt.pc ≠ .clean removal answer) {next : Pc File Owner}
    (other : next ≠ .write) (busy' : ∀ removal answer, next ≠ .clean removal answer) :
    Sound s v.files (v.session.going { attempt with pc := next }) := by
  have ⟨claims,gone⟩ := Attempt.busy busy
  have ⟨claims',gone'⟩ := @Attempt.busy _ _ { attempt with pc := next } busy'
  apply sound.going current
  · rw [claims, claims']
  · rw [gone, gone']
  · exact other
  · exact sound.unlocked attempt current
  · intro removal answer same
    exact absurd same (busy' removal answer)

/-- The call begins to take back what it has created. -/
theorem Sound.cleaning (sound : Sound s v.files v.session) (answer : Answer)
    (current : v.session.attempt = some attempt)
    (busy : ∀ removal answer, attempt.pc ≠ .clean removal answer) :
    Sound s v.files (v.session.going (attempt.cleaning answer)) := by
  apply sound.going current
  · rw [(Attempt.busy busy).1]
    exact (List.reverse_perm _).subperm
  · exact List.nil_subperm
  · exact nofun
  · exact sound.unlocked attempt current
  · intro removal answer same f member
    cases same
    exact .inl (List.mem_reverse.mpr member)

/-- What a step of a session keeps: its own record is sound, and it acts on its own files only. -/
def Safe (s : Owner) (v v' : View File Owner) : Prop :=
  Sound s v'.files v'.session ∧ Acts Content.owner s v.files v'.files

theorem safe_same {session : Session File Owner} (sound : Sound s v.files session) :
    Safe s v (v.keep session) := ⟨sound,.refl⟩

/-- The file at the head of the loop is not claimed, unless it is on disk already. -/
theorem Sound.head (sound : Sound s v.files v.session) (current : v.session.attempt = some attempt)
    (busy : attempt.claims = attempt.acquired) {f : File} {rest : List File}
    (todo : attempt.todo = f :: rest) (other : v.files f ≠ some ⟨s,true⟩) :
    f ∉ v.session.claims ∧ f ∉ v.session.gone := by
  use sound.lists.unclaimed other
  apply sound.lists.present other
  intro locked
  rw [claims_current _ current, busy]
  have member : f ∈ attempt.todo := by
    rw [todo]
    exact List.mem_cons_self
  exact List.mem_append_left _ (sound.unlocked attempt current f member locked)

variable [DecidableEq File] [DecidableEq Owner]

theorem create_safe {f : File} {rest : List File} (sound : Sound s v.files v.session)
    (current : v.session.attempt = some attempt) (pc : attempt.pc = .create)
    (todo : attempt.todo = f :: rest) :
    Safe s v (v.advance home owners s attempt effect) := by
  have busy : attempt.claims = attempt.acquired := by rw [Attempt.claims, pc]
  have idle : attempt.gone = [] := by rw [Attempt.gone, pc]
  have unlocked : ∀ g ∈ f :: rest, g ∈ v.session.locks → g ∈ attempt.acquired :=
    todo ▸ sound.unlocked attempt current
  simp only [View.advance, pc, todo]
  split_ifs
  · cases found : v.files f with
    | none =>
      have ⟨unclaimed,present⟩ := sound.head current busy todo (by simp [found])
      have lists := sound.lists.touch unclaimed present (some ⟨s,false⟩)
      rw [claims_current _ current, gone_current _ current, busy, idle] at lists
      dsimp only
      constructor
      · constructor
        · show Lists s _ v.session.locks (v.session.going _).claims (v.session.going _).gone
          rw [claims_current _ rfl, gone_current _ rfl]
          exact lists
        · intro _ g _ same _ next
          cases same
          cases next
          exact Function.update_self _ _ _
        · intro _ same
          cases same
          exact unlocked
        · intro _ _ _ same
          cases same
          exact nofun
      · apply acts_update
        · rw [found]
          exact nofun
        · intro c same
          cases same
          rfl
    | some c =>
      apply safe_same
      apply sound.going current
      · exact busy ▸ List.Subperm.refl _
      · exact List.nil_subperm
      · exact nofun
      · exact unlocked
      · exact nofun
  · exact safe_same (sound.leave true)

theorem write_safe {f : File} {rest : List File} (sound : Sound s v.files v.session)
    (current : v.session.attempt = some attempt) (pc : attempt.pc = .write)
    (todo : attempt.todo = f :: rest) :
    Safe s v (v.advance home owners s attempt effect) := by
  have busy : attempt.claims = attempt.acquired := by rw [Attempt.claims, pc]
  have idle : attempt.gone = [] := by rw [Attempt.gone, pc]
  have created := sound.writing attempt f rest current pc todo
  have ⟨unclaimed,present⟩ := sound.head current busy todo (by simp [created])
  have acts : Acts Content.owner s v.files (Function.update v.files f (some ⟨s,true⟩)) := by
    apply acts_update
    · intro c same
      rw [created] at same
      cases same
      rfl
    · intro c same
      cases same
      rfl
  simp only [View.advance, pc, todo]
  cases effect with
  | done =>
    have lists := sound.lists.write unclaimed present
    rw [claims_current _ current, gone_current _ current, busy, idle] at lists
    constructor
    · apply Sound.proceed
      · apply lists.subperm
        · rw [List.append_assoc]
          exact List.perm_middle.subperm
        · exact List.Subperm.refl _
      · intro g member locked
        rw [List.mem_append] at locked
        cases locked with
        | inl before =>
          have inside : g ∈ attempt.todo := by
            rw [todo]
            exact List.mem_cons_of_mem f member
          exact List.mem_append_left _ (sound.unlocked attempt current g inside before)
        | inr now => exact List.mem_append_right _ now
    · exact acts
  | failed => exact safe_same (sound.leave true)
  | unsynced =>
    have touched := sound.lists.touch unclaimed present (some ⟨s,true⟩)
    constructor
    · constructor
      · exact touched.subperm (List.sublist_append_right _ _).subperm
          (List.sublist_append_right _ _).subperm
      · exact nofun
      · exact nofun
      · exact nofun
    · exact acts

/-- A removal acts on the files of its session. -/
theorem removal_acts {locks locks' : List File} {disk disk' : Disk File Owner}
    {removal removal' : Removal File} (own : ∀ f ∈ removal.claims, disk f = some ⟨s,true⟩)
    (moved : removalStep s disk locks effect removal = some (disk',locks',removal')) :
    Acts Content.owner s disk disk' := by
  intro f
  cases removal_files moved f with
  | inl same => exact .inl same
  | inr taken =>
    have ⟨member,free⟩ := taken
    apply Or.inr
    rw [own f member, free]
    constructor
    · intro c same
      cases same
      rfl
    · exact nofun

theorem clean_safe {removal : Removal File} {answer : Answer} (sound : Sound s v.files v.session)
    (current : v.session.attempt = some attempt) (pc : attempt.pc = .clean removal answer) :
    Safe s v (v.advance home owners s attempt effect) := by
  have claims : attempt.claims = removal.claims := by rw [Attempt.claims, pc]
  have gone : attempt.gone = removal.gone := by rw [Attempt.gone, pc]
  simp only [View.advance, pc]
  cases moved : removalStep s v.files v.session.locks effect removal with
  | none => exact safe_same (sound.leave _)
  | some result =>
    rcases result with ⟨disk,locks,removal'⟩
    have lists := sound.lists
    rw [claims_current _ current, gone_current _ current, claims, gone] at lists
    have own : ∀ f ∈ removal.claims, v.files f = some ⟨s,true⟩ :=
      fun f member => lists.own f (List.mem_append_left _ member)
    dsimp only
    constructor
    · constructor
      · show Lists s disk locks (Session.going _ _).claims (Session.going _ _).gone
        rw [claims_current _ rfl, gone_current _ rfl]
        exact removal_lists lists moved
      · intro _ _ _ same
        cases same
        exact nofun
      · intro _ same f member locked
        cases same
        exact sound.unlocked attempt current f member (removal_locks moved locked)
      · intro _ _ _ same here f member
        cases same
        cases here
        cases sound.cleaned attempt removal answer current pc f member with
        | inl waiting =>
          apply (removal_todo moved waiting).imp_right
          intro left
          have ⟨absent,same⟩ := left
          subst same
          exact lists.absent f (List.mem_append_left _ absent)
        | inr foreign => exact .inr (foreign.removed (removal_files moved f))
    · exact removal_acts own moved

theorem advance_safe (sound : Sound s v.files v.session)
    (current : v.session.attempt = some attempt) :
    Safe s v (v.advance home owners s attempt effect) := by
  have unlocked := sound.unlocked attempt current
  cases pc : attempt.pc with
  | register =>
    have busy : attempt.claims = attempt.acquired := by rw [Attempt.claims, pc]
    have idle : attempt.gone = [] := by rw [Attempt.gone, pc]
    have lists := sound.lists
    rw [claims_current _ current, gone_current _ current, busy, idle] at lists
    simp only [View.advance, pc]
    cases effect with
    | done => exact safe_same (Sound.proceed lists unlocked)
    | failed => exact safe_same (sound.leave true)
    | unsynced => exact safe_same (sound.leave true)
  | create =>
    cases todo : attempt.todo with
    | nil =>
      simp only [View.advance, pc, todo]
      exact ⟨sound,.refl⟩
    | cons f rest => exact create_safe sound current pc todo
  | write =>
    cases todo : attempt.todo with
    | nil =>
      simp only [View.advance, pc, todo]
      exact ⟨sound,.refl⟩
    | cons f rest => exact write_safe sound current pc todo
  | read =>
    have busy : ∀ removal answer, attempt.pc ≠ .clean removal answer := by simp [pc]
    cases todo : attempt.todo with
    | nil =>
      simp only [View.advance, pc, todo]
      exact ⟨sound,.refl⟩
    | cons f rest =>
      simp only [View.advance, pc, todo]
      split_ifs
      · cases found : v.files f with
        | none => exact safe_same (sound.cleaning .contended current busy)
        | some content =>
          rcases content with ⟨o,written⟩
          cases written with
          | false => exact safe_same (sound.cleaning .error current busy)
          | true =>
            rw [← todo]
            exact safe_same (sound.turn current busy nofun nofun)
      · exact safe_same (sound.cleaning .error current busy)
  | owner o =>
    have busy : ∀ removal answer, attempt.pc ≠ .clean removal answer := by simp [pc]
    simp only [View.advance, pc]
    split_ifs
    · exact safe_same (sound.cleaning .contended current busy)
    · exact safe_same (sound.turn current busy nofun nofun)
  | reread o =>
    have busy : ∀ removal answer, attempt.pc ≠ .clean removal answer := by simp [pc]
    cases todo : attempt.todo with
    | nil =>
      simp only [View.advance, pc, todo]
      exact ⟨sound,.refl⟩
    | cons f rest =>
      simp only [View.advance, pc, todo]
      split_ifs
      · exact safe_same (sound.cleaning .contended current busy)
      · exact safe_same (sound.cleaning .error current busy)
  | clean removal answer => exact clean_safe sound current pc

end Calls

section Handles

variable {File Owner : Type} {s : Owner} {v : View File Owner} {i : ℕ} {held : List File}
  {handle handle' : Handle File} {handles : List (Handle File)} {effect : Effect}
  {removal : Removal File}

theorem flatMap_set {α β : Type} (g : α → List β) {l : List α} {x : α} (found : l[i]? = some x) (y : α) :
    (l.flatMap g).Perm (g x ++ (l.eraseIdx i).flatMap g) ∧
      ((l.set i y).flatMap g).Perm (g y ++ (l.eraseIdx i).flatMap g) := by
  have ⟨inside,same⟩ := List.getElem?_eq_some_iff.mp found
  subst same
  exact ⟨((List.getElem_cons_eraseIdx_perm inside).symm.flatMap_right g),
    (List.set_perm_cons_eraseIdx inside y).flatMap_right g⟩

/-- The claims of a session with one of its handles in front. -/
theorem Sound.apart (sound : Sound s v.files v.session) (found : v.session.handles[i]? = some handle) :
    Lists s v.files v.session.locks
      (handle.claims ++ (v.session.attempt.toList.flatMap Attempt.claims ++
        (v.session.handles.eraseIdx i).flatMap Handle.claims))
      (handle.gone ++ (v.session.attempt.toList.flatMap Attempt.gone ++
        (v.session.handles.eraseIdx i).flatMap Handle.gone)) := by
  have claims := (flatMap_set Handle.claims found handle).1
  have gone := (flatMap_set Handle.gone found handle).1
  apply sound.lists.subperm
  · exact (List.perm_append_comm_assoc _ _ _).subperm.trans
      ((List.Perm.append_left _ claims.symm).subperm)
  · exact (List.perm_append_comm_assoc _ _ _).subperm.trans
      ((List.Perm.append_left _ gone.symm).subperm)

/-- A handle goes on, and with it some of its files leave the disk. -/
theorem Sound.turnHandle (sound : Sound s v.files v.session)
    (found : v.session.handles[i]? = some handle) {disk : Disk File Owner} {locks : List File}
    (lists : Lists s disk locks
      (handle'.claims ++ (v.session.attempt.toList.flatMap Attempt.claims ++
        (v.session.handles.eraseIdx i).flatMap Handle.claims))
      (handle'.gone ++ (v.session.attempt.toList.flatMap Attempt.gone ++
        (v.session.handles.eraseIdx i).flatMap Handle.gone)))
    (fewer : ∀ f ∈ locks, f ∈ v.session.locks)
    (taken : ∀ f, disk f = v.files f ∨ v.files f = some ⟨s,true⟩ ∧ disk f = none) :
    Sound s disk { v.session with locks := locks, handles := v.session.handles.set i handle' } where
  lists := by
    have claims := (flatMap_set Handle.claims found handle').2
    have gone := (flatMap_set Handle.gone found handle').2
    apply lists.subperm
    · exact (List.Perm.append_left _ claims).subperm.trans
        (List.perm_append_comm_assoc _ _ _).subperm
    · exact (List.Perm.append_left _ gone).subperm.trans
        (List.perm_append_comm_assoc _ _ _).subperm
  writing := by
    intro attempt f rest current pc todo
    have created := sound.writing attempt f rest current pc todo
    cases taken f with
    | inl same => rw [same, created]
    | inr removed =>
      rw [created] at removed
      cases removed.1
  unlocked := fun attempt current f member locked =>
    sound.unlocked attempt current f member (fewer f locked)
  cleaned := fun attempt removal answer current pc f member =>
    (sound.cleaned attempt removal answer current pc f member).imp_right
      (fun foreign => foreign.removed (taken f))

theorem release_safe (sound : Sound s v.files v.session)
    (found : v.session.handles[i]? = some ⟨held,.held⟩) :
    Sound s v.files { v.session with
      handles := v.session.handles.set i ⟨held,.releasing ⟨held.reverse,.look⟩⟩ } := by
  have lists := sound.apart found
  apply @Sound.turnHandle _ _ _ _ _ _ ⟨held,.releasing ⟨held.reverse,.look⟩⟩ sound found
  · apply lists.subperm
    · exact ((List.reverse_perm held).append_right _).subperm
    · exact List.Subperm.refl _
  · exact fun _ member => member
  · exact fun _ => .inl rfl

variable [DecidableEq File] [DecidableEq Owner]

theorem remove_safe (sound : Sound s v.files v.session)
    (found : v.session.handles[i]? = some ⟨held,.releasing removal⟩) :
    Safe s v (v.remove s i held removal effect) := by
  have lists := sound.apart found
  have ends : ∀ phase : Phase File, Handle.claims ⟨held,phase⟩ = [] → Handle.gone ⟨held,phase⟩ = [] →
      Safe s v (v.keep { v.session with handles := v.session.handles.set i ⟨held,phase⟩ }) := by
    intro phase claims gone
    apply safe_same
    apply @Sound.turnHandle _ _ _ _ _ _ ⟨held,phase⟩ sound found
    · rw [claims, gone]
      exact lists.subperm (List.sublist_append_right _ _).subperm
        (List.sublist_append_right _ _).subperm
    · exact fun _ member => member
    · exact fun _ => .inl rfl
  simp only [View.remove]
  split_ifs
  · exact ends .released rfl rfl
  · cases moved : removalStep s v.files v.session.locks effect removal with
    | none => exact ends .failed rfl rfl
    | some result =>
      rcases result with ⟨disk,locks,removal'⟩
      have own : ∀ f ∈ removal.claims, v.files f = some ⟨s,true⟩ :=
        fun f member => lists.own f (List.mem_append_left _ member)
      have after : Lists s disk locks
          (removal'.claims ++ (v.session.attempt.toList.flatMap Attempt.claims ++
            (v.session.handles.eraseIdx i).flatMap Handle.claims))
          (removal'.gone ++ (v.session.attempt.toList.flatMap Attempt.gone ++
            (v.session.handles.eraseIdx i).flatMap Handle.gone)) := removal_lists lists moved
      constructor
      · apply @Sound.turnHandle _ _ _ _ _ _ ⟨held,.releasing removal'⟩ sound found
        · exact after
        · exact fun _ member => removal_locks moved member
        · exact fun f => (removal_files moved f).imp_right (fun h => ⟨own f h.1,h.2⟩)
      · exact removal_acts own moved

end Handles

section Worlds

variable {File Owner Project Ticket : Type} {home : Owner → Project}
  {w w' : World File Owner Project Ticket} {s : Owner} {r : Ticket} {recovery : Recovery File Owner}
  {effect : Effect}

/-- The recovery has created its lock and has not removed it. -/
def RecoveryPc.Active : RecoveryPc File → Prop
  | .guard => False
  | .finished _ => False
  | _ => True

/-- The recovery has found the process of the owner dead. -/
def RecoveryPc.Verified : RecoveryPc File → Prop
  | .load => True
  | .sweep _ _ => True
  | .retire => True
  | .closing retired => retired = true
  | .finished retired => retired = true
  | _ => False

/-- What holds whatever the processes have done. -/
structure Inv (home : Owner → Project) (w : World File Owner Project Ticket) : Prop where
  sound : ∀ s, (w.sessions s).status ≠ .dead → Sound s w.files (w.sessions s)
  guarded : ∀ r recovery, w.recoveries r = some recovery → recovery.pc.Active →
    w.guards (home recovery.owner) = some r
  dead : ∀ r recovery, w.recoveries r = some recovery → recovery.pc.Verified →
    (w.sessions recovery.owner).status = .dead
  taken : ∀ r recovery f rest, w.recoveries r = some recovery →
    recovery.pc = .sweep (f :: rest) .unlink → w.files f = some ⟨recovery.owner,true⟩

theorem Sound.unused {disk : Disk File Owner} : Sound s disk unused where
  lists := ⟨List.nodup_nil,nofun,nofun,nofun⟩
  writing := nofun
  unlocked := nofun
  cleaned := nofun

theorem Sound.enter {disk : Disk File Owner} {session : Session File Owner} {status : Status}
    (sound : Sound s disk session) : Sound s disk { session with status := status } where
  lists := sound.lists
  writing := sound.writing
  unlocked := sound.unlocked
  cleaned := sound.cleaned

/-- A call begins with files that the session does not hold. -/
theorem Sound.begin {disk : Disk File Owner} {session : Session File Owner} {files : List File}
    (sound : Sound s disk session) (idle : session.attempt = none)
    (unlocked : ∀ f ∈ files, f ∉ session.locks) :
    Sound s disk (session.going ⟨files,[],.register⟩) where
  lists := by
    have lists := sound.lists
    rw [Session.claims, Session.gone, idle] at lists
    exact lists
  writing := by
    intro _ _ _ same pc
    cases same
    cases pc
  unlocked := by
    intro _ same f member locked
    cases same
    exact absurd locked (unlocked f member)
  cleaned := by
    intro _ _ _ same pc
    cases same
    cases pc

theorem inv_empty : Inv home (empty : World File Owner Project Ticket) where
  sound := fun _ _ => .unused
  guarded := nofun
  dead := nofun
  taken := nofun

variable [DecidableEq Owner]

/-- A step of a session that is not dead. -/
theorem Inv.session (inv : Inv home w) (alive : (w.sessions s).status ≠ .dead)
    {v : View File Owner} {owners : Project → Option Owner}
    (acts : Acts Content.owner s w.files v.files) (sound : Sound s v.files v.session) :
    Inv home { w.become s v with owners := owners } where
  sound := by
    intro o running
    by_cases same : o = s
    · subst same
      simp only [World.become, Function.update_self]
      exact sound
    · simp only [World.become, Function.update_of_ne same] at running ⊢
      exact (inv.sound o running).frame acts same
  guarded := inv.guarded
  dead := by
    intro r recovery found verified
    have dead := inv.dead r recovery found verified
    have other : recovery.owner ≠ s := by
      intro same
      exact alive (same ▸ dead)
    simp only [World.become, Function.update_of_ne other]
    exact dead
  taken := by
    intro r recovery f rest found pc
    have dead := inv.dead r recovery found (by rw [pc]; trivial)
    have other : recovery.owner ≠ s := by
      intro same
      exact alive (same ▸ dead)
    exact acts.kept (inv.taken r recovery f rest found pc) other

variable [DecidableEq Ticket]

omit [DecidableEq Owner] in
/-- A step of a recovery. -/
theorem Inv.recover (inv : Inv home w) {next : Recovery File Owner}
    {files : Disk File Owner} {guards : Project → Option Ticket} {owners : Project → Option Owner}
    (untouched : files = w.files ∨ (w.sessions next.owner).status = .dead ∧
      w.guards (home next.owner) = some r ∧ Acts Content.owner next.owner w.files files)
    (others : ∀ r', r' ≠ r → ∀ p, w.guards p = some r' → guards p = some r')
    (active : next.pc.Active → guards (home next.owner) = some r)
    (verified : next.pc.Verified → (w.sessions next.owner).status = .dead)
    (matched : ∀ f rest, next.pc = .sweep (f :: rest) .unlink →
      files f = some ⟨next.owner,true⟩) :
    Inv home { w.setRecovery r next with files := files, guards := guards, owners := owners } where
  sound := by
    intro s running
    cases untouched with
    | inl same =>
      subst same
      exact inv.sound s running
    | inr moved =>
      have ⟨dead,_,acts⟩ := moved
      apply (inv.sound s running).frame acts
      rintro rfl
      exact running dead
  guarded := by
    intro r' recovery found busy
    by_cases same : r' = r
    · subst same
      simp only [World.setRecovery, Function.update_self, Option.some.injEq] at found
      subst found
      exact active busy
    · simp only [World.setRecovery, Function.update_of_ne same] at found
      exact others r' same _ (inv.guarded r' recovery found busy)
  dead := by
    intro r' recovery found busy
    by_cases same : r' = r
    · subst same
      simp only [World.setRecovery, Function.update_self, Option.some.injEq] at found
      subst found
      exact verified busy
    · simp only [World.setRecovery, Function.update_of_ne same] at found
      exact inv.dead r' recovery found busy
  taken := by
    intro r' recovery f rest found pc
    by_cases same : r' = r
    · subst same
      simp only [World.setRecovery, Function.update_self, Option.some.injEq] at found
      subst found
      exact matched f rest pc
    · simp only [World.setRecovery, Function.update_of_ne same] at found
      have held := inv.taken r' recovery f rest found pc
      cases untouched with
      | inl keep => rw [keep, held]
      | inr moved =>
        have ⟨_,guarded,acts⟩ := moved
        apply acts.kept held
        intro owner
        have other := inv.guarded r' recovery found (by rw [pc]; trivial)
        rw [show recovery.owner = next.owner from owner, guarded] at other
        exact same (Option.some.inj other).symm

omit [DecidableEq Owner] in
/-- A step of a recovery that changes nothing on disk. -/
theorem Inv.go (inv : Inv home w) (found : w.recoveries r = some recovery) {next : RecoveryPc File}
    (active : next.Active → recovery.pc.Active)
    (verified : next.Verified → (w.sessions recovery.owner).status = .dead)
    (matched : ∀ f rest, next = .sweep (f :: rest) .unlink →
      w.files f = some ⟨recovery.owner,true⟩) :
    Inv home (w.setRecovery r { recovery with pc := next }) := by
  show Inv home { w.setRecovery r { recovery with pc := next } with
    files := w.files
    guards := w.guards
    owners := w.owners }
  exact inv.recover (.inl rfl) (fun _ _ _ same => same)
    (fun busy => inv.guarded r recovery found (active busy)) verified matched

variable [DecidableEq File] [DecidableEq Project]

theorem pursue_safe (inv : Inv home w) (found : w.recoveries r = some recovery) :
    Inv home (w.pursue home r recovery effect) := by
  have closing : recovery.pc.Active →
      Inv home (w.setRecovery r { recovery with pc := .closing false }) :=
    fun busy => inv.go found (fun _ => busy) nofun nofun
  cases pc : recovery.pc with
  | guard =>
    simp only [World.pursue, pc]
    split_ifs with free
    · apply inv.recover (.inl rfl)
      · intro r' other p held
        have apart : p ≠ home recovery.owner := by
          rintro rfl
          rw [free.2] at held
          cases held
        rw [Function.update_of_ne apart]
        exact held
      · exact fun _ => Function.update_self _ _ _
      · exact nofun
      · exact nofun
    · exact inv.go found nofun nofun nofun
  | verify =>
    have busy : recovery.pc.Active := by rw [pc]; trivial
    simp only [World.pursue, pc]
    split_ifs with dead
    · exact inv.go found (fun _ => busy) (fun _ => dead.2) nofun
    · exact closing busy
  | load =>
    have busy : recovery.pc.Active := by rw [pc]; trivial
    have dead := inv.dead r recovery found (by rw [pc]; trivial)
    simp only [World.pursue, pc]
    split_ifs
    · exact inv.go found (fun _ => busy) (fun _ => dead) (by simp)
    · exact closing busy
  | sweep todo stage =>
    have busy : recovery.pc.Active := by rw [pc]; trivial
    have dead := inv.dead r recovery found (by rw [pc]; trivial)
    have guarded := inv.guarded r recovery found busy
    cases todo with
    | nil =>
      simp only [World.pursue, pc]
      exact inv.go found (fun _ => busy) (fun _ => dead) nofun
    | cons f rest =>
      cases stage with
      | look =>
        simp only [World.pursue, pc]
        split_ifs
        · split
          · exact inv.go found (fun _ => busy) (fun _ => dead) nofun
          · exact closing busy
          · split_ifs
            · exact inv.go found (fun _ => busy) (fun _ => dead) nofun
            · exact inv.go found (fun _ => busy) (fun _ => dead) nofun
        · exact closing busy
      | compare =>
        simp only [World.pursue, pc]
        split_ifs with same
        · apply inv.go found (fun _ => busy) (fun _ => dead)
          rintro _ _ ⟨rfl,rfl⟩
          exact same.2
        · exact closing busy
      | unlink =>
        have held := inv.taken r recovery f rest found pc
        have acts : Acts Content.owner recovery.owner w.files (Function.update w.files f none) := by
          apply acts_update
          · intro c same
            rw [held] at same
            cases same
            rfl
          · exact nofun
        simp only [World.pursue, pc]
        cases effect with
        | done =>
          exact inv.recover (.inr ⟨dead,guarded,acts⟩) (fun _ _ _ same => same)
            (fun _ => guarded) (fun _ => dead) nofun
        | failed => exact closing busy
        | unsynced =>
          exact inv.recover (.inr ⟨dead,guarded,acts⟩) (fun _ _ _ same => same)
            (fun _ => guarded) nofun nofun
  | retire =>
    have busy : recovery.pc.Active := by rw [pc]; trivial
    have dead := inv.dead r recovery found (by rw [pc]; trivial)
    have guarded := inv.guarded r recovery found busy
    simp only [World.pursue, pc]
    split_ifs
    · cases effect with
      | done =>
        exact inv.recover (.inl rfl) (fun _ _ _ same => same) (fun _ => guarded) (fun _ => dead) nofun
      | failed => exact closing busy
      | unsynced =>
        exact inv.recover (.inl rfl) (fun _ _ _ same => same) (fun _ => guarded) nofun nofun
    · exact closing busy
  | closing retired =>
    have dead : retired = true → (w.sessions recovery.owner).status = .dead :=
      fun same => inv.dead r recovery found (by rw [pc]; exact same)
    simp only [World.pursue, pc]
    split_ifs with mine
    · apply inv.recover (.inl rfl)
      · intro r' other p held
        have apart : p ≠ home recovery.owner := by
          rintro rfl
          rw [mine.2] at held
          exact other (Option.some.inj held).symm
        rw [Function.update_of_ne apart]
        exact held
      · exact nofun
      · exact dead
      · exact nofun
    · exact inv.go found nofun dead nofun
  | finished retired =>
    simp only [World.pursue, pc]
    exact inv

omit [DecidableEq Ticket] [DecidableEq File] [DecidableEq Project] in
/-- A step of a live session keeps the invariant when it is safe for the session. -/
theorem Inv.safe (inv : Inv home w) (live : (w.sessions s).status = .live) {v : View File Owner}
    (safe : Sound s w.files (w.sessions s) → Safe s (w.view s) v) : Inv home (w.become s v) := by
  have alive : (w.sessions s).status ≠ .dead := by simp [live]
  have ⟨sound,acts⟩ := safe (inv.sound s alive)
  show Inv home { w.become s v with owners := w.owners }
  exact inv.session alive acts sound

/-- Every step of every process keeps the invariant. -/
theorem step_safe {event : Event File Owner Ticket} (inv : Inv home w)
    (moved : step home w event = some w') : Inv home w' := by
  cases event with
  | launch s =>
    simp only [step] at moved
    split_ifs at moved with ready
    cases moved
    have alive : (w.sessions s).status ≠ .dead := by simp [ready.1]
    exact inv.session alive .refl (inv.sound s alive).enter
  | attempt s files =>
    simp only [step] at moved
    split_ifs at moved with ready held
    · cases moved
      exact inv
    · cases moved
      apply inv.safe ready.1
      intro sound
      apply safe_same
      apply sound.begin ready.2
      intro f member locked
      exact held ⟨f,member,locked⟩
  | advance s effect =>
    simp only [step] at moved
    split at moved
    · cases moved
      exact inv.safe ‹_› (fun sound => advance_safe sound ‹_›)
    · cases moved
  | release s i =>
    simp only [step] at moved
    split at moved
    · cases moved
      exact inv.safe ‹_› (fun sound => safe_same (release_safe sound ‹_›))
    · cases moved
  | remove s i effect =>
    simp only [step] at moved
    split at moved
    · cases moved
      exact inv.safe ‹_› (fun sound => remove_safe sound ‹_›)
    · cases moved
  | finish s effect =>
    rw [step, Option.ite_none_right_eq_some] at moved
    have ⟨ready,same⟩ := moved
    cases same
    have alive : (w.sessions s).status ≠ .dead := by simp [ready.1]
    exact inv.session alive .refl (inv.sound s alive).enter
  | crash s =>
    simp only [step] at moved
    split_ifs at moved with live
    cases moved
    exact inv.safe live (fun sound => safe_same sound.enter)
  | recover r o =>
    simp only [step] at moved
    split_ifs at moved with ready
    cases moved
    show Inv home { w.setRecovery r ⟨o,.guard⟩ with
      files := w.files
      guards := w.guards
      owners := w.owners }
    exact inv.recover (.inl rfl) (fun _ _ _ same => same) nofun nofun nofun
  | pursue r effect =>
    simp only [step, Option.map_eq_some_iff] at moved
    have ⟨recovery,found,same⟩ := moved
    subst same
    exact pursue_safe inv found
  | desert r =>
    simp only [step, Option.map_eq_some_iff] at moved
    have ⟨recovery,found,same⟩ := moved
    subst same
    exact inv.go found nofun nofun nofun

theorem inv_reachable (run : Reachable home w) : Inv home w := by
  induction run with
  | empty => exact inv_empty
  | step event _ moved inv => exact step_safe inv moved

omit [DecidableEq Owner] [DecidableEq Ticket] [DecidableEq File] [DecidableEq Project] in
/-- The file of a held lock names the session. -/
theorem Inv.held (inv : Inv home w) {i : ℕ} {f : File} (holds : Holds w s i f) :
    w.files f = some ⟨s,true⟩ := by
  have ⟨live,files,found,member⟩ := holds
  have sound := inv.sound s (by simp [live])
  apply sound.lists.own
  apply List.mem_append_right
  exact List.mem_flatMap.mpr ⟨⟨files,.held⟩,List.mem_of_getElem? found,member⟩

omit [DecidableEq Owner] [DecidableEq Ticket] [DecidableEq File] [DecidableEq Project] in
theorem Inv.one (inv : Inv home w) {i j : ℕ} {f : File} (holds : Holds w s i f)
    (again : Holds w s j f) : i = j := by
  have ⟨live,files,found,member⟩ := holds
  have ⟨_,files',found',member'⟩ := again
  have sound := inv.sound s (by simp [live])
  have apart := (@Sound.apart _ _ _ (w.view s) _ _ sound found).apart
  by_contra different
  have elsewhere : ⟨files',.held⟩ ∈ (w.sessions s).handles.eraseIdx i :=
    List.mem_eraseIdx_iff_getElem?.mpr ⟨j,Ne.symm different,found'⟩
  have twice : f ∈ (w.sessions s).attempt.toList.flatMap Attempt.claims ++
      ((w.sessions s).handles.eraseIdx i).flatMap Handle.claims :=
    List.mem_append_right _ (List.mem_flatMap.mpr ⟨_,elsewhere,member'⟩)
  have ⟨_,_,disjoint⟩ := List.nodup_append.mp (List.nodup_append.mp apart).1
  exact disjoint f member f twice rfl

/-- One session holds a lock; another creates one file, meets that lock and takes the file back,
which the first one then creates. -/
def contendedEvents : List (Event ℕ ℕ ℕ) :=
  [.launch 0,.launch 1,.attempt 0 [9]] ++ List.replicate 3 (.advance 0 .done) ++
    [.attempt 1 [7,9]] ++ List.replicate 9 (.advance 1 .done) ++ [.attempt 0 [7]] ++
    List.replicate 3 (.advance 0 .done)

theorem contended_ran : (run id contendedEvents).isSome := by decide

def contended : World ℕ ℕ ℕ ℕ := (run id contendedEvents).get contended_ran

theorem contended_reached : Reachable id contended := reachable_run (Option.some_get contended_ran).symm

theorem contended_holds : Holds contended 0 0 9 := ⟨by decide,[9],by decide,by decide⟩

/-- A lock that a session holds is held by no other session and by no other handle of its own,
however the sessions and the recoveries interleave, fail and die. -/
theorem mutual_exclusion (run : Reachable home w) {s' : Owner} {i j : ℕ} {f : File}
    (holds : Holds w s i f) (also : Holds w s' j f) :
    w.files f = some ⟨s,true⟩ ∧ s = s' ∧ i = j := by
  have inv := inv_reachable run
  have named := inv.held holds
  have same : s = s' := by
    have other := inv.held also
    rw [named] at other
    cases other
    rfl
  subst same
  exact ⟨named,rfl,inv.one holds also⟩

theorem mutual_exclusion_sample : contended.files 9 = some ⟨0,true⟩ ∧ 0 = 0 ∧ 0 = 0 :=
  mutual_exclusion contended_reached contended_holds contended_holds

/-- A call that answers that a lock is held elsewhere has left none of the files it has created. -/
theorem contended_leaves_nothing (run : Reachable home w) {attempt : Attempt File Owner}
    {stage : Stage} {answer : Answer} (live : (w.sessions s).status = .live)
    (current : (w.sessions s).attempt = some attempt) (pc : attempt.pc = .clean ⟨[],stage⟩ answer)
    {f : File} (acquired : f ∈ attempt.acquired) {c : Content Owner} (found : w.files f = some c) :
    c.owner ≠ s := by
  have sound := (inv_reachable run).sound s (by simp [live])
  cases sound.cleaned attempt _ _ current pc f acquired with
  | inl waiting => cases waiting
  | inr foreign => exact foreign c found

theorem contended_current :
    (contended.sessions 1).attempt = some ⟨[9],[7],.clean ⟨[],.look⟩ .contended⟩ := by decide

theorem contended_leaves_nothing_sample : (⟨0,true⟩ : Content ℕ).owner ≠ 1 :=
  have found : contended.files 7 = some ⟨0,true⟩ := by decide
  contended_leaves_nothing contended_reached (by decide) contended_current rfl (by decide) found

end Worlds

end LockFiles

end EvidenceV4
