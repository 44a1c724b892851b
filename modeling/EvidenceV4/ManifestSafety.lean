import EvidenceV4.ManifestInvariant

/-!
# Safety of a run

The lock makes the processes take turns, and each turn is a sequence of moves of
the run directory: nothing happens to the record before an operation has done
its work, and the save adds that operation to what has taken place.
-/

set_option autoImplicit false

namespace EvidenceV4

namespace RunManifest

open CheckerJson (PyString points)
open TransitionRun

section Control

def Phase.holds : Phase → Bool
  | .locked _ => true
  | .loaded _ _ => true
  | .settled _ _ => true
  | .writing _ _ => true
  | .saved _ => true
  | _ => false

/-- The operation that has done all but its save. -/
def Phase.pending : Phase → Option Commit
  | .settled commit _ => some commit
  | .writing commit _ => some commit
  | _ => none

def State.record (s : State) : Record :=
  ⟨s.clock,s.outputs,s.log,s.asides,s.lock.bind (fun p => (s.phase p).pending)⟩

variable (setup : Setup)

/-- The last grant is this one, and what has taken place belongs to earlier grants. -/
def Turn (granted : List ℕ) (log : List (ℕ × Commit)) (p : ℕ) : Prop :=
  ∃ earlier, granted = earlier ++ [p] ∧ (log.map Prod.fst).Sublist earlier

def PhaseHolds (granted : List ℕ) (log : List (ℕ × Commit)) (p : ℕ) : Phase → Prop
  | .locked _ => Turn granted log p
  | .loaded _ manifest => Turn granted log p ∧ manifest = applyAll setup.manifest (log.map Prod.snd)
  | .settled commit next => Turn granted log p ∧
    next = apply (applyAll setup.manifest (log.map Prod.snd)) commit
  | .writing commit next => Turn granted log p ∧
    next = apply (applyAll setup.manifest (log.map Prod.snd)) commit
  | .saved commit => (p,commit) ∈ log
  | .released commit => (p,commit) ∈ log
  | .acknowledged commit => (p,commit) ∈ log
  | _ => True

/-- The processes and the lock agree, and the manifest is what the log amounts to. -/
structure Controlled (s : State) : Prop where
  published : s.published = .whole (s.record.current setup)
  holder : ∀ p, s.lock = some p ↔ (s.phase p).holds = true
  order : (s.log.map Prod.fst).Sublist s.granted
  phases : ∀ p, PhaseHolds setup s.granted s.log p (s.phase p)

end Control

section Steps

variable {setup : Setup} {s s' : State} {p q : ℕ} {phase : Phase}

theorem enter_self : (s.enter p phase).phase p = phase := Function.update_self _ _ _

theorem enter_other (other : q ≠ p) : (s.enter p phase).phase q = s.phase q :=
  Function.update_of_ne other _ _

theorem pending_holds (phase : Phase) (h : phase.pending ≠ none) : phase.holds = true := by
  cases phase <;> simp_all [Phase.pending, Phase.holds]

/-- A phase without the lock stays what it says when more has happened. -/
theorem phaseHolds_free {granted granted' : List ℕ} {log log' : List (ℕ × Commit)}
    (free : phase.holds = false) (known : log ⊆ log') (h : PhaseHolds setup granted log p phase) :
    PhaseHolds setup granted' log' p phase := by
  cases phase with
  | released commit => exact known h
  | acknowledged commit => exact known h
  | idle => trivial
  | waiting op => trivial
  | failed => trivial
  | crashed => trivial
  | _ => simp [Phase.holds] at free

variable (c : Controlled setup s)

include c

theorem other_free (mine : s.lock = some p ∨ s.lock = none) (other : q ≠ p) :
    (s.phase q).holds = false := by
  by_contra holds
  have taken := (c.holder q).mpr (by simpa using holds)
  rcases mine with own | free
  · rw [own, Option.some.injEq] at taken
    exact other taken.symm
  · rw [free] at taken
    exact absurd taken (by simp)

theorem controlled_enter (same : phase.holds = (s.phase p).holds)
    (fine : PhaseHolds setup s.granted s.log p phase) : Controlled setup (s.enter p phase) where
  published := c.published
  holder := by
    intro q
    by_cases mine : q = p
    · rw [mine, enter_self, same]
      exact c.holder p
    · rw [enter_other mine]
      exact c.holder q
  order := c.order
  phases := by
    intro q
    by_cases mine : q = p
    · rw [mine, enter_self]
      exact fine
    · rw [enter_other mine]
      exact c.phases q

omit c in
theorem record_enter (same : phase.pending = (s.phase p).pending) : (s.enter p phase).record = s.record := by
  have each (q : ℕ) : ((s.enter p phase).phase q).pending = (s.phase q).pending := by
    by_cases mine : q = p
    · rw [mine, enter_self, same]
    · rw [enter_other mine]
  simp only [State.record, each]
  rfl

/-- A process that has the lock lets it go. -/
theorem controlled_unlock (mine : s.lock = some p) (free : phase.holds = false)
    (fine : PhaseHolds setup s.granted s.log p phase) : Controlled setup (s.enter p phase).unlock where
  published := c.published
  holder := by
    intro q
    apply iff_of_false (by simp [State.unlock])
    show ¬ ((s.enter p phase).phase q).holds = true
    by_cases own : q = p
    · rw [own, enter_self, free]
      decide
    · rw [enter_other own, other_free c (.inl mine) own]
      decide
  order := c.order
  phases := by
    intro q
    show PhaseHolds setup s.granted s.log q ((s.enter p phase).phase q)
    by_cases own : q = p
    · rw [own, enter_self]
      exact fine
    · rw [enter_other own]
      exact c.phases q

omit c in
theorem record_unlock (mine : s.lock = some p) (idle : (s.phase p).pending = none) :
    (s.enter p phase).unlock.record = s.record := by
  simp [State.record, State.unlock, mine, idle, State.enter]

theorem lock_of_holds (holds : (s.phase p).holds = true) : s.lock = some p := (c.holder p).mpr holds

/-- A process whose phase is neither pending nor any other with the lock lets nothing happen. -/
theorem refines_enter (phase : Phase) (same : phase.holds = (s.phase p).holds) (quiet : phase.pending = (s.phase p).pending)
    (fine : PhaseHolds setup s.granted s.log p phase) :
    Controlled setup (s.enter p phase) ∧ Moves setup s.record (s.enter p phase).record := by
  constructor
  · exact controlled_enter c same fine
  · rw [record_enter quiet]
    exact .stay _

theorem refines_fail (holds : (s.phase p).holds = true) (idle : (s.phase p).pending = none) :
    Controlled setup (s.fail p) ∧ Moves setup s.record (s.fail p).record := by
  constructor
  · exact controlled_unlock c (lock_of_holds c holds) rfl trivial
  · rw [State.fail, record_unlock (lock_of_holds c holds) idle]
    exact .stay _

omit c in
/-- An operation that has done its work is pending. -/
theorem record_settle {commit : Commit} {manifest : Manifest} (mine : s.lock = some p) :
    (s.settle p commit manifest).record = { s.record with pending := some commit } := by
  simp [State.record, State.settle, State.enter, mine, Phase.pending]

theorem controlled_settle {commit : Commit} {op : Op} {manifest : Manifest}
    (loaded : s.phase p = .loaded op manifest) : Controlled setup (s.settle p commit manifest) := by
  have fine := c.phases p
  rw [loaded] at fine
  obtain ⟨turn,current⟩ := fine
  apply controlled_enter c
  · rw [loaded]
    rfl
  · exact ⟨turn,by rw [current]⟩

theorem record_idle {op : Op} {manifest : Manifest} (loaded : s.phase p = .loaded op manifest) :
    s.lock = some p ∧ s.record.pending = none := by
  have mine : s.lock = some p := lock_of_holds c (by rw [loaded]; rfl)
  refine ⟨mine,?_⟩
  simp [State.record, mine, loaded, Phase.pending]

theorem loaded_current {op : Op} {manifest : Manifest} (loaded : s.phase p = .loaded op manifest) :
    manifest = s.record.current setup := by
  have fine := c.phases p
  rw [loaded] at fine
  exact fine.2

omit c in
theorem findVoice_some {manifest : Manifest} {id : PyString} {voice : Voice}
    (found : findVoice manifest id = some voice) : voice ∈ manifest.voices ∧ voice.id = id :=
  ⟨List.mem_of_find?_eq_some found,by simpa using List.find?_some found⟩

theorem controlled_outputs {outputs : Location → Option Output} {asides : List (PyString × Output)} :
    Controlled setup { s with outputs := outputs, asides := asides } :=
  ⟨c.published,c.holder,c.order,c.phases⟩

theorem refines_perform {op : Op} {manifest : Manifest} (apart : Apart setup)
    (loaded : s.phase p = .loaded op manifest) :
    Controlled setup (perform setup s p op manifest) ∧
      Moves setup s.record (perform setup s p op manifest).record := by
  obtain ⟨mine,free⟩ := record_idle c loaded
  have failing : Controlled setup (s.fail p) ∧ Moves setup s.record (s.fail p).record :=
    refines_fail c (by rw [loaded]; rfl) (by rw [loaded]; rfl)
  unfold perform
  cases found : findVoice manifest op.voice with
  | none => exact failing
  | some voice =>
    obtain ⟨known,id⟩ := findVoice_some found
    rw [loaded_current c loaded] at known
    cases op with
    | error name detail elapsed =>
      refine ⟨controlled_settle c loaded,?_⟩
      rw [record_settle mine]
      exact .begin _ _ free (by simp) (fun _ _ => by simp [Op.completes])
    | complete name elapsed finishReason =>
      show Controlled setup (performComplete setup s p _ manifest voice) ∧
        Moves setup s.record (performComplete setup s p _ manifest voice).record
      unfold performComplete
      cases there : s.outputs (setup.locate voice.file) with
      | none => exact failing
      | some output =>
        dsimp only
        split
        · exact failing
        · rename_i accepted
          refine ⟨controlled_settle c loaded,?_⟩
          rw [record_settle mine]
          refine .begin _ _ free (by simp) (fun other member completes => ?_)
          have same : other = voice := voice_unique apart member known
            ((completes_voice completes).symm.trans id.symm)
          exact ⟨output,by rw [same]; exact there,fun empty => accepted (.inl empty)⟩
    | reset name =>
      have own : name = voice.id := id.symm
      subst own
      show Controlled setup (performReset setup s p _ manifest voice) ∧
        Moves setup s.record (performReset setup s p _ manifest voice).record
      unfold performReset
      cases there : s.outputs (setup.locate voice.file) with
      | none =>
        refine ⟨controlled_settle c loaded,?_⟩
        rw [record_settle mine]
        exact .resetEmpty _ voice free known there
      | some output =>
        refine ⟨controlled_settle (controlled_outputs c) loaded,?_⟩
        have same : (s.moveAside setup voice.file
            (attemptFile voice.file (voice.history.length + 1)) output).lock = some p := mine
        show Moves setup s.record ((s.moveAside setup voice.file
          (attemptFile voice.file (voice.history.length + 1)) output).settle p
            ⟨.reset voice.id,s.clock,true⟩ manifest).record
        rw [record_settle same]
        exact .reset s.record voice output free known there

theorem refines_acquire {op : Op} (free : s.lock = none) :
    Controlled setup { s.enter p (.locked op) with lock := some p, granted := s.granted ++ [p] } ∧
      Moves setup s.record
        { s.enter p (.locked op) with lock := some p, granted := s.granted ++ [p] }.record := by
  have idle {q : ℕ} (other : q ≠ p) : (s.phase q).holds = false := other_free c (.inr free) other
  constructor
  · refine ⟨c.published,fun q => ?_,c.order.trans (List.sublist_append_left _ _),fun q => ?_⟩
    · show some p = some q ↔ ((s.enter p (.locked op)).phase q).holds = true
      by_cases own : q = p
      · rw [own, enter_self]
        exact iff_of_true rfl rfl
      · rw [enter_other own, idle own, Option.some.injEq]
        exact iff_of_false (fun e => own e.symm) (by decide)
    · show PhaseHolds setup (s.granted ++ [p]) s.log q ((s.enter p (.locked op)).phase q)
      by_cases own : q = p
      · rw [own, enter_self]
        exact ⟨s.granted,rfl,c.order⟩
      · rw [enter_other own]
        exact phaseHolds_free (idle own) (fun _ known => known) (c.phases q)
  · have same : ({ s.enter p (.locked op) with lock := some p, granted := s.granted ++ [p] } :
        State).record = s.record := by
      simp [State.record, State.enter, free, Phase.pending]
    rw [same]
    exact .stay _

theorem refines_load {op : Op} (locked : s.phase p = .locked op) :
    Controlled setup (s.loadManifest p op) ∧ Moves setup s.record (s.loadManifest p op).record := by
  have fine := c.phases p
  rw [locked] at fine
  unfold State.loadManifest
  rw [c.published]
  dsimp only [Contents.load]
  split
  · apply refines_enter c
    · rw [locked]
      rfl
    · rw [locked]
      rfl
    · exact ⟨fine,rfl⟩
  · exact refines_fail c (by rw [locked]; rfl) (by rw [locked]; rfl)

theorem refines_deliver {id content : PyString} (moved : deliver setup s id content = some s') :
    Controlled setup s' ∧ Moves setup s.record s'.record := by
  unfold deliver at moved
  obtain ⟨manifest,whole,moved⟩ := Option.bind_eq_some_iff.mp moved
  rw [c.published, Contents.load, Option.some_inj] at whole
  subst whole
  obtain ⟨voice,found,moved⟩ := Option.bind_eq_some_iff.mp moved
  split at moved
  · rename_i open_
    obtain ⟨known,same⟩ := findVoice_some found
    rw [← Option.some_inj.mp moved]
    refine ⟨⟨c.published,c.holder,c.order,c.phases⟩,?_⟩
    refine Moves.deliver s.record voice content known open_.1 (fun commit pending => ?_)
    obtain ⟨q,taken,busy⟩ := Option.bind_eq_some_iff.mp pending
    have op : (s.phase q).op = some commit.op := by
      cases phase : s.phase q <;> simp_all [Phase.pending, Phase.op]
    have quiet := open_.2
    simp only [State.completing, taken, Option.bind_some, op, Option.any_some] at quiet
    rw [same]
    exact quiet
  · exact absurd moved (by simp)

theorem refines_publish {commit : Commit} {next : Manifest} (writing : s.phase p = .writing commit next)
    (closed : s.temps p = .whole next) :
    Controlled setup (s.publish p commit) ∧ Moves setup s.record (s.publish p commit).record := by
  have mine : s.lock = some p := lock_of_holds c (by rw [writing]; rfl)
  have fine := c.phases p
  rw [writing] at fine
  obtain ⟨⟨earlier,grants,order⟩,current⟩ := fine
  have pending : s.record.pending = some commit := by
    simp [State.record, mine, writing, Phase.pending]
  have same : (s.publish p commit).record = s.record.finish p commit := by
    simp [State.record, State.publish, State.enter, mine, Phase.pending, Record.finish]
  constructor
  · refine ⟨?_,fun q => ?_,?_,fun q => ?_⟩
    · rw [same, finish_current]
      show s.temps p = _
      rw [closed, current]
      rfl
    · show s.lock = some q ↔ ((s.enter p (.saved commit)).phase q).holds = true
      by_cases own : q = p
      · rw [own, enter_self]
        exact iff_of_true mine rfl
      · rw [enter_other own]
        exact c.holder q
    · show ((s.log ++ [(p,commit)]).map Prod.fst).Sublist s.granted
      rw [List.map_append, List.map_singleton, grants]
      exact order.append (List.Sublist.refl _)
    · show PhaseHolds setup s.granted (s.log ++ [(p,commit)]) q ((s.enter p (.saved commit)).phase q)
      by_cases own : q = p
      · rw [own, enter_self]
        exact List.mem_append_right _ (List.mem_singleton_self _)
      · rw [enter_other own]
        exact phaseHolds_free (other_free c (.inl mine) own) (List.subset_append_left _ _) (c.phases q)
  · rw [same]
    exact .finish _ p commit pending

/-- No process crashes between moving an output aside and saving the manifest. -/
def Intact (s : State) (label : Label) : Prop :=
  ∀ p commit, label = .crash p → (s.phase p).pending = some commit → commit.moved = false

theorem refines_crash (intact : Intact s (.crash p)) :
    Controlled setup (s.crash p) ∧ Moves setup s.record (s.crash p).record := by
  by_cases mine : s.lock = some p
  · have same : s.crash p = (s.enter p .crashed).unlock := by
      simp [State.crash, State.unlock, mine]
    rw [same]
    refine ⟨controlled_unlock c mine rfl trivial,?_⟩
    have after : (s.enter p .crashed).unlock.record = { s.record with pending := none } := by
      simp [State.record, State.unlock, State.enter]
    rw [after]
    cases busy : (s.phase p).pending with
    | none =>
      have idle : s.record.pending = none := by
        simp [State.record, mine, busy]
      have stay : ({ s.record with pending := none } : Record) = s.record := by
        rw [← idle]
      rw [stay]
      exact .stay _
    | some commit =>
      refine .abandon _ commit ?_ (intact p commit rfl busy)
      simp [State.record, mine, busy]
  · have free : (s.phase p).holds = false := by
      by_contra holds
      exact mine ((c.holder p).mpr (by simpa using holds))
    have same : s.crash p = s.enter p .crashed := by
      simp [State.crash, mine, State.enter]
    rw [same]
    apply refines_enter c
    · exact free.symm
    · by_contra busy
      have holds := pending_holds (s.phase p) (fun none => busy none.symm)
      rw [free] at holds
      exact absurd holds (by decide)
    · trivial

/-- Each step of the processes is a move of the run directory, or none. -/
theorem step_refines {label : Label} (apart : Apart setup) (intact : Intact s label)
    (moved : step setup s label = some s') : Controlled setup s' ∧ Moves setup s.record s'.record := by
  cases label with
  | tick nanoseconds =>
    rw [← Option.some_inj.mp moved]
    exact ⟨⟨c.published,c.holder,c.order,c.phases⟩,.tick s.record nanoseconds⟩
  | deliver id content => exact refines_deliver c moved
  | start p op =>
    simp only [step] at moved
    split at moved
    · rename_i idle
      rw [← Option.some_inj.mp moved]
      exact refines_enter c _ (by rw [idle]; rfl) (by rw [idle]; rfl) trivial
    · exact absurd moved (by simp)
  | acquire p =>
    simp only [step] at moved
    split at moved
    · rename_i op _ free
      rw [← Option.some_inj.mp moved]
      exact refines_acquire c free
    · exact absurd moved (by simp)
  | load p =>
    simp only [step] at moved
    split at moved
    · rename_i op locked
      rw [← Option.some_inj.mp moved]
      exact refines_load c locked
    · exact absurd moved (by simp)
  | perform p =>
    simp only [step] at moved
    split at moved
    · rename_i op manifest loaded
      rw [← Option.some_inj.mp moved]
      exact refines_perform c apart loaded
    · exact absurd moved (by simp)
  | openTemp p =>
    simp only [step] at moved
    split at moved
    · rename_i commit next settled
      have fine := c.phases p
      rw [settled] at fine
      rw [← Option.some_inj.mp moved]
      obtain ⟨controlled,moves⟩ := refines_enter c (.writing commit next)
        (by rw [settled]; rfl) (by rw [settled]; rfl) fine
      exact ⟨⟨controlled.published,controlled.holder,controlled.order,controlled.phases⟩,moves⟩
    · exact absurd moved (by simp)
  | write p written =>
    simp only [step] at moved
    split at moved
    · rw [← Option.some_inj.mp moved]
      exact ⟨⟨c.published,c.holder,c.order,c.phases⟩,.stay _⟩
    · exact absurd moved (by simp)
  | close p =>
    simp only [step] at moved
    split at moved
    · rw [← Option.some_inj.mp moved]
      exact ⟨⟨c.published,c.holder,c.order,c.phases⟩,.stay _⟩
    · exact absurd moved (by simp)
  | replace p =>
    simp only [step] at moved
    split at moved
    · rename_i commit next writing
      split at moved
      · rename_i closed
        rw [← Option.some_inj.mp moved]
        exact refines_publish c writing closed
      · exact absurd moved (by simp)
    · exact absurd moved (by simp)
  | release p =>
    simp only [step] at moved
    split at moved
    · rename_i commit saved
      have fine := c.phases p
      rw [saved] at fine
      have mine : s.lock = some p := lock_of_holds c (by rw [saved]; rfl)
      rw [← Option.some_inj.mp moved]
      refine ⟨controlled_unlock c mine rfl fine,?_⟩
      rw [record_unlock mine (by rw [saved]; rfl)]
      exact .stay _
    · exact absurd moved (by simp)
  | acknowledge p =>
    simp only [step] at moved
    split at moved
    · rename_i commit released
      have fine := c.phases p
      rw [released] at fine
      rw [← Option.some_inj.mp moved]
      exact refines_enter c _ (by rw [released]; rfl) (by rw [released]; rfl) fine
    · exact absurd moved (by simp)
  | crash p =>
    simp only [step] at moved
    split at moved
    · rw [← Option.some_inj.mp moved]
      exact refines_crash c intact
    · exact absurd moved (by simp)

end Steps

section Safety

variable (setup : Setup) (s : State)

/-- A voice has an output of its own, which is not empty and not from before its last reset. -/
def OwnOutput (voice : Voice) : Prop :=
  ∃ output, s.outputs (setup.locate voice.file) = some output ∧ output.content ≠ [] ∧
    (∀ other ∈ s.record.voices setup, setup.locate other.file = setup.locate voice.file →
      other.id = voice.id) ∧
    ∀ entry ∈ s.log, entry.2.op = .reset voice.id → entry.2.time ≤ output.mtime

/-- What a run promises in each of its states. -/
structure Safe : Prop where
  serial : s.published = .whole (applyAll setup.manifest (s.log.map Prod.snd))
  lockOrder : (s.log.map Prod.fst).Sublist s.granted
  acknowledged : ∀ p commit, s.phase p = .acknowledged commit → (p,commit) ∈ s.log
  complete : ∀ v ∈ s.record.voices setup, v.status = .complete → ¬ s.record.Moving v.id →
    OwnOutput setup s v
  history : ∀ earlier later, s.log = earlier ++ later →
    ∀ v ∈ (applyAll setup.manifest (earlier.map Prod.snd)).voices,
      ∃ w ∈ s.record.voices setup, w.id = v.id ∧ v.history <+: w.history
  attempts : ∀ v ∈ s.record.voices setup,
    v.history.length = (s.log.filter (fun entry => entry.2.op = .reset v.id)).length
  outputs : ∀ v ∈ s.record.voices setup, ∀ i attempt, v.history[i]? = some attempt →
    attempt.outputMovedTo ≠ none → ∃ output, (attemptFile v.file (i + 1),output) ∈ s.asides
  preserved : ∀ aside ∈ s.asides, s.outputs (setup.locate aside.1) = some aside.2
  distinct : (s.asides.map Prod.fst).Nodup

/-- The manifest of the run is one that the initialisation has accepted. -/
def Initialised (library : PythonData.Library) : Prop := ∃ request, cmdInit library request = .ok setup.manifest

def UsedName (name : PyString) : Prop :=
  ∃ voice ∈ setup.manifest.voices, name = voice.file ∨ ∃ n, name = attemptFile voice.file n

/-- The voices have output files of their own, and different names are different files. -/
structure Separate : Prop where
  files : (setup.manifest.voices.map Voice.file).Nodup
  located : ∀ a b, UsedName setup a → UsedName setup b → setup.locate a = setup.locate b → a = b

end Safety

section Histories

variable {manifest : Manifest} {commits : List Commit} {v w : Voice}

theorem applyAll_cons {commit : Commit} : applyAll manifest (commit :: commits) =
    applyAll (apply manifest commit) commits := rfl

theorem applyAll_append {later : List Commit} : applyAll manifest (commits ++ later) =
    applyAll (applyAll manifest commits) later := List.foldl_append

/-- Operations extend the histories, each by the resets of its voice. -/
theorem applyAll_history (known : w ∈ (applyAll manifest commits).voices) :
    ∃ v ∈ manifest.voices, v.id = w.id ∧ v.history <+: w.history ∧
      w.history.length = v.history.length + (commits.filter (fun c => c.op = .reset w.id)).length := by
  induction commits generalizing manifest with
  | nil => exact ⟨w,known,rfl,List.prefix_refl _,rfl⟩
  | cons commit rest ih =>
    rw [applyAll_cons] at known
    obtain ⟨m,member,id,extends_,count⟩ := ih known
    obtain ⟨v,first,rfl⟩ := mem_apply.mp member
    rw [applyTo_id] at id
    rw [applyTo_history] at extends_ count
    rw [id] at extends_ count
    refine ⟨v,first,id,?_,?_⟩
    · split at extends_
      · exact (List.prefix_append _ _).trans extends_
      · exact extends_
    · by_cases reset : commit.op = .reset w.id
      · rw [if_pos reset, List.length_append, List.length_singleton] at count
        rw [count, List.filter_cons_of_pos (by simpa using reset), List.length_cons]
        omega
      · rw [if_neg reset] at count
        rw [count, List.filter_cons_of_neg (by simpa using reset)]

theorem applyAll_extends (known : v ∈ manifest.voices) :
    ∃ w ∈ (applyAll manifest commits).voices, w.id = v.id ∧ v.history <+: w.history := by
  induction commits generalizing manifest v with
  | nil => exact ⟨v,known,rfl,List.prefix_refl _⟩
  | cons commit rest ih =>
    obtain ⟨w,member,id,extends_⟩ := ih (mem_apply.mpr ⟨v,known,rfl⟩)
    rw [applyTo_id] at id
    refine ⟨w,member,id,?_⟩
    rw [applyTo_history] at extends_
    split at extends_
    · exact (List.prefix_append _ _).trans extends_
    · exact extends_

end Histories

section Results

variable {setup : Setup} {s : State}

theorem cmdInit_voices {library : PythonData.Library} {request : Request} {manifest : Manifest}
    (accepted : cmdInit library request = .ok manifest) :
    (manifest.voices.map Voice.id).Nodup ∧
      ∀ v ∈ manifest.voices, ∃ harness, v = newVoice v.id harness := by
  simp only [cmdInit, checkIds, CheckedExcept.bind_ok, CheckedExcept.check_ok,
    CheckedExcept.exists_unit, CheckedExcept.pure_ok] at accepted
  obtain ⟨⟨_,distinct⟩,owners,_,voices,made,rfl⟩ := accepted
  have each : List.Forall₂ (fun id voice => ∃ harness, voice = newVoice id harness)
      (voiceIds request.voices) voices := by
    apply ((CheckedExcept.mapM_ok _ _ _).mp made).imp
    intro id voice new
    unfold owned at new
    split at new
    · rename_i harness _
      rw [CheckedExcept.pure_ok] at new
      exact ⟨harness,new.symm⟩
    · simp [exitError] at new
  have ids : voices.map Voice.id = voiceIds request.voices := by
    have same : List.Forall₂ Eq (voices.map Voice.id) (voiceIds request.voices) := by
      rw [List.forall₂_map_left_iff]
      apply each.flip.imp
      rintro voice id ⟨harness,rfl⟩
      rfl
    rwa [List.forall₂_eq_eq_eq] at same
  constructor
  · rw [ids]
    exact distinct
  · intro v known
    obtain ⟨id,_,harness,rfl⟩ := CheckedExcept.forall₂_mem_right each known
    exact ⟨harness,rfl⟩

theorem apart_of_separate {library : PythonData.Library} (accepted : Initialised setup library)
    (separate : Separate setup) : Apart setup := by
  obtain ⟨request,made⟩ := accepted
  obtain ⟨distinct,new⟩ := cmdInit_voices made
  have file {v : Voice} (known : v ∈ setup.manifest.voices) : UsedName setup v.file :=
    ⟨v,known,.inl rfl⟩
  have attempt {v : Voice} (known : v ∈ setup.manifest.voices) (n : ℕ) :
      UsedName setup (attemptFile v.file n) := ⟨v,known,.inr ⟨n,rfl⟩⟩
  have unique {v w : Voice} (first : v ∈ setup.manifest.voices) (second : w ∈ setup.manifest.voices)
      (same : v.file = w.file) : v = w :=
    List.inj_on_of_nodup_map separate.files first second same
  refine ⟨distinct,fun v known w known' same => ?_,fun v known w known' n same => ?_,
    fun v known w known' n k same => ?_⟩
  · exact congrArg Voice.id (unique known known' (separate.located _ _ (file known) (file known') same))
  · have names := separate.located _ _ (attempt known n) (file known') same
    obtain ⟨harness,fresh⟩ := new w known'
    rw [fresh] at names
    exact attemptFile_ne_slug names
  · obtain ⟨files,counts⟩ := attemptFile_injective
      (separate.located _ _ (attempt known n) (attempt known' k) same)
    exact ⟨congrArg Voice.id (unique known known' files),counts⟩

theorem controlled_start (setup : Setup) : Controlled setup (start setup) :=
  ⟨rfl,fun p => by simp [start, Phase.holds],List.Sublist.refl _,fun _ => trivial⟩

theorem good_start {library : PythonData.Library} (accepted : Initialised setup library) :
    Good setup (start setup).record := by
  obtain ⟨request,made⟩ := accepted
  obtain ⟨_,new⟩ := cmdInit_voices made
  refine ⟨nofun,nofun,fun v known done => ?_,nofun,nofun,nofun,nofun,nofun,List.nodup_nil,
    fun v known i attempt found => ?_,nofun⟩
  · obtain ⟨harness,fresh⟩ := new v known
    rw [fresh] at done
    exact absurd done (by simp [newVoice])
  · obtain ⟨harness,fresh⟩ := new v known
    rw [fresh] at found
    exact absurd found (by simp [newVoice])

theorem safe_of_good (apart : Apart setup) (initial : ∀ v ∈ setup.manifest.voices, v.history = [])
    (c : Controlled setup s) (good : Good setup s.record) : Safe setup s where
  serial := c.published
  lockOrder := c.order
  acknowledged := by
    intro p commit done
    have fine := c.phases p
    rw [done] at fine
    exact fine
  complete := by
    intro v known done quiet
    obtain ⟨output,there,filled⟩ :=
      (good.complete v known done).resolve_left quiet
    refine ⟨output,there,filled,fun other member same => ?_,fun entry logged reset => ?_⟩
    · rw [file_apart apart member known same]
    · exact good.fresh v known entry logged reset output there
  history := by
    intro earlier later split v known
    have whole : s.record.voices setup = (applyAll (applyAll setup.manifest (earlier.map Prod.snd))
        (later.map Prod.snd)).voices := by
      rw [← applyAll_append, ← List.map_append, ← split]
      rfl
    rw [whole]
    exact applyAll_extends known
  attempts := by
    intro v known
    obtain ⟨first,member,_,_,count⟩ := applyAll_history known
    rw [count, initial first member, List.length_nil, Nat.zero_add, List.filter_map, List.length_map]
    rfl
  outputs := good.kept
  preserved := good.preserved
  distinct := good.distinct

end Results

section Samples

def sampleRequest (voices owners : String) : Request :=
  ⟨"intent-1","intent.md",1,"attack","omp",points voices,some (points owners)⟩

def sampleLibrary : PythonData.Library := ⟨fun _ => [],fun _ => none,fun _ => []⟩

def sampleManifest (voices owners : String) : Manifest :=
  match cmdInit sampleLibrary (sampleRequest voices owners) with
  | .ok manifest => manifest
  | .error _ => ⟨[],[],0,[],[],[]⟩

/-- A directory of its own for a run, in which each name is a file. -/
def sampleSetup (voices owners : String) : Setup :=
  ⟨fun name => [name],sampleManifest voices owners,5000000000,fun _ => none⟩

def completing (p : ℕ) (voice : String) : List Label :=
  [.start p (.complete (points voice) none []),.acquire p,.load p,.perform p,.openTemp p,.close p,
    .replace p,.release p,.acknowledge p]

def Label.calm : Label → Bool
  | .crash _ => false
  | _ => true

/-- A run without a crash is intact. -/
theorem meets_calm {setup : Setup} {labels : List Label} {s : State}
    (calm : labels.all Label.calm = true) : Meets (step setup) Intact labels s := by
  induction labels generalizing s with
  | nil => trivial
  | cons label rest ih =>
    rw [List.all_cons, Bool.and_eq_true] at calm
    refine ⟨fun p _ crash => ?_,fun s' _ => ih calm.2⟩
    rw [crash] at calm
    exact absurd calm.1 (by simp [Label.calm])

end Samples

end RunManifest

end EvidenceV4
