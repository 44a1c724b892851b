import EvidenceV4.LinuxLoader

/-!
# The libraries that the loader of the GNU library takes

The visits remember an object and not the search paths that led to it. They are
an exploration of the ways to the objects where no name depends on the way. Then
every library that the loader loads is visited and every one outside the system
directories is a root. The visits end, since each one marks a new file.
-/

set_option autoImplicit false

namespace EvidenceV4

namespace LinuxDiscovery

open CheckedExcept
open ElfReader (LinuxELF Text)
open GraphExploration
open LinuxLinkage
open LinuxLoader
open NativeImages (ToolRoot encodeURIComponent)
open ProducerArtifact (units)
open Relation (ReflTransGen)
open ScalarText (JsString)
open ToolPaths

variable {s : System} {env : Environment} {files : List JsString}

section Exploration

/-- A name of an object denotes the file, on some way to the object. -/
inductive Denotes (s : System) (env : Environment) (files : List JsString) (real : JsString) :
    Text → JsString → Prop
  | library {inherited : List JsString} {image : LinuxELF} {needed : Text} {file : JsString}
      (way : Way s env files real inherited) (read : s.image real = .ok (some image))
      (member : needed ∈ image.needed)
      (taken : loaderLibrary s env real image inherited needed = some file) :
      Denotes s env files real needed file
  | interpreter {inherited : List JsString} {image : LinuxELF} {name : Text} {file : JsString}
      (way : Way s env files real inherited) (read : s.image real = .ok (some image))
      (names : image.interpreter = some name) (full : name ≠ [])
      (known : s.canonical (jsUnits name) = .ok file) : Denotes s env files real name file

def rootOf (name : Text) (file : JsString) : ToolRoot :=
  ⟨units "non-system-libraries/" ++ encodeURIComponent (jsUnits name),file⟩

def graph (s : System) (env : Environment) (files : List JsString) :
    GraphExploration.Graph JsString ToolRoot where
  follows real file := ∃ name, Denotes s env files real name file
  emits real root := ∃ name file, Denotes s env files real name file ∧
    linuxSystemPath file = false ∧ root = rootOf name file
  passes _ := True

/-- The file is visited, and a root unless it is in a system directory. -/
structure Taken (st : State) (name : Text) (file : JsString) : Prop where
  visited : file ∈ st.visited
  root : linuxSystemPath file = false → rootOf name file ∈ st.found

variable {st st' : State} {real file : JsString} {inherited : List JsString} {image : LinuxELF}
  {name : Text}

theorem Taken.mono (taken : Taken st name file) (visited : st.visited ⊆ st'.visited)
    (found : st.found ⊆ st'.found) : Taken st' name file :=
  ⟨visited taken.visited,fun outside => found (taken.root outside)⟩

/-- A visit explores what is behind its file. -/
def Visits (s : System) (env : Environment) (files : List JsString) (next : Visit) : Prop :=
  ∀ st file real inherited st', s.canonical file = .ok real → Way s env files real inherited →
    next st file inherited = .ok st' → Extends (graph s env files) real st st' ∧ real ∈ st'.visited

theorem lift_ok {α : Type} {x : Except Fault α} {a : α} (read : lift x = .ok a) : x = .ok a := by
  cases x with
  | error fault => simp [lift, Except.mapError] at read
  | ok b => simpa [lift, Except.mapError] using read

theorem push_part (denotes : Denotes s env files real name file) :
    Extends (graph s env files) real st (st.push name file) ∧
      (linuxSystemPath file = false → rootOf name file ∈ (st.push name file).found) := by
  rw [State.push]
  split_ifs with inner
  · exact ⟨.refl,fun outside => absurd inner (by simp [outside])⟩
  · have outside : linuxSystemPath file = false := by simpa using inner
    refine ⟨.emit .refl fun root member => ?_,fun _ => ?_⟩
    · rw [List.mem_singleton.mp member]
      exact ⟨name,file,denotes,outside,rfl⟩
    · exact List.mem_append_right _ List.mem_cons_self

/-- The root of a file and the visit of it. -/
theorem taken_part {next : Visit} (visits : Visits s env files next)
    (denotes : Denotes s env files real name file) (within : file ∈ s.files)
    (way : Way s env files file inherited)
    (accepted : next (st.push name file) file inherited = .ok st') :
    Extends (graph s env files) real st st' ∧ Taken st' name file := by
  have ⟨pushed,root⟩ := @push_part s env files st real file name denotes
  have ⟨part,visited⟩ := visits _ _ _ _ _ (s.canonical_file file within) way accepted
  have edge : (graph s env files).follows real file := ⟨name,denotes⟩
  exact ⟨pushed.trans (part.below (.single edge)),visited,fun outside => part.found (root outside)⟩

theorem visitInterpreter_part {next : Visit} (visits : Visits s env files next)
    (way : Way s env files real inherited) (read : s.image real = .ok (some image))
    (accepted : visitInterpreter s next st image = .ok st') :
    Extends (graph s env files) real st st' ∧ ∀ name file, image.interpreter = some name →
      name ≠ [] → s.canonical (jsUnits name) = .ok file → Taken st' name file := by
  rw [visitInterpreter] at accepted
  split at accepted
  · next absent =>
    obtain rfl := (pure_ok _ _).mp accepted
    exact ⟨.refl,fun name file names => nomatch absent.symm.trans names⟩
  · next empty =>
    obtain rfl := (pure_ok _ _).mp accepted
    refine ⟨.refl,fun name file names full => ?_⟩
    exact absurd (Option.some.inj (empty.symm.trans names)).symm full
  · next c rest names =>
    obtain ⟨file,known,accepted⟩ := (bind_ok _ _ _).mp accepted
    have known := lift_ok known
    have denotes := Denotes.interpreter way read names (List.cons_ne_nil c rest) known
    have ⟨part,taken⟩ := taken_part visits denotes (s.canonical_mem _ _ known)
      (.interpreter way read names (List.cons_ne_nil c rest) known) accepted
    refine ⟨part,fun name' file' names' _ known' => ?_⟩
    cases Option.some.inj (names.symm.trans names')
    cases known.symm.trans known'
    exact taken

theorem suits_mem {path : JsString} (found : suits s image path = some file) : file ∈ s.files := by
  rw [suits] at found
  cases behind : isFile s path with
  | error fault => simp [behind] at found
  | ok known =>
    rw [behind] at found
    cases known with
    | none => simp at found
    | some real =>
      have same : real = file := by
        dsimp only at found
        split at found
        · split_ifs at found
          exact Option.some.inj found
        · simp at found
      obtain ⟨other,canonical,behind⟩ := (bind_ok _ _ _).mp behind
      obtain ⟨regular,_,behind⟩ := (bind_ok _ _ _).mp behind
      have kept : (if regular then some other else none) = some real := (pure_ok _ _).mp behind
      split_ifs at kept
      rw [← same, ← Option.some.inj kept]
      exact s.canonical_mem _ _ canonical

theorem firstLibrary_mem {name : JsString} {directories : List JsString}
    (found : firstLibrary s image name directories = some file) : file ∈ s.files := by
  obtain ⟨directory,_,suited⟩ := List.exists_of_findSome?_eq_some found
  exact suits_mem suited

theorem loaderLibrary_mem {needed : Text}
    (taken : loaderLibrary s env real image inherited needed = some file) : file ∈ s.files := by
  rw [loaderLibrary] at taken
  split_ifs at taken
  · exact suits_mem taken
  · rcases Option.or_eq_some_iff.mp taken with first | ⟨_,rest⟩
    · exact firstLibrary_mem first
    · rcases Option.or_eq_some_iff.mp rest with cache | ⟨_,default_⟩
      · rw [loaderCache] at cache
        split at cache
        · obtain ⟨entry,_,suited⟩ := List.exists_of_findSome?_eq_some cache
          exact suits_mem suited
        · simp at cache
      · exact firstLibrary_mem default_

theorem visitNeeded_part {next : Visit} (visits : Visits s env files next)
    (way : Way s env files real inherited) (read : s.image real = .ok (some image))
    (plain : Plain s env real image inherited) {search : Search}
    (searched : searchOf real image inherited = .ok search) {names : List Text}
    (within : names ⊆ image.needed)
    (accepted : names.foldlM (visitNeeded s env next real image search) st = .ok st') :
    Extends (graph s env files) real st st' ∧ ∀ needed ∈ names, ∃ file,
      loaderLibrary s env real image inherited needed = some file ∧ Taken st' needed file := by
  induction names generalizing st with
  | nil =>
    obtain rfl := (pure_ok _ _).mp accepted
    exact ⟨.refl,nofun⟩
  | cons needed names ih =>
    rw [List.foldlM_cons] at accepted
    obtain ⟨mid,here,accepted⟩ := (bind_ok _ _ _).mp accepted
    obtain ⟨file,library,here⟩ := (bind_ok _ _ _).mp here
    have member := within List.mem_cons_self
    have found := libraryOf_ok plain member searched (lift_ok library)
    have chain := (@searchOf_ok env image real inherited search plain.literal searched).1
    rw [chain] at here
    have ⟨first,taken⟩ := taken_part visits (.library way read member found)
      (loaderLibrary_mem found) (.library way read member found) here
    have ⟨rest,each⟩ := ih (List.Subset.trans (List.subset_cons_self _ _) within) accepted
    refine ⟨first.trans rest,List.forall_mem_cons.mpr ⟨⟨file,found,?_⟩,each⟩⟩
    exact taken.mono rest.visited rest.found

/-- The visit of an image settles it: every name that it can have on any way is taken. -/
theorem visitImage_part {next : Visit} (visits : Visits s env files next)
    (settles : Settles s env files) (way : Way s env files real inherited)
    (read : s.image real = .ok (some image))
    (accepted : visitImage s env next (st.mark real) real inherited image = .ok st') :
    Extends (graph s env files) real st st' ∧ real ∈ st'.visited := by
  obtain ⟨mid,interpreted,accepted⟩ := (bind_ok _ _ _).mp accepted
  obtain ⟨search,searched,accepted⟩ := (bind_ok _ _ _).mp accepted
  have ⟨first,interpreter⟩ := visitInterpreter_part visits way read interpreted
  have plain := settles.plain real inherited image way read
  have ⟨rest,libraries⟩ := visitNeeded_part visits way read plain (lift_ok searched)
    (List.Subset.refl _) accepted
  have whole := first.trans rest
  have taken : ∀ name file, Denotes s env files real name file → Taken st' name file := by
    intro name file denotes
    cases denotes with
    | library way' read' member taken' =>
      cases read.symm.trans read'
      obtain ⟨other,found,taken⟩ := libraries name member
      rw [settles.single real inherited _ image way way' read name member, taken'] at found
      exact Option.some.inj found ▸ taken
    | interpreter _ read' names full known =>
      cases read.symm.trans read'
      exact (interpreter name file names full known).mono rest.visited rest.found
  have marked : real ∈ st'.visited := whole.visited List.mem_cons_self
  refine ⟨.mark .refl whole ⟨trivial,?_,?_⟩,marked⟩
  · rintro file ⟨name,denotes⟩
    exact (taken name file denotes).visited
  · rintro root ⟨name,file,denotes,outside,rfl⟩
    exact (taken name file denotes).root outside

theorem Denotes.exists_image (denotes : Denotes s env files real name file) :
    ∃ image, s.image real = .ok (some image) := by
  cases denotes with
  | library _ read => exact ⟨_,read⟩
  | interpreter _ read => exact ⟨_,read⟩

theorem visitWith_part {next : Visit} (visits : Visits s env files next)
    (settles : Settles s env files) : Visits s env files (visitWith s env next) := by
  intro st file real inherited st' known way accepted
  obtain ⟨real',known',accepted⟩ := (bind_ok _ _ _).mp accepted
  cases known.symm.trans (lift_ok known')
  by_cases again : real ∈ st.visited
  · rw [if_pos again] at accepted
    obtain rfl := (pure_ok _ _).mp accepted
    exact ⟨.refl,again⟩
  · rw [if_neg again] at accepted
    obtain ⟨image,read,accepted⟩ := (bind_ok _ _ _).mp accepted
    have read := lift_ok read
    cases image with
    | some image => exact visitImage_part visits settles way read accepted
    | none =>
      obtain rfl := (pure_ok _ _).mp accepted
      have bare : ∀ name file, ¬Denotes s env files real name file := by
        intro name file denotes
        obtain ⟨image,read'⟩ := denotes.exists_image
        cases read.symm.trans read'
      refine ⟨.mark .refl .refl ⟨trivial,?_,?_⟩,List.mem_cons_self⟩
      · rintro file ⟨name,denotes⟩
        exact absurd denotes (bare name file)
      · rintro root ⟨name,file,denotes,_⟩
        exact absurd denotes (bare name file)

theorem visit_part (settles : Settles s env files) (fuel : ℕ) :
    Visits s env files (visit s env fuel) := by
  induction fuel with
  | zero =>
    intro st file real inherited st' known way accepted
    simp [visit] at accepted
  | succ fuel ih => exact visitWith_part ih settles

end Exploration

section Runs

variable {st st' : State} {depth : ℕ}

/-- The visits of all the files leave every visited object settled. -/
theorem visits_closed (settles : Settles s env files) {rest : List JsString} (within : rest ⊆ files)
    (closed : Closed (graph s env files) st)
    (accepted : rest.foldlM (fun st file => visit s env depth st file []) st = .ok st') :
    Closed (graph s env files) st' ∧ st.visited ⊆ st'.visited ∧
      ∀ file ∈ rest, ∀ real, s.canonical file = .ok real → real ∈ st'.visited := by
  induction rest generalizing st with
  | nil =>
    obtain rfl := (pure_ok _ _).mp accepted
    exact ⟨closed,List.Subset.refl _,nofun⟩
  | cons file rest ih =>
    rw [List.foldlM_cons] at accepted
    obtain ⟨mid,here,accepted⟩ := (bind_ok _ _ _).mp accepted
    have member := within List.mem_cons_self
    have below : ∃ real, s.canonical file = .ok real := by
      cases depth with
      | zero => simp [visit] at here
      | succ depth =>
        obtain ⟨real,known,_⟩ := (bind_ok _ _ _).mp here
        exact ⟨real,lift_ok known⟩
    obtain ⟨real,known⟩ := below
    have ⟨part,visited⟩ := visit_part settles depth st file real [] mid known (.start member known)
      here
    have ⟨closed',grown,each⟩ := ih (List.Subset.trans (List.subset_cons_self _ _) within)
      (part.closed closed) accepted
    refine ⟨closed',List.Subset.trans part.visited grown,List.forall_mem_cons.mpr ⟨?_,each⟩⟩
    intro other known'
    cases known.symm.trans known'
    exact grown visited

/-- What the loader has met: each object on a way that it has taken, visited and, unless it is the
file itself or in a system directory, a root. -/
structure Met (s : System) (env : Environment) (files : List JsString) (st : State) (real : JsString)
    (load : Load) : Prop where
  way : Way s env files load.object load.inherited
  visited : load.object ∈ st.visited
  root : load.object = real ∨ linuxSystemPath load.object = true ∨
    ∃ root ∈ st.found, root.path = load.object

variable {real : JsString} {l : Loader}

theorem request_met {object : Load} {image : LinuxELF} {needed : Text}
    (closed : Closed (graph s env files) st) (read : s.image object.object = .ok (some image))
    (met : Met s env files st real object) (member : needed ∈ image.needed)
    (all : ∀ load ∈ l.done ++ l.queue, Met s env files st real load) :
    ∀ load ∈ (request s env object image l needed).done ++
      (request s env object image l needed).queue, Met s env files st real load := by
  rw [request]
  cases taken : loaderLibrary s env object.object image object.inherited needed with
  | none => exact all
  | some file =>
    dsimp only
    split_ifs
    · exact all
    · intro load inside
      rw [← List.append_assoc, List.mem_append, List.mem_singleton] at inside
      rcases inside with inside | rfl
      · exact all load inside
      · have denotes := Denotes.library met.way read member taken
        have settled := closed _ met.visited
        refine ⟨.library met.way read member taken,settled.follows _ ⟨needed,denotes⟩,.inr ?_⟩
        cases outside : linuxSystemPath file with
        | true => exact .inl rfl
        | false =>
          exact .inr ⟨_,settled.emits _ ⟨needed,file,denotes,outside,rfl⟩,rfl⟩

theorem requests_met {object : Load} {image : LinuxELF} {names : List Text}
    (closed : Closed (graph s env files) st) (read : s.image object.object = .ok (some image))
    (met : Met s env files st real object) (within : names ⊆ image.needed)
    (all : ∀ load ∈ l.done ++ l.queue, Met s env files st real load) :
    ∀ load ∈ (names.foldl (request s env object image) l).done ++
      (names.foldl (request s env object image) l).queue, Met s env files st real load := by
  induction names generalizing l with
  | nil => exact all
  | cons needed names ih =>
    exact ih (List.Subset.trans (List.subset_cons_self _ _) within)
      (request_met closed read met (within List.mem_cons_self) all)

theorem loaderStep_met (closed : Closed (graph s env files) st)
    (all : ∀ load ∈ l.done ++ l.queue, Met s env files st real load) :
    ∀ load ∈ (loaderStep s env l).done ++ (loaderStep s env l).queue,
      Met s env files st real load := by
  rw [loaderStep]
  split
  · exact all
  · next object rest waiting =>
    rw [waiting] at all
    have moved : ∀ load ∈ (l.done ++ [object]) ++ rest, Met s env files st real load := by
      intro load inside
      exact all load (by simpa using inside)
    split
    · next image read =>
      exact requests_met closed read (all object (by simp)) (List.Subset.refl _) moved
    · exact moved

theorem loaderRun_met (closed : Closed (graph s env files) st) (steps : ℕ)
    (all : ∀ load ∈ l.done ++ l.queue, Met s env files st real load) :
    ∀ load ∈ ((loaderStep s env)^[steps] l).done ++ ((loaderStep s env)^[steps] l).queue,
      Met s env files st real load := by
  induction steps generalizing l with
  | zero => exact all
  | succ steps ih => exact ih (loaderStep_met closed all)

end Runs

section Halting

variable {next other : Visit} {st st' : State} {bound : ℕ}

theorem lift_unstopped {α : Type} (x : Except Fault α) : FailsIn (· ≠ Stop.fuel) (lift x) := by
  intro e failed
  cases x with
  | error fault =>
    rw [← show Stop.fault fault = e by simpa [lift, Except.mapError] using failed]
    simp
  | ok a => simp [lift, Except.mapError] at failed

/-- A visit adds to what is visited. -/
def Grows (next : Visit) : Prop :=
  ∀ st file inherited st', next st file inherited = .ok st' → st.visited ⊆ st'.visited

/-- The visits end where fewer files than the bound are still to be visited. -/
def Halts (s : System) (bound : ℕ) (next : Visit) : Prop :=
  ∀ st file inherited, missing s.files st.visited < bound →
    FailsIn (· ≠ Stop.fuel) (next st file inherited)

theorem push_visited (name : Text) (file : JsString) : (st.push name file).visited = st.visited := by
  rw [State.push]
  split_ifs <;> rfl

theorem visitInterpreter_grows (grows : Grows next) {image : LinuxELF}
    (accepted : visitInterpreter s next st image = .ok st') : st.visited ⊆ st'.visited := by
  rw [visitInterpreter] at accepted
  split at accepted
  · rw [(pure_ok _ _).mp accepted]
    exact List.Subset.refl _
  · rw [(pure_ok _ _).mp accepted]
    exact List.Subset.refl _
  · next c rest _ =>
    obtain ⟨file,_,accepted⟩ := (bind_ok _ _ _).mp accepted
    have grown := grows _ _ _ _ accepted
    rwa [push_visited] at grown

theorem visitNeeded_grows (grows : Grows next) {real : JsString} {image : LinuxELF}
    {search : Search} {needed : Text}
    (accepted : visitNeeded s env next real image search st needed = .ok st') :
    st.visited ⊆ st'.visited := by
  obtain ⟨file,_,accepted⟩ := (bind_ok _ _ _).mp accepted
  have grown := grows _ _ _ _ accepted
  rwa [push_visited] at grown

theorem visitImage_grows (grows : Grows next) {real : JsString} {inherited : List JsString}
    {image : LinuxELF} (accepted : visitImage s env next st real inherited image = .ok st') :
    st.visited ⊆ st'.visited := by
  obtain ⟨mid,interpreted,accepted⟩ := (bind_ok _ _ _).mp accepted
  obtain ⟨search,_,accepted⟩ := (bind_ok _ _ _).mp accepted
  have first := visitInterpreter_grows grows interpreted
  refine foldlM_invariant (fun st' => st.visited ⊆ st'.visited) _ ?_ _ _ _ first accepted
  exact fun a _ b before step => List.Subset.trans before (visitNeeded_grows grows step)

theorem visit_grows (fuel : ℕ) : Grows (visit s env fuel) := by
  induction fuel with
  | zero => exact fun st file inherited st' accepted => by simp [visit] at accepted
  | succ fuel ih =>
    intro st file inherited st' accepted
    obtain ⟨real,_,accepted⟩ := (bind_ok _ _ _).mp accepted
    split_ifs at accepted
    · rw [(pure_ok _ _).mp accepted]
      exact List.Subset.refl _
    · obtain ⟨image,_,accepted⟩ := (bind_ok _ _ _).mp accepted
      cases image with
      | none =>
        rw [← (pure_ok _ _).mp accepted]
        exact List.subset_cons_self _ _
      | some image =>
        exact List.Subset.trans (List.subset_cons_self _ _) (visitImage_grows ih accepted)

theorem visitImage_halts (grows : Grows next) (halts : Halts s bound next)
    (few : missing s.files st.visited < bound) (real : JsString) (inherited : List JsString)
    (image : LinuxELF) :
    FailsIn (· ≠ Stop.fuel) (visitImage s env next st real inherited image) := by
  have interpreted : FailsIn (· ≠ Stop.fuel) (visitInterpreter s next st image) := by
    rw [visitInterpreter]
    split
    · exact failsIn_pure st
    · exact failsIn_pure st
    · refine failsIn_bind (lift_unstopped _) fun file _ => halts _ _ _ ?_
      rwa [push_visited]
  refine failsIn_bind interpreted fun mid accepted => ?_
  refine failsIn_bind (lift_unstopped _) fun search _ => ?_
  have fewer := missing_mono s.files (visitInterpreter_grows grows accepted)
  refine failsIn_foldlM_invariant (fun st => missing s.files st.visited < bound)
    (lt_of_le_of_lt fewer few) ?_ ?_
  · intro a needed _ b left step
    exact lt_of_le_of_lt (missing_mono _ (visitNeeded_grows grows step)) left
  · intro a left needed _
    refine failsIn_bind (lift_unstopped _) fun file _ => halts _ _ _ ?_
    rwa [push_visited]

/-- Each nested visit has marked one more file. -/
theorem visit_halts (fuel : ℕ) : Halts s fuel (visit s env fuel) := by
  induction fuel with
  | zero => exact fun _ _ _ few => absurd few (Nat.not_lt_zero _)
  | succ fuel ih =>
    intro st file inherited few
    refine failsIn_bind (lift_unstopped _) fun real known => ?_
    split_ifs with again
    · exact failsIn_pure st
    · refine failsIn_bind (lift_unstopped _) fun image _ => ?_
      cases image with
      | none => exact failsIn_pure _
      | some image =>
        have own := s.canonical_mem _ _ (lift_ok known)
        have fewer := missing_mark own again
        exact visitImage_halts (visit_grows fuel) ih
          (show missing s.files (real :: st.visited) < fuel by omega) real inherited image

/-- With more nested calls a result stays the same. -/
def Deeper (next other : Visit) : Prop :=
  ∀ st file inherited, Within Stop.fuel (next st file inherited) (other st file inherited)

theorem visitImage_deeper (deeper : Deeper next other) (real : JsString)
    (inherited : List JsString) (image : LinuxELF) :
    Within Stop.fuel (visitImage s env next st real inherited image)
      (visitImage s env other st real inherited image) := by
  have interpreter : Within Stop.fuel (visitInterpreter s next st image)
      (visitInterpreter s other st image) := by
    rw [visitInterpreter, visitInterpreter]
    split
    · exact within_refl
    · exact within_refl
    · exact within_bind within_refl fun file => deeper _ _ _
  refine within_bind interpreter fun mid => within_bind within_refl fun search => ?_
  exact within_foldlM fun st needed => within_bind within_refl fun file => deeper _ _ _

theorem visit_deeper (fuel : ℕ) : Deeper (visit s env fuel) (visit s env (fuel + 1)) := by
  induction fuel with
  | zero => exact fun _ _ _ => .inl rfl
  | succ fuel ih =>
    intro st file inherited
    refine within_bind within_refl fun real => ?_
    split_ifs
    · exact within_refl
    · refine within_bind within_refl fun image => ?_
      cases image with
      | none => exact within_refl
      | some image => exact visitImage_deeper ih real inherited image

/-- The depth that is enough for every visit. -/
def enough (s : System) : ℕ := s.files.length + 1

theorem linuxLinkage_unstopped : FailsIn (· ≠ Stop.fuel) (linuxLinkage s env (enough s) files) := by
  refine failsIn_bind (lift_unstopped _) fun _ _ => ?_
  refine failsIn_foldlM fun st file _ => visit_halts _ st file [] ?_
  exact Nat.lt_succ_of_le (List.length_filter_le _ _)

/-- The discovery ends, and every deeper one has its result. -/
theorem linuxLinkage_ends (more : ℕ) :
    linuxLinkage s env (enough s + more) files = linuxLinkage s env (enough s) files := by
  induction more with
  | zero => rfl
  | succ more ih =>
    have deeper : Within Stop.fuel (linuxLinkage s env (enough s + more) files)
        (linuxLinkage s env (enough s + more + 1) files) :=
      within_bind within_refl fun _ => within_foldlM fun st file => visit_deeper _ st file []
    rw [← Nat.add_assoc, ← ih]
    refine (deeper.result fun stopped => ?_).symm
    exact linuxLinkage_unstopped _ (ih ▸ stopped) rfl

end Halting

section Completeness

def plainTool : JsString := units "/b/t"

def plainLibrary : JsString := units "/l/a"

/-- A tool that needs the library `a`, which lies in a directory of the library path. -/
def plainSystem : System where
  files := [plainTool,plainLibrary]
  canonical path := if path ∈ [plainTool,plainLibrary] then .ok path else .error .absent
  regular _ := .ok true
  image file := .ok (some ⟨62,true,none,none,if file = plainTool then [['a']] else [],[],[]⟩)
  access _ := .error .absent
  content _ := .error .absent
  littleEndian := true
  canonical_mem path file known := by
    split_ifs at known with member
    exact Except.ok.inj known ▸ member
  canonical_file file member := if_pos member

def plainEnvironment : Environment := ⟨none,none,some (units "/l")⟩

theorem plain_way {real : JsString} {inherited : List JsString}
    (way : Way plainSystem plainEnvironment [plainTool] real inherited) : inherited = [] := by
  induction way with
  | start => rfl
  | library _ read _ _ ih =>
    cases Except.ok.inj read
    exact ih
  | interpreter => rfl

theorem plain_settles : Settles plainSystem plainEnvironment [plainTool] where
  plain real inherited image way read := by
    cases Except.ok.inj read
    cases plain_way way
    refine ⟨rfl,by rintro _ ⟨⟩,fun needed member _ => ?_⟩
    have name : needed = ['a'] := by
      dsimp only at member
      split_ifs at member
      · exact List.mem_singleton.mp member
      · simp at member
    subst name
    change ∀ directory ∈ [units "/l"] ++ defaultDirectories ⟨62,true,none,none,[],[],[]⟩, _
    decide
  single real inherited other image way way' _ needed _ := by
    rw [plain_way way, plain_way way']

end Completeness

end LinuxDiscovery

end EvidenceV4
