import EvidenceV4.NativeClosure

/-!
# The inspection ends

On finitely many files there are finitely many run paths, and a list of run
paths holds none twice. So there are finitely many contexts, and every nested
call has marked one more of them.
-/

set_option autoImplicit false

namespace EvidenceV4

namespace NativeTermination

open CheckedExcept
open GraphExploration
open NativeClosure
open NativeImages
open ScalarText (JsString)
open ToolPaths

variable {m : Machine} {cwd : Directory}

section Places

def readRpaths (m : Machine) (image : JsString) : List JsString :=
  match m.commands image with
  | .ok commands => commands.rpaths
  | .error _ => []

/-- Every run path that an inspection can meet. -/
def runPaths (m : Machine) (cwd : Directory) : List JsString :=
  m.files.flatMap (fun executable => m.files.flatMap (fun image =>
    (readRpaths m image).map (expand cwd executable image)))

def places (m : Machine) (cwd : Directory) : List Context :=
  m.files.flatMap (fun image => m.files.flatMap (fun executable =>
    (orderings (runPaths m cwd)).flatMap (fun rpaths =>
      [.input image executable rpaths,.load image executable rpaths])))

/-- Run paths of an inspection. -/
structure Known (m : Machine) (cwd : Directory) (rpaths : List JsString) : Prop where
  distinct : rpaths.Nodup
  within : rpaths ⊆ runPaths m cwd

variable {real target executable image : JsString} {inherited rpaths : List JsString}
  {commands : LoadCommands}

theorem known_nil : Known m cwd [] := ⟨List.nodup_nil,List.nil_subset _⟩

theorem mem_places (own : real ∈ m.files) (within : target ∈ m.files)
    (known : Known m cwd rpaths) : .input real target rpaths ∈ places m cwd ∧
      .load real target rpaths ∈ places m cwd := by
  have ordered := mem_orderings known.distinct known.within
  constructor
  · exact List.mem_flatMap.mpr ⟨real,own,List.mem_flatMap.mpr ⟨target,within,List.mem_flatMap.mpr
      ⟨rpaths,ordered,List.mem_cons_self⟩⟩⟩
  · exact List.mem_flatMap.mpr ⟨real,own,List.mem_flatMap.mpr ⟨target,within,List.mem_flatMap.mpr
      ⟨rpaths,ordered,List.mem_cons_of_mem _ List.mem_cons_self⟩⟩⟩

theorem mem_runPaths (process : executable ∈ m.files) (own : image ∈ m.files)
    (read : m.commands image = .ok commands) :
    commands.rpaths.map (expand cwd executable image) ⊆ runPaths m cwd := by
  intro path member
  refine List.mem_flatMap.mpr ⟨executable,process,List.mem_flatMap.mpr ⟨image,own,?_⟩⟩
  rwa [readRpaths, read]

theorem tailOf_within (process : executable ∈ m.files) (known : Known m cwd inherited)
    {tail : List JsString} (read : tailOf m cwd real executable inherited = .ok tail) :
    tail ⊆ runPaths m cwd := by
  rw [tailOf] at read
  split_ifs at read
  · rw [← (pure_ok _ _).mp read]
    exact known.within
  · obtain ⟨launcher,found,read⟩ := (bind_ok _ _ _).mp read
    rw [← (pure_ok _ _).mp read]
    exact mem_runPaths process process found

theorem launchOf_known (own : real ∈ m.files) (within : target ∈ m.files)
    (known : Known m cwd inherited)
    (launched : launchOf m cwd real target inherited = .ok (executable,commands,rpaths)) :
    Known m cwd rpaths := by
  have process := launchOf_file own within launched
  have ⟨executable',_,launched⟩ := (bind_ok _ _ _).mp launched
  have ⟨commands',found,launched⟩ := (bind_ok _ _ _).mp launched
  have ⟨tail,read,launched⟩ := (bind_ok _ _ _).mp launched
  cases (pure_ok _ _).mp launched
  refine ⟨nodup_eraseDups _,fun path member => ?_⟩
  rcases List.mem_append.mp (List.mem_eraseDups.mp member) with here | behind
  · exact mem_runPaths process own found here
  · exact tailOf_within process known read behind

end Places

section Halting

variable {next : Inspect} {bound : ℕ}

abbrev Unstopped {α : Type} (x : Except Stop α) : Prop := FailsIn (· ≠ Stop.fuel) x

theorem unstopped_lift {α : Type} (x : Except Fault α) : Unstopped (lift x) :=
  fun _ failed same => lift_fuel (same ▸ failed)

/-- The calls end where fewer contexts than the bound are still to be visited. -/
def Halts (m : Machine) (cwd : Directory) (bound : ℕ) (next : Inspect) : Prop :=
  ∀ st file executable inherited, Tooled m st → Known m cwd inherited →
    missing (places m cwd) st.memory.visited < bound →
      Unstopped (next st file executable inherited)

section Steps

variable {st st' : State} {real target executable : JsString} {inherited rpaths : List JsString}
  {commands : LoadCommands}

theorem dependency_halts (halts : Halts m cwd bound next) (tooled : Tooled m st)
    (known : Known m cwd rpaths) (few : missing (places m cwd) st.memory.visited < bound)
    (install : JsString) :
    Unstopped (inspectDependency m cwd next real executable rpaths st install) := by
  rw [inspectDependency]
  split_ifs
  · exact failsIn_pure st
  · refine failsIn_bind (unstopped_lift _) fun target _ => ?_
    split_ifs
    · exact failsIn_pure st
    · exact halts _ _ _ _ (tooled.mono (List.subset_append_left _ _) rfl) known few

theorem dependencies_halt (halts : Halts m cwd bound next) (inspects : Inspects m cwd next)
    (tooled : Tooled m st) (read : m.commands real = .ok commands) (process : executable ∈ m.files)
    (known : Known m cwd rpaths) (few : missing (places m cwd) st.memory.visited < bound) :
    Unstopped (commands.dependencies.foldlM
      (inspectDependency m cwd next real executable rpaths) st) := by
  refine failsIn_foldlM_invariant (fun st => Tooled m st ∧
    missing (places m cwd) st.memory.visited < bound) ⟨tooled,few⟩ ?_ ?_
  · rintro st install member st' ⟨tooled,few⟩ accepted
    have ⟨part,_⟩ := dependency_part inspects tooled read process member accepted
    exact ⟨part.tooled,lt_of_le_of_lt (missing_mono _ part.extends_.visited) few⟩
  · rintro st ⟨tooled,few⟩ install _
    exact dependency_halts halts tooled known few install

theorem inspectImage_halts (halts : Halts m cwd bound next) (inspects : Inspects m cwd next)
    (tooled : Tooled m st) (own : real ∈ m.files) (within : target ∈ m.files)
    (known : Known m cwd inherited)
    (few : missing (places m cwd) st.memory.visited < bound + 1) :
    Unstopped (inspectImage m cwd next st real target inherited) := by
  rintro _ stopped rfl
  have ⟨executable,commands,rpaths,mid,launched,read,selected,walked⟩ :=
    inspectImage_runs tooled (by simp) stopped
  have ⟨_,tooled',same,_⟩ := selectedOtool_ok tooled selected
  have process := launchOf_file own within launched
  have paths := launchOf_known own within known launched
  by_cases again : .load real executable rpaths ∈ mid.memory.visited
  · rw [if_pos again] at walked
    cases walked
  · rw [if_neg again] at walked
    have marked : Tooled m ((mid.mark (.load real executable rpaths)).mark
      (.input real target inherited)) := tooled'
    refine dependencies_halt halts inspects marked read process paths ?_ _ walked rfl
    -- The load context is new, so fewer contexts are left below.
    have fewer := missing_mark (mem_places own process paths).2 again
    have least := missing_mono (places m cwd)
      (List.subset_cons_self (.input real target inherited) (.load real executable rpaths ::
        mid.memory.visited))
    rw [same] at fewer least
    show missing (places m cwd) (.input real target inherited :: .load real executable rpaths ::
      mid.memory.visited) < bound
    rw [same]
    omega

theorem inspectRuntime_halts (halts : Halts m cwd bound next) (tooled : Tooled m st)
    (few : missing (places m cwd) st.memory.visited < bound) (interpreter : JsString) :
    Unstopped (inspectRuntime m next st interpreter) :=
  failsIn_bind (unstopped_lift _) fun _ _ =>
    halts _ _ _ _ (tooled.mono (List.subset_append_left _ _) rfl) known_nil few

theorem inspectScript_halts (halts : Halts m cwd bound next) (inspects : Inspects m cwd next)
    (tooled : Tooled m st) (few : missing (places m cwd) st.memory.visited < bound)
    (text : List Char) : Unstopped (inspectScript m next st text) := by
  rw [inspectScript]
  split
  · exact failsIn_pure st
  · split_ifs
    · split
      · refine failsIn_bind (unstopped_lift _) fun env _ => ?_
        have pushed : Tooled m (st.push [⟨ProducerArtifact.units "drivers/shebang-env",env⟩]) :=
          tooled.mono (List.subset_append_left _ _) rfl
        refine failsIn_bind (halts _ _ _ _ pushed known_nil few) fun mid accepted => ?_
        obtain ⟨_,_,called⟩ := inspects _ _ _ _ _ pushed accepted
        have grown := missing_mono (places m cwd) called.part.extends_.visited
        exact inspectRuntime_halts halts called.part.tooled (lt_of_le_of_lt grown few) _
      · exact failsIn_throw (by simp)
    · exact inspectRuntime_halts halts tooled few _

theorem inspectWith_halts (halts : Halts m cwd bound next) (inspects : Inspects m cwd next) :
    Halts m cwd (bound + 1) (inspectWith m cwd next) := by
  intro st file executable inherited tooled known few
  refine failsIn_bind (unstopped_lift _) fun real canonical => ?_
  refine failsIn_bind (unstopped_lift _) fun target process => ?_
  have own := m.canonical_mem _ _ (lift_ok.mp canonical)
  have within := executableTarget_mem (lift_ok.mp process)
  by_cases again : .input real target inherited ∈ st.memory.visited
  · rw [if_pos again]
    exact failsIn_pure st
  · rw [if_neg again]
    refine failsIn_bind (unstopped_lift _) fun head _ => ?_
    split_ifs
    · exact inspectImage_halts halts inspects tooled own within known few
    · have marked : Tooled m (st.mark (.input real target inherited)) := tooled
      have fewer := missing_mark (mem_places own within known).1 again
      exact inspectScript_halts halts inspects marked (by
        show missing (places m cwd) (.input real target inherited :: st.memory.visited) < bound
        omega) _

end Steps

theorem inspect_halts (fuel : ℕ) : Halts m cwd fuel (inspect m cwd fuel) := by
  induction fuel with
  | zero => exact fun _ _ _ _ _ _ few => absurd few (Nat.not_lt_zero _)
  | succ fuel ih => exact inspectWith_halts ih (inspect_spec fuel)

end Halting

section Fuel

variable {next other : Inspect} {st : State}

/-- With more nested calls a result stays the same. -/
def Deeper (next other : Inspect) : Prop :=
  ∀ st file executable inherited,
    Within Stop.fuel (next st file executable inherited) (other st file executable inherited)

theorem inspectRuntime_deeper (deeper : Deeper next other) (interpreter : JsString) :
    Within Stop.fuel (inspectRuntime m next st interpreter)
      (inspectRuntime m other st interpreter) :=
  within_bind within_refl fun _ => deeper _ _ _ _

theorem inspectScript_deeper (deeper : Deeper next other) (text : List Char) :
    Within Stop.fuel (inspectScript m next st text) (inspectScript m other st text) := by
  rw [inspectScript, inspectScript]
  split
  · exact within_refl
  · split_ifs
    · split
      · exact within_bind within_refl fun env => within_bind (deeper _ _ _ _) fun mid =>
          inspectRuntime_deeper deeper _
      · exact within_refl
    · exact inspectRuntime_deeper deeper _

theorem inspectImage_deeper (deeper : Deeper next other) (real target : JsString)
    (inherited : List JsString) : Within Stop.fuel
      (inspectImage m cwd next st real target inherited)
      (inspectImage m cwd other st real target inherited) := by
  refine within_bind within_refl fun executable => ?_
  refine within_bind within_refl fun read => ?_
  refine within_bind within_refl fun paths => ?_
  dsimp only
  split_ifs
  · exact within_refl
  · refine within_foldlM fun st install => ?_
    rw [inspectDependency, inspectDependency]
    split_ifs
    · exact within_refl
    · refine within_bind within_refl fun target => ?_
      split_ifs
      · exact within_refl
      · exact deeper _ _ _ _

theorem inspectWith_deeper (deeper : Deeper next other) :
    Deeper (inspectWith m cwd next) (inspectWith m cwd other) := by
  intro st file executable inherited
  refine within_bind within_refl fun real => ?_
  refine within_bind within_refl fun target => ?_
  split_ifs
  · exact within_refl
  · refine within_bind within_refl fun head => ?_
    split_ifs
    · exact inspectImage_deeper deeper _ _ _
    · exact inspectScript_deeper deeper _

theorem inspect_deeper (fuel : ℕ) : Deeper (inspect m cwd fuel) (inspect m cwd (fuel + 1)) := by
  induction fuel with
  | zero => exact fun _ _ _ _ => .inl rfl
  | succ fuel ih => exact inspectWith_deeper ih

/-- The depth that is enough for every inspection. -/
def enough (m : Machine) (cwd : Directory) : ℕ := (places m cwd).length + 1

theorem inspect_unstopped (tooled : Tooled m st) {inherited : List JsString}
    (known : Known m cwd inherited) (file executable : JsString) :
    Unstopped (inspect m cwd (enough m cwd) st file executable inherited) :=
  inspect_halts _ _ _ _ _ tooled known
    (Nat.lt_succ_of_le (List.length_filter_le _ _))

/-- An inspection ends: with enough nested calls it has a result, which is that of every deeper
one. -/
theorem inspect_ends (tooled : Tooled m st) {inherited : List JsString}
    (known : Known m cwd inherited) (file executable : JsString) (more : ℕ) :
    inspect m cwd (enough m cwd + more) st file executable inherited =
      inspect m cwd (enough m cwd) st file executable inherited := by
  induction more with
  | zero => rfl
  | succ more ih =>
    have deeper := @inspect_deeper m cwd (enough m cwd + more) st file executable inherited
    rw [← ih]
    refine (deeper.result fun stopped => ?_).symm
    rw [ih] at stopped
    exact inspect_unstopped tooled known file executable _ stopped rfl

end Fuel

section Discovery

variable {st st' : State} {subjects : List JsString} {real target : JsString}
  {inherited : List JsString}

theorem inspect_known {fuel : ℕ} {file executable : JsString} (canonical : m.canonical file = .ok real)
    (process : executableTarget m executable = .ok target)
    (known : .input real target inherited ∈ st.memory.visited) :
    inspect m cwd (fuel + 1) st file executable inherited = .ok st := by
  show inspectWith m cwd (inspect m cwd fuel) st file executable inherited = .ok st
  refine (bind_ok _ _ _).mpr ⟨real,lift_ok.mpr canonical,(bind_ok _ _ _).mpr
    ⟨target,lift_ok.mpr process,?_⟩⟩
  rw [if_pos known]
  rfl

/-- A call changes nothing, or it has visited a place. -/
theorem inspect_progress {fuel : ℕ} {file executable : JsString} (tooled : Tooled m st)
    (known : Known m cwd inherited)
    (accepted : inspect m cwd fuel st file executable inherited = .ok st') :
    st' = st ∨ missing (places m cwd) st'.memory.visited < missing (places m cwd) st.memory.visited := by
  have ⟨real,target,called⟩ := inspect_spec fuel _ _ _ _ _ tooled accepted
  by_cases again : .input real target inherited ∈ st.memory.visited
  · cases fuel with
    | zero => cases accepted
    | succ fuel =>
      rw [inspect_known called.file called.executable again] at accepted
      exact .inl (Except.ok.inj accepted).symm
  · have place := (mem_places (m.canonical_mem _ _ called.file)
      (executableTarget_mem called.executable) known).1
    have grown : .input real target inherited :: st.memory.visited ⊆ st'.memory.visited :=
      List.cons_subset.mpr ⟨called.visited,called.part.extends_.visited⟩
    exact .inr (lt_of_le_of_lt (missing_mono _ grown) (missing_mark place again))

theorem inspectRoot_part {depth : ℕ} {input : ToolRoot} (tooled : Tooled m st)
    (accepted : inspectRoot m cwd subjects depth st input = .ok st') : Tooled m st' ∧
      (st' = st ∨
        missing (places m cwd) st'.memory.visited < missing (places m cwd) st.memory.visited) := by
  rw [inspectRoot] at accepted
  split_ifs at accepted
  · have ⟨_,_,called⟩ := inspect_spec _ _ _ _ _ _ tooled accepted
    exact ⟨called.part.tooled,inspect_progress tooled known_nil accepted⟩
  · rw [← (pure_ok _ _).mp accepted]
    exact ⟨tooled,.inl rfl⟩

theorem inspectRoot_unstopped (tooled : Tooled m st) (input : ToolRoot) :
    Unstopped (inspectRoot m cwd subjects (enough m cwd) st input) := by
  rw [inspectRoot]
  split_ifs
  · exact inspect_unstopped tooled known_nil _ _
  · exact failsIn_pure st

/-- The loop over the roots comes to its end: a root adds further roots only while it visits
further contexts. -/
theorem discover_halts (left : ℕ) : ∀ (behind : ℕ) (st : State) (index : ℕ), Tooled m st →
    missing (places m cwd) st.memory.visited ≤ left → st.memory.found.length - index ≤ behind →
    ∃ steps, Unstopped (discover m cwd subjects (enough m cwd) steps index st) := by
  induction left using Nat.strong_induction_on with
  | _ left outer =>
    intro behind
    induction behind with
    | zero =>
      intro st index _ _ short
      have none_left : st.memory.found[index]? = none := List.getElem?_eq_none (by omega)
      refine ⟨1,?_⟩
      rw [discover, none_left]
      exact failsIn_pure st
    | succ behind inner =>
      intro st index tooled few short
      cases at_index : st.memory.found[index]? with
      | none =>
        refine ⟨1,?_⟩
        rw [discover, at_index]
        exact failsIn_pure st
      | some input =>
        have halts := @inspectRoot_unstopped m cwd st subjects tooled input
        cases ran : inspectRoot m cwd subjects (enough m cwd) st input with
        | error stop =>
          refine ⟨1,?_⟩
          rw [discover, at_index]
          dsimp only
          rw [ran]
          exact fun e same => halts e (ran.trans same)
        | ok mid =>
          have ⟨tooled',progress⟩ := inspectRoot_part tooled ran
          have ⟨steps,rest⟩ : ∃ steps, Unstopped
              (discover m cwd subjects (enough m cwd) steps (index + 1) mid) := by
            rcases progress with same | fewer
            · subst same
              exact inner mid (index + 1) tooled' few (by omega)
            · exact outer _ (lt_of_lt_of_le fewer few) _ mid (index + 1) tooled' le_rfl le_rfl
          refine ⟨steps + 1,?_⟩
          rw [discover, at_index]
          dsimp only
          rw [ran]
          exact rest

theorem discover_depth (steps index depth : ℕ) (tooled : Tooled m st) :
    discover m cwd subjects (enough m cwd + depth) steps index st =
      discover m cwd subjects (enough m cwd) steps index st := by
  induction steps generalizing index st with
  | zero => rfl
  | succ steps ih =>
    rw [discover, discover]
    cases st.memory.found[index]? with
    | none => rfl
    | some input =>
      have same : inspectRoot m cwd subjects (enough m cwd + depth) st input =
          inspectRoot m cwd subjects (enough m cwd) st input := by
        rw [inspectRoot, inspectRoot]
        split_ifs
        · exact inspect_ends tooled known_nil _ _ depth
        · rfl
      dsimp only
      rw [same]
      exact bind_congr_ok rfl fun mid ran => ih (index + 1) (inspectRoot_part tooled ran).1

theorem discover_longer (depth steps index : ℕ) : Within Stop.fuel
    (discover m cwd subjects depth steps index st)
    (discover m cwd subjects depth (steps + 1) index st) := by
  induction steps generalizing index st with
  | zero => exact .inl rfl
  | succ steps ih =>
    rw [discover, discover]
    cases st.memory.found[index]? with
    | none => exact within_refl
    | some input => exact within_bind within_refl fun mid => ih (index + 1)

/-- The discovery has a result, which no greater depth and no further steps change. -/
theorem discover_ends (subjects : List JsString) (index : ℕ) (tooled : Tooled m st) :
    ∃ steps result, result ≠ .error .fuel ∧ ∀ depth more,
      discover m cwd subjects (enough m cwd + depth) (steps + more) index st = result := by
  have ⟨steps,halts⟩ := @discover_halts m cwd subjects _ _ st index tooled le_rfl le_rfl
  refine ⟨steps,_,fun stopped => halts _ stopped rfl,fun depth more => ?_⟩
  rw [discover_depth _ _ _ tooled]
  induction more with
  | zero => rfl
  | succ more ih =>
    rw [← ih]
    refine ((discover_longer _ (steps + more) index).result fun stopped => ?_).symm
    exact halts _ (ih.symm.trans stopped) rfl

end Discovery

end NativeTermination

end EvidenceV4
