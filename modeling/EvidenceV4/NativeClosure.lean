import EvidenceV4.NativeImages

/-!
# The closure that the inspection finds

The contexts of the inspection form a graph: a call leads to the load context of
its image or to the interpreters of its script, and a load context to the
libraries that its load commands name. The inspection settles every context that
it meets and emits nothing else.
-/

set_option autoImplicit false

namespace EvidenceV4

namespace NativeClosure

open CheckedExcept
open GraphExploration
open NativeImages
open ProducerArtifact (units)
open Relation (ReflTransGen)
open ScalarText (JsString)
open ToolPaths

section Graph

/-- The run paths behind those of the image itself. -/
def tailOf (m : Machine) (cwd : Directory) (real executable : JsString) (inherited : List JsString) :
    Except Fault (List JsString) :=
  if inherited ≠ [] ∨ real = executable then pure inherited
  else do
    let launcher ← m.commands executable
    pure (launcher.rpaths.map (expand cwd executable executable))

/-- The process image, the load commands and the run paths of an image. -/
def launchOf (m : Machine) (cwd : Directory) (real target : JsString) (inherited : List JsString) :
    Except Fault (JsString × LoadCommands × List JsString) := do
  let executable ← executableOf m real target
  let commands ← m.commands real
  let tail ← tailOf m cwd real executable inherited
  pure (executable,commands,
    (commands.rpaths.map (expand cwd executable real) ++ tail).eraseDups)

/-- The interpreters that a script adds to the roots. -/
def scriptRoots (m : Machine) (text : List Char) : Except Fault (List ToolRoot) :=
  match shebang text with
  | none => pure []
  | some (first,rest) =>
    if basename first = units "env" then
      match rest with
      | [second] => do
        let env ← m.resolveCommand first
        let runtime ← m.resolveCommand second
        pure [⟨units "drivers/shebang-env",env⟩,
          ⟨units "drivers/shebang-" ++ basename runtime,runtime⟩]
      | _ => throw (.failed "Unsupported native shebang")
    else do
      let runtime ← m.resolveCommand first
      pure [⟨units "drivers/shebang-" ++ basename runtime,runtime⟩]

def libraryRoot (install target : JsString) : ToolRoot :=
  ⟨units "non-system-libraries/" ++ encodeURIComponent install,target⟩

inductive Follows (m : Machine) (cwd : Directory) : Context → Context → Prop
  | launch {real target executable : JsString} {inherited rpaths : List JsString}
      {head : List UInt8} {commands : LoadCommands} (read : m.head real = .ok head)
      (binary : word head ∈ machoMagic)
      (launched : launchOf m cwd real target inherited = .ok (executable,commands,rpaths)) :
      Follows m cwd (.input real target inherited) (.load real executable rpaths)
  | script {real target : JsString} {inherited : List JsString} {head : List UInt8}
      {roots : List ToolRoot} {root : ToolRoot} (read : m.head real = .ok head)
      (text : word head ∉ machoMagic) (known : scriptRoots m (headText head) = .ok roots)
      (member : root ∈ roots) :
      Follows m cwd (.input real target inherited) (.input root.path root.path [])
  | library {real executable install target : JsString} {rpaths : List JsString}
      {commands : LoadCommands} (read : m.commands real = .ok commands)
      (member : install ∈ commands.dependencies) (own : system install = false)
      (found : libraryOf m cwd real executable rpaths install = .ok target)
      (outside : system target = false) :
      Follows m cwd (.load real executable rpaths) (.input target executable rpaths)

inductive Emits (m : Machine) (cwd : Directory) : Context → ToolRoot → Prop
  | otool {real target : JsString} {inherited : List JsString} {head : List UInt8}
      {roots : List ToolRoot} {root : ToolRoot} (read : m.head real = .ok head)
      (binary : word head ∈ machoMagic) (known : m.otool = .ok roots) (member : root ∈ roots) :
      Emits m cwd (.input real target inherited) root
  | script {real target : JsString} {inherited : List JsString} {head : List UInt8}
      {roots : List ToolRoot} {root : ToolRoot} (read : m.head real = .ok head)
      (text : word head ∉ machoMagic) (known : scriptRoots m (headText head) = .ok roots)
      (member : root ∈ roots) : Emits m cwd (.input real target inherited) root
  | library {real executable install target : JsString} {rpaths : List JsString}
      {commands : LoadCommands} (read : m.commands real = .ok commands)
      (member : install ∈ commands.dependencies) (own : system install = false)
      (found : libraryOf m cwd real executable rpaths install = .ok target)
      (outside : system target = false) :
      Emits m cwd (.load real executable rpaths) (libraryRoot install target)

/-- A call reads its file, and every name of a load context is one library. -/
def Passes (m : Machine) (cwd : Directory) : Context → Prop
  | .input real target inherited => ∃ head, m.head real = .ok head ∧
      (word head ∈ machoMagic → ∃ launch, launchOf m cwd real target inherited = .ok launch) ∧
      (word head ∉ machoMagic → ∃ roots, scriptRoots m (headText head) = .ok roots)
  | .load real executable rpaths => ∃ commands, m.commands real = .ok commands ∧
      ∀ install ∈ commands.dependencies, system install = false →
        ∃ target, libraryOf m cwd real executable rpaths install = .ok target

def graph (m : Machine) (cwd : Directory) : GraphExploration.Graph Context ToolRoot :=
  ⟨Follows m cwd,Emits m cwd,Passes m cwd⟩

end Graph

section Steps

variable {m : Machine} {cwd : Directory} {next : Inspect} {st st' : State} {start : Context}

@[simp] theorem lift_ok {α : Type} {x : Except Fault α} {a : α} : lift x = .ok a ↔ x = .ok a := by
  cases x <;> simp [lift, Except.mapError]

@[simp] theorem lift_fuel {α : Type} {x : Except Fault α} : lift x ≠ .error .fuel := by
  cases x <;> simp [lift, Except.mapError]

/-- A call of the system ends the inspection only with a fault. -/
theorem lift_bind {α β : Type} {x : Except Fault α} {f : α → Except Stop β} {r : Except Stop β}
    (plain : ∀ fault, r ≠ .error (.fault fault)) (run : (lift x >>= f) = r) :
    ∃ a, x = .ok a ∧ f a = r := by
  cases x with
  | error fault => exact absurd run.symm (plain fault)
  | ok a => exact ⟨a,rfl,run⟩

/-- What selecting the tool adds is there once it is selected. -/
def Tooled (m : Machine) (st : State) : Prop :=
  st.otool = true → ∃ roots, m.otool = .ok roots ∧ roots ⊆ st.memory.found

/-- A part of the inspection from a context. -/
structure Part (m : Machine) (cwd : Directory) (start : Context) (st st' : State) : Prop where
  extends_ : Extends (graph m cwd) start st.memory st'.memory
  tooled : Tooled m st'
  selected : st.otool = true → st'.otool = true

theorem Tooled.mono (tooled : Tooled m st) (found : st.memory.found ⊆ st'.memory.found)
    (same : st'.otool = st.otool) : Tooled m st' := by
  intro selected
  have ⟨roots,known,within⟩ := tooled (same ▸ selected)
  exact ⟨roots,known,List.Subset.trans within found⟩

theorem Part.trans {mid : State} (first : Part m cwd start st mid)
    (second : Part m cwd start mid st') : Part m cwd start st st' :=
  ⟨first.extends_.trans second.extends_,second.tooled,second.selected ∘ first.selected⟩

theorem selectedOtool_ok (tooled : Tooled m st) (selected : selectedOtool m st = .ok st') :
    st'.otool = true ∧ Tooled m st' ∧ st'.memory.visited = st.memory.visited ∧
      ∃ more roots, st'.memory.found = st.memory.found ++ more ∧ m.otool = .ok roots ∧
        more ⊆ roots := by
  rw [selectedOtool] at selected
  by_cases known : st.otool = true
  · rw [if_pos known] at selected
    rw [← (pure_ok _ _).mp selected]
    have ⟨roots,read,_⟩ := tooled known
    exact ⟨known,tooled,rfl,[],roots,(List.append_nil _).symm,read,List.nil_subset _⟩
  · rw [if_neg known] at selected
    have ⟨roots,read,selected⟩ := (bind_ok _ _ _).mp selected
    rw [← (pure_ok _ _).mp selected]
    refine ⟨rfl,fun _ => ⟨roots,read,List.subset_append_right _ _⟩,rfl,roots,roots,rfl,
      read,List.Subset.refl _⟩

theorem selectedOtool_again (selected : st.otool = true) : selectedOtool m st = .ok st := by
  rw [selectedOtool, if_pos selected]
  rfl

theorem inheritedPaths_ok {real executable : JsString} {inherited tail : List JsString}
    (ready : st.otool = true)
    (paths : inheritedPaths m cwd st real executable inherited = .ok (st',tail)) :
    st' = st ∧ tailOf m cwd real executable inherited = .ok tail := by
  rw [inheritedPaths] at paths
  rw [tailOf]
  by_cases given : inherited ≠ [] ∨ real = executable
  · rw [if_pos given] at paths ⊢
    cases (pure_ok _ _).mp paths
    exact ⟨rfl,rfl⟩
  · rw [if_neg given] at paths ⊢
    have ⟨⟨other,launcher⟩,read,paths⟩ := (bind_ok _ _ _).mp paths
    have ⟨other',again,read⟩ := (bind_ok _ _ _).mp read
    have ⟨launcher',known,same⟩ := (bind_ok _ _ _).mp read
    cases (pure_ok _ _).mp same
    cases (pure_ok _ _).mp paths
    rw [selectedOtool_again ready] at again
    cases again
    exact ⟨rfl,(bind_ok _ _ _).mpr ⟨launcher,known,rfl⟩⟩

/-- An inspected image has selected the tool and marked the two contexts. -/
theorem inspectImage_runs {real target : JsString} {inherited : List JsString}
    {r : Except Stop State} (tooled : Tooled m st) (plain : ∀ fault, r ≠ .error (.fault fault))
    (run : inspectImage m cwd next st real target inherited = r) :
    ∃ executable commands rpaths mid, launchOf m cwd real target inherited =
        .ok (executable,commands,rpaths) ∧ m.commands real = .ok commands ∧
      selectedOtool m st = .ok mid ∧
      if .load real executable rpaths ∈ mid.memory.visited then
        r = pure (mid.mark (.input real target inherited))
      else commands.dependencies.foldlM (inspectDependency m cwd next real executable rpaths)
        ((mid.mark (.load real executable rpaths)).mark (.input real target inherited)) = r := by
  have ⟨executable,process,behind⟩ := lift_bind plain run
  have ⟨⟨mid,commands⟩,read,rest⟩ := lift_bind plain behind
  have ⟨mid',selected,read⟩ := (bind_ok _ _ _).mp read
  have ⟨commands',known,same⟩ := (bind_ok _ _ _).mp read
  cases (pure_ok _ _).mp same
  have ⟨⟨last,tail⟩,paths,walked⟩ := lift_bind plain rest
  have ⟨same,own⟩ := inheritedPaths_ok (selectedOtool_ok tooled selected).1 paths
  subst same
  refine ⟨executable,commands,(commands.rpaths.map (expand cwd executable real) ++ tail).eraseDups,
    last,?_,known,selected,?_⟩
  · exact (bind_ok _ _ _).mpr ⟨executable,process,(bind_ok _ _ _).mpr
      ⟨commands,known,(bind_ok _ _ _).mpr ⟨tail,own,rfl⟩⟩⟩
  · dsimp only at walked
    split_ifs at walked ⊢
    · exact walked.symm
    · exact walked

end Steps

section Files

variable {m : Machine} {cwd : Directory} {file executable target : JsString}

theorem processImage_mem {left : ℕ} (within : file ∈ m.files)
    (image : processImage m left file = .ok executable) : executable ∈ m.files := by
  induction left generalizing file with
  | zero =>
    rw [processImage] at image
    have ⟨head,_,image⟩ := (bind_ok _ _ _).mp image
    split_ifs at image
    exact (pure_ok _ _).mp image ▸ within
  | succ left ih =>
    rw [processImage] at image
    have ⟨head,_,image⟩ := (bind_ok _ _ _).mp image
    split_ifs at image
    · exact (pure_ok _ _).mp image ▸ within
    · split at image
      · exact ((throw_ok _ _).mp image).elim
      · have ⟨interpreter,_,image⟩ := (bind_ok _ _ _).mp image
        have ⟨next,resolved,image⟩ := (bind_ok _ _ _).mp image
        exact ih (m.resolveCommand_mem _ _ resolved) image

theorem executableOf_mem (own : file ∈ m.files) (within : target ∈ m.files)
    (image : executableOf m file target = .ok executable) : executable ∈ m.files := by
  rw [executableOf] at image
  split_ifs at image
  · exact (pure_ok _ _).mp image ▸ own
  · exact processImage_mem within image

theorem executableTarget_mem (known : executableTarget m executable = .ok target) :
    target ∈ m.files := by
  rw [executableTarget] at known
  split_ifs at known
  · exact m.canonical_mem _ _ known
  · exact m.resolveCommand_mem _ _ known

theorem executableTarget_file (within : executable ∈ m.files) :
    executableTarget m executable = .ok executable := by
  rw [executableTarget, if_pos (m.absolute _ within), m.canonical_file _ within]

theorem mem_existing {paths files : List JsString} (read : existing m paths = .ok files) :
    ∀ f, f ∈ files ↔ ∃ p ∈ paths, m.canonical p = .ok f := by
  induction paths generalizing files with
  | nil =>
    rw [← (pure_ok _ _).mp read]
    simp
  | cons path rest ih =>
    intro f
    rw [existing] at read
    simp only [List.exists_mem_cons_iff]
    split at read
    · rename_i found known
      have ⟨more,later,read⟩ := (bind_ok _ _ _).mp read
      rw [← (pure_ok _ _).mp read, List.mem_cons, ih later, known]
      simp [eq_comm]
    · rename_i known
      rw [ih read, known]
      simp
    · exact ((throw_ok _ _).mp read).elim

/-- The candidates of a library denote one file. -/
theorem libraryOf_ok {rpaths : List JsString} {install : JsString}
    (found : libraryOf m cwd file executable rpaths install = .ok target) (f : JsString) :
    (∃ p ∈ candidates cwd file executable rpaths install, m.canonical p = .ok f) ↔ f = target := by
  have ⟨files,read,found⟩ := (bind_ok _ _ _).mp found
  rw [← mem_existing read]
  split at found
  · rename_i same
    rw [← List.mem_eraseDups, same, (pure_ok _ _).mp found, List.mem_singleton]
  · exact ((throw_ok _ _).mp found).elim

theorem libraryOf_mem {rpaths : List JsString} {install : JsString}
    (found : libraryOf m cwd file executable rpaths install = .ok target) : target ∈ m.files := by
  have ⟨p,_,known⟩ := (libraryOf_ok found target).mpr rfl
  exact m.canonical_mem p target known

end Files

section Calls

variable {m : Machine} {cwd : Directory} {next : Inspect} {st st' : State} {start : Context}

/-- What a call that ends well has done. -/
structure Called (m : Machine) (cwd : Directory) (file executable : JsString)
    (inherited : List JsString) (st st' : State) (real target : JsString) : Prop where
  file : m.canonical file = .ok real
  executable : executableTarget m executable = .ok target
  part : Part m cwd (.input real target inherited) st st'
  visited : .input real target inherited ∈ st'.memory.visited

def Inspects (m : Machine) (cwd : Directory) (next : Inspect) : Prop :=
  ∀ st file executable inherited st', Tooled m st → next st file executable inherited = .ok st' →
    ∃ real target, Called m cwd file executable inherited st st' real target

theorem Part.refl (tooled : Tooled m st) : Part m cwd start st st :=
  ⟨.refl,tooled,id⟩

theorem Part.below {s : Context} (way : ReflTransGen (Follows m cwd) start s)
    (part : Part m cwd s st st') : Part m cwd start st st' :=
  ⟨part.extends_.below way,part.tooled,part.selected⟩

/-- A root is pushed, and its file is inspected. -/
theorem call_part {root : ToolRoot} {executable : JsString} {inherited : List JsString}
    (inspects : Inspects m cwd next) (tooled : Tooled m st) (file : root.path ∈ m.files)
    (process : executable ∈ m.files)
    (follows : Follows m cwd start (.input root.path executable inherited))
    (emits : Emits m cwd start root)
    (accepted : next (st.push [root]) root.path executable inherited = .ok st') :
    Part m cwd start st st' ∧ root ∈ st'.memory.found ∧
      .input root.path executable inherited ∈ st'.memory.visited := by
  have pushed : Tooled m (st.push [root]) := tooled.mono (List.subset_append_left _ _) rfl
  have ⟨real,target,called⟩ := inspects _ _ _ _ _ pushed accepted
  cases (m.canonical_file _ file).symm.trans called.file
  cases (executableTarget_file process).symm.trans called.executable
  have emitted : Extends (graph m cwd) start st.memory (st.push [root]).memory :=
    .emit .refl (fun o member => List.mem_singleton.mp member ▸ emits)
  refine ⟨⟨emitted.trans (called.part.extends_.below (.single follows)),called.part.tooled,
    called.part.selected⟩,?_,called.visited⟩
  exact called.part.extends_.found (List.mem_append_right _ List.mem_cons_self)

section Dependencies

variable {real executable : JsString} {rpaths : List JsString} {commands : LoadCommands}

theorem dependency_part (inspects : Inspects m cwd next) (tooled : Tooled m st)
    (read : m.commands real = .ok commands) (process : executable ∈ m.files) {install : JsString}
    (member : install ∈ commands.dependencies)
    (accepted : inspectDependency m cwd next real executable rpaths st install = .ok st') :
    Part m cwd (.load real executable rpaths) st st' ∧ (system install = false →
      ∃ target, libraryOf m cwd real executable rpaths install = .ok target ∧
        (system target = false → libraryRoot install target ∈ st'.memory.found ∧
          .input target executable rpaths ∈ st'.memory.visited)) := by
  rw [inspectDependency] at accepted
  by_cases own : system install = true
  · rw [if_pos own] at accepted
    rw [← (pure_ok _ _).mp accepted]
    exact ⟨.refl tooled,fun other => absurd own (by simp [other])⟩
  · rw [if_neg own] at accepted
    have own : system install = false := by simpa using own
    have ⟨target,found,accepted⟩ := (bind_ok _ _ _).mp accepted
    have found := lift_ok.mp found
    by_cases outside : system target = true
    · rw [if_pos outside] at accepted
      rw [← (pure_ok _ _).mp accepted]
      exact ⟨.refl tooled,fun _ => ⟨target,found,fun other => absurd outside (by simp [other])⟩⟩
    · rw [if_neg outside] at accepted
      have outside : system target = false := by simpa using outside
      have called := @call_part _ _ _ _ _ _ (libraryRoot install target) _ _ inspects tooled
        (libraryOf_mem found) process (.library read member own found outside)
        (.library read member own found outside) accepted
      exact ⟨called.1,fun _ => ⟨target,found,fun _ => called.2⟩⟩

/-- The loop over the dependencies resolves every one and follows it. -/
theorem dependencies_part (inspects : Inspects m cwd next) (tooled : Tooled m st)
    (read : m.commands real = .ok commands) (process : executable ∈ m.files)
    {installs : List JsString} (within : installs ⊆ commands.dependencies)
    (accepted : installs.foldlM (inspectDependency m cwd next real executable rpaths) st =
      .ok st') :
    Part m cwd (.load real executable rpaths) st st' ∧ ∀ install ∈ installs,
      system install = false → ∃ target,
        libraryOf m cwd real executable rpaths install = .ok target ∧
        (system target = false → libraryRoot install target ∈ st'.memory.found ∧
          .input target executable rpaths ∈ st'.memory.visited) := by
  induction installs generalizing st with
  | nil =>
    rw [← (pure_ok _ _).mp accepted]
    exact ⟨.refl tooled,nofun⟩
  | cons install rest ih =>
    have ⟨mid,first,accepted⟩ := (bind_ok _ _ _).mp accepted
    have ⟨part,here⟩ := dependency_part inspects tooled read process
      (within List.mem_cons_self) first
    have ⟨behind,later⟩ := ih part.tooled (fun x member => within (List.mem_cons_of_mem _ member))
      accepted
    refine ⟨part.trans behind,List.forall_mem_cons.mpr ⟨fun own => ?_,later⟩⟩
    have ⟨target,found,followed⟩ := here own
    exact ⟨target,found,fun outside => ⟨behind.extends_.found (followed outside).1,
      behind.extends_.visited (followed outside).2⟩⟩

end Dependencies

section Images

variable {real target executable : JsString} {inherited rpaths : List JsString}
  {commands : LoadCommands} {head : List UInt8}

theorem launchOf_file (own : real ∈ m.files) (within : target ∈ m.files)
    (launched : launchOf m cwd real target inherited = .ok (executable,commands,rpaths)) :
    executable ∈ m.files := by
  have ⟨executable',image,launched⟩ := (bind_ok _ _ _).mp launched
  have ⟨commands',_,launched⟩ := (bind_ok _ _ _).mp launched
  have ⟨tail,_,launched⟩ := (bind_ok _ _ _).mp launched
  cases (pure_ok _ _).mp launched
  exact executableOf_mem own within image

theorem settled_image (read : m.head real = .ok head) (binary : word head ∈ machoMagic)
    (launched : launchOf m cwd real target inherited = .ok (executable,commands,rpaths))
    (visited : .load real executable rpaths ∈ st.memory.visited) (selected : st.otool = true)
    (tooled : Tooled m st) : Settled (graph m cwd) st.memory (.input real target inherited) where
  passes := ⟨head,read,fun _ => ⟨_,launched⟩,fun text => absurd binary text⟩
  follows t edge := by
    cases edge with
    | launch read' _ launched' =>
      cases launched.symm.trans launched'
      exact visited
    | script read' text _ _ =>
      cases read.symm.trans read'
      exact absurd binary text
  emits o emits := by
    have ⟨roots,known,within⟩ := tooled selected
    cases emits with
    | otool _ _ known' member =>
      cases known.symm.trans known'
      exact within member
    | script read' text _ _ =>
      cases read.symm.trans read'
      exact absurd binary text

theorem settled_load (read : m.commands real = .ok commands) (each : ∀ install ∈
      commands.dependencies, system install = false → ∃ target,
        libraryOf m cwd real executable rpaths install = .ok target ∧
        (system target = false → libraryRoot install target ∈ st.memory.found ∧
          .input target executable rpaths ∈ st.memory.visited)) :
    Settled (graph m cwd) st.memory (.load real executable rpaths) where
  passes := by
    refine ⟨commands,read,fun install member own => ?_⟩
    have ⟨target,found,_⟩ := each install member own
    exact ⟨target,found⟩
  follows t edge := by
    cases edge with
    | library read' member own found outside =>
      cases read.symm.trans read'
      have ⟨target,found',followed⟩ := each _ member own
      cases found.symm.trans found'
      exact (followed outside).2
  emits o emits := by
    cases emits with
    | library read' member own found outside =>
      cases read.symm.trans read'
      have ⟨target,found',followed⟩ := each _ member own
      cases found.symm.trans found'
      exact (followed outside).1

theorem inspectImage_part (inspects : Inspects m cwd next) (tooled : Tooled m st)
    (own : real ∈ m.files) (within : target ∈ m.files) (read : m.head real = .ok head)
    (binary : word head ∈ machoMagic)
    (accepted : inspectImage m cwd next st real target inherited = .ok st') :
    Part m cwd (.input real target inherited) st st' ∧
      .input real target inherited ∈ st'.memory.visited := by
  have ⟨executable,commands,rpaths,mid,launched,known,selected,walked⟩ :=
    inspectImage_runs tooled (by simp) accepted
  have ⟨ready,tooled',same,more,roots,found,otool,subset⟩ := selectedOtool_ok tooled selected
  have memory : mid.memory = ⟨st.memory.visited,st.memory.found ++ more⟩ := by rw [← same, ← found]
  have begun : Extends (graph m cwd) (.input real target inherited) st.memory mid.memory := by
    rw [memory]
    exact .emit .refl (fun o member => .otool read binary otool (subset member))
  have launch : Follows m cwd (.input real target inherited) (.load real executable rpaths) :=
    .launch read binary launched
  by_cases again : .load real executable rpaths ∈ mid.memory.visited
  · rw [if_pos again] at walked
    cases (pure_ok _ _).mp walked.symm
    have marked : Tooled m (mid.mark (.input real target inherited)) := tooled'
    have settled : Settled (graph m cwd) (mid.mark (.input real target inherited)).memory
        (.input real target inherited) :=
      settled_image read binary launched (List.mem_cons_of_mem _ again) ready marked
    exact ⟨⟨begun.trans (.mark .refl .refl settled),marked,fun _ => ready⟩,List.mem_cons_self⟩
  · rw [if_neg again] at walked
    have marked : Tooled m ((mid.mark (.load real executable rpaths)).mark
      (.input real target inherited)) := tooled'
    have ⟨part,each⟩ := dependencies_part inspects marked known
      (launchOf_file own within launched) (List.Subset.refl _) walked
    have loaded : .load real executable rpaths ∈ st'.memory.visited :=
      part.extends_.visited (List.mem_cons_of_mem _ List.mem_cons_self)
    have here : .input real target inherited ∈ st'.memory.visited :=
      part.extends_.visited List.mem_cons_self
    have ended := part.selected ready
    have behind := part.extends_.below (.single launch)
    have input := Extends.mark (a := ⟨_ :: mid.memory.visited,mid.memory.found⟩) .refl behind
      (settled_image read binary launched loaded ended part.tooled)
    have load := Extends.mark (a := mid.memory) (.single launch) input (settled_load known each)
    exact ⟨⟨begun.trans load,part.tooled,fun _ => ended⟩,here⟩

end Images

section Scripts

variable {real target : JsString} {inherited : List JsString} {head : List UInt8}

theorem inspectRuntime_part {interpreter : JsString} (inspects : Inspects m cwd next)
    (tooled : Tooled m st) (linked : ∀ runtime, m.resolveCommand interpreter = .ok runtime →
      Follows m cwd start (.input runtime runtime []) ∧
      Emits m cwd start ⟨units "drivers/shebang-" ++ basename runtime,runtime⟩)
    (accepted : inspectRuntime m next st interpreter = .ok st') :
    ∃ runtime, m.resolveCommand interpreter = .ok runtime ∧ Part m cwd start st st' ∧
      ⟨units "drivers/shebang-" ++ basename runtime,runtime⟩ ∈ st'.memory.found ∧
      .input runtime runtime [] ∈ st'.memory.visited := by
  have ⟨runtime,found,accepted⟩ := (bind_ok _ _ _).mp accepted
  have found := lift_ok.mp found
  have own := m.resolveCommand_mem _ _ found
  exact ⟨runtime,found,@call_part _ _ _ _ _ _
    ⟨units "drivers/shebang-" ++ basename runtime,runtime⟩ _ _ inspects tooled own own
    (linked runtime found).1 (linked runtime found).2 accepted⟩

theorem inspectScript_resolves {text : List Char}
    (accepted : inspectScript m next st text = .ok st') : ∃ roots, scriptRoots m text = .ok roots := by
  cases tokens : shebang text with
  | none => exact ⟨[],by rw [scriptRoots, tokens]; rfl⟩
  | some parts =>
    obtain ⟨first,rest⟩ := parts
    rw [inspectScript, tokens] at accepted
    rw [scriptRoots, tokens]
    dsimp only at accepted ⊢
    by_cases env : basename first = units "env"
    · rw [if_pos env] at accepted ⊢
      split at accepted
      · have ⟨env,found,accepted⟩ := (bind_ok _ _ _).mp accepted
        have ⟨mid,_,accepted⟩ := (bind_ok _ _ _).mp accepted
        have ⟨runtime,found',_⟩ := (bind_ok _ _ _).mp accepted
        exact ⟨_,(bind_ok _ _ _).mpr ⟨env,lift_ok.mp found,(bind_ok _ _ _).mpr
          ⟨runtime,lift_ok.mp found',rfl⟩⟩⟩
      · exact ((throw_ok _ _).mp accepted).elim
    · rw [if_neg env] at accepted ⊢
      have ⟨runtime,found,_⟩ := (bind_ok _ _ _).mp accepted
      exact ⟨_,(bind_ok _ _ _).mpr ⟨runtime,lift_ok.mp found,rfl⟩⟩

theorem inspectScript_part {text : List Char} {roots : List ToolRoot}
    (inspects : Inspects m cwd next) (tooled : Tooled m st)
    (known : scriptRoots m text = .ok roots)
    (linked : ∀ root ∈ roots, Follows m cwd start (.input root.path root.path []) ∧
      Emits m cwd start root)
    (accepted : inspectScript m next st text = .ok st') : Part m cwd start st st' ∧
      ∀ root ∈ roots, root ∈ st'.memory.found ∧ .input root.path root.path [] ∈ st'.memory.visited := by
  cases tokens : shebang text with
  | none =>
    rw [inspectScript, tokens] at accepted
    rw [scriptRoots, tokens] at known
    rw [← (pure_ok _ _).mp accepted, ← (pure_ok _ _).mp known]
    exact ⟨.refl tooled,nofun⟩
  | some parts =>
    obtain ⟨first,rest⟩ := parts
    rw [inspectScript, tokens] at accepted
    rw [scriptRoots, tokens] at known
    dsimp only at accepted known
    by_cases env : basename first = units "env"
    · rw [if_pos env] at accepted known
      split at accepted
      · have ⟨env,found,accepted⟩ := (bind_ok _ _ _).mp accepted
        have ⟨mid,opened,accepted⟩ := (bind_ok _ _ _).mp accepted
        have ⟨env',found',known⟩ := (bind_ok _ _ _).mp known
        cases (lift_ok.mp found).symm.trans found'
        have ⟨runtime',last,known⟩ := (bind_ok _ _ _).mp known
        cases (pure_ok _ _).mp known
        have own := m.resolveCommand_mem _ _ found'
        have ⟨follows,emits⟩ := linked _ List.mem_cons_self
        have ⟨part,pushed,visited⟩ := @call_part _ _ _ _ _ _ ⟨units "drivers/shebang-env",env⟩ _ _
          inspects tooled own own follows emits opened
        have ⟨runtime,resolved,behind,pushed',visited'⟩ :=
          @inspectRuntime_part _ _ _ _ _ start _ inspects part.tooled (fun runtime resolved => by
            cases last.symm.trans resolved
            exact linked _ (List.mem_cons_of_mem _ List.mem_cons_self)) accepted
        cases last.symm.trans resolved
        refine ⟨part.trans behind,List.forall_mem_cons.mpr ⟨⟨behind.extends_.found pushed,
          behind.extends_.visited visited⟩,fun root member => ?_⟩⟩
        cases List.mem_singleton.mp member
        exact ⟨pushed',visited'⟩
      · exact ((throw_ok _ _).mp accepted).elim
    · rw [if_neg env] at accepted known
      have ⟨runtime',last,known⟩ := (bind_ok _ _ _).mp known
      cases (pure_ok _ _).mp known
      have ⟨runtime,resolved,part,pushed,visited⟩ :=
        @inspectRuntime_part _ _ _ _ _ start _ inspects tooled (fun runtime resolved => by
          cases last.symm.trans resolved
          exact linked _ List.mem_cons_self) accepted
      cases last.symm.trans resolved
      refine ⟨part,fun root member => ?_⟩
      cases List.mem_singleton.mp member
      exact ⟨pushed,visited⟩

theorem settled_script {roots : List ToolRoot} (read : m.head real = .ok head)
    (script : word head ∉ machoMagic) (known : scriptRoots m (headText head) = .ok roots)
    (each : ∀ root ∈ roots, root ∈ st.memory.found ∧
      .input root.path root.path [] ∈ st.memory.visited) :
    Settled (graph m cwd) st.memory (.input real target inherited) where
  passes := ⟨head,read,fun binary => absurd binary script,fun _ => ⟨roots,known⟩⟩
  follows t edge := by
    cases edge with
    | launch read' binary _ =>
      cases read.symm.trans read'
      exact absurd binary script
    | script read' _ known' member =>
      cases read.symm.trans read'
      cases known.symm.trans known'
      exact (each _ member).2
  emits o emits := by
    cases emits with
    | otool read' binary _ _ =>
      cases read.symm.trans read'
      exact absurd binary script
    | script read' _ known' member =>
      cases read.symm.trans read'
      cases known.symm.trans known'
      exact (each _ member).1

end Scripts

theorem inspectWith_spec (inspects : Inspects m cwd next) : Inspects m cwd (inspectWith m cwd next) := by
  intro st file executable inherited st' tooled accepted
  have ⟨real,canonical,accepted⟩ := (bind_ok _ _ _).mp accepted
  have ⟨target,process,accepted⟩ := (bind_ok _ _ _).mp accepted
  have canonical := lift_ok.mp canonical
  have process := lift_ok.mp process
  have own := m.canonical_mem _ _ canonical
  have within := executableTarget_mem process
  by_cases known : .input real target inherited ∈ st.memory.visited
  · rw [if_pos known] at accepted
    rw [← (pure_ok _ _).mp accepted]
    exact ⟨real,target,canonical,process,.refl tooled,known⟩
  · rw [if_neg known] at accepted
    have ⟨head,read,accepted⟩ := (bind_ok _ _ _).mp accepted
    have read := lift_ok.mp read
    by_cases binary : word head ∈ machoMagic
    · rw [if_pos binary] at accepted
      have ⟨part,visited⟩ := inspectImage_part inspects tooled own within read binary accepted
      exact ⟨real,target,canonical,process,part,visited⟩
    · rw [if_neg binary] at accepted
      have ⟨roots,resolved⟩ := inspectScript_resolves accepted
      have marked : Tooled m (st.mark (.input real target inherited)) := tooled
      have linked : ∀ root ∈ roots,
          Follows m cwd (.input real target inherited) (.input root.path root.path []) ∧
          Emits m cwd (.input real target inherited) root :=
        fun root member => ⟨.script read binary resolved member,.script read binary resolved member⟩
      have ⟨part,each⟩ := inspectScript_part inspects marked resolved linked accepted
      exact ⟨real,target,canonical,process,⟨.mark .refl part.extends_
        (settled_script read binary resolved each),part.tooled,part.selected⟩,
        part.extends_.visited List.mem_cons_self⟩

theorem inspect_spec (fuel : ℕ) : Inspects m cwd (inspect m cwd fuel) := by
  induction fuel with
  | zero =>
    intro st file executable inherited st' _ accepted
    exact ((throw_ok _ _).mp accepted).elim
  | succ fuel ih => exact inspectWith_spec ih

end Calls

end NativeClosure

end EvidenceV4
