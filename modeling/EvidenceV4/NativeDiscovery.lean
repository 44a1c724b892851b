import EvidenceV4.NativeTermination

/-!
# The libraries that the loader takes

The dynamic loader resolves a name against the image that holds it, the process
image and the run paths of the images that led there. The adapter expands the
same names with a text replacement and drops their dots lexically. Where neither
changes what a name denotes, every library that the loader takes is among the
roots of a discovery that ends well.
-/

set_option autoImplicit false

namespace EvidenceV4

namespace NativeDiscovery

open CheckedExcept
open GraphExploration
open NativeClosure
open NativeImages
open NativeTermination
open ProducerArtifact (units)
open Relation (ReflTransGen)
open ScalarText (JsString)
open ToolPaths

variable {m : Machine} {cwd : Folder}

section Loader

def atLead (lead directory value : JsString) : JsString :=
  if lead.isPrefixOf value then directory ++ value.drop lead.length else value

/-- A path of the process, absolute or within its working directory. -/
def absolutePath (cwd : Folder) (value : JsString) : JsString :=
  if value.head? = some slash then value else render cwd.names ++ slash :: value

def loaderName (cwd : Folder) (executable image value : JsString) : JsString :=
  absolutePath cwd (atLead executablePath (dirname executable)
    (atLead loaderPath (dirname image) value))

/-- The paths that the loader tries in turn. -/
def loaderPaths (cwd : Folder) (executable image : JsString) (runs : List JsString)
    (install : JsString) : List JsString :=
  if rpathLead.isPrefixOf install then
    runs.map (fun run => run ++ slash :: install.drop rpathLead.length)
  else [loaderName cwd executable image install]

def firstFile (m : Machine) (paths : List JsString) : Option JsString :=
  paths.findSome? (fun path => (m.canonical path).toOption)

/-- An image with its load commands. -/
def IsImage (m : Machine) (file : JsString) (commands : LoadCommands) : Prop :=
  m.commands file = .ok commands ∧ ∃ head, m.head file = .ok head ∧ word head ∈ machoMagic

/-- The images that the loader takes from a start image on, each with the run paths of the images
that led to it, its own first. -/
inductive Loads (m : Machine) (cwd : Folder) (executable start : JsString) :
    JsString → List JsString → Prop
  | start {commands launcher : LoadCommands} (image : IsImage m start commands)
      (process : IsImage m executable launcher) :
      Loads m cwd executable start start
        (commands.rpaths.map (loaderName cwd executable start) ++
          if start = executable then []
          else launcher.rpaths.map (loaderName cwd executable executable))
  | library {image install target : JsString} {runs : List JsString}
      {commands library : LoadCommands} (loaded : Loads m cwd executable start image runs)
      (read : m.commands image = .ok commands) (member : install ∈ commands.dependencies)
      (own : system install = false)
      (taken : firstFile m (loaderPaths cwd executable image runs install) = some target)
      (outside : system target = false) (binary : IsImage m target library) :
      Loads m cwd executable start target
        (library.rpaths.map (loaderName cwd executable target) ++ runs)

/-- A text that a replacement leaves as it is. -/
def Literal (text : JsString) : Prop := ∀ u ∈ ([36,38,96,39] : JsString), ¬[36,u] <:+: text

theorem literal_bare {text : JsString} (bare : 36 ∉ text) : Literal text :=
  fun _ _ within => bare (within.subset List.mem_cons_self)

/-- Dropping the dots of the names of an image changes no file that they denote. -/
structure Lexical (m : Machine) (cwd : Folder) (executable image : JsString)
    (runs : List JsString) (commands : LoadCommands) : Prop where
  run : ∀ install ∈ commands.dependencies, system install = false →
    rpathLead.isPrefixOf install = true → ∀ run ∈ runs,
      m.canonical (joinPath (render (resolve cwd.names run)) (install.drop rpathLead.length)) =
        m.canonical (run ++ slash :: install.drop rpathLead.length)
  direct : ∀ install ∈ commands.dependencies, system install = false →
    rpathLead.isPrefixOf install = false →
      m.canonical (render (resolve cwd.names (loaderName cwd executable image install))) =
        m.canonical (loaderName cwd executable image install)

/-- The names of every image that is loaded are read as the loader reads them. -/
structure Plain (m : Machine) (cwd : Folder) (executable start : JsString) : Prop where
  process : Literal (dirname executable)
  literal : ∀ image runs, Loads m cwd executable start image runs → Literal (dirname image)
  lexical : ∀ image runs commands, Loads m cwd executable start image runs →
    m.commands image = .ok commands → Lexical m cwd executable image runs commands

end Loader

section Names

variable {lead directory value executable image install : JsString}

theorem replacement_literal {found behind text : JsString} (literal : Literal text) :
    replacement found behind text = text := by
  have here : ∀ {u : JsonText.CodeUnit} {rest : JsString}, u ∈ ([36,38,96,39] : JsString) →
      ¬Literal (36 :: u :: rest) := fun {u rest} mark literal =>
    literal u mark (List.prefix_append [36,u] rest).isInfix
  fun_induction replacement found behind text with
  | case1 rest ih => exact absurd literal (here (by simp))
  | case2 rest ih => exact absurd literal (here (by simp))
  | case3 rest ih => exact absurd literal (here (by simp))
  | case4 rest ih => exact absurd literal (here (by simp))
  | case5 u rest _ _ _ _ ih =>
    rw [ih fun v mark within => literal v mark (within.trans (List.suffix_cons u rest).isInfix)]
  | case6 => rfl

theorem substitute_literal (literal : Literal directory) :
    substitute lead directory value = atLead lead directory value := by
  rw [substitute, atLead, replacement_literal literal]

theorem resolve_absolute (value : JsString) :
    resolve cwd.names (absolutePath cwd value) = resolve cwd.names value := by
  rw [absolutePath]
  split_ifs with absolute
  · rfl
  · exact resolve_within cwd.named absolute

theorem expand_loaderName (process : Literal (dirname executable)) (literal : Literal (dirname image))
    (value : JsString) : expand cwd.names executable image value =
      render (resolve cwd.names (loaderName cwd executable image value)) := by
  rw [expand, substitute_literal process, substitute_literal literal, loaderName, resolve_absolute]

end Names

section Runs

variable {executable image target install : JsString} {rpaths runs : List JsString}
  {commands : LoadCommands}

/-- The adapter knows the run paths of the loader, without their dots. -/
def Same (cwd : Folder) (rpaths runs : List JsString) : Prop :=
  ∀ path, path ∈ rpaths ↔ ∃ run ∈ runs, path = render (resolve cwd.names run)

theorem same_own (process : Literal (dirname executable)) (literal : Literal (dirname image))
    (own : List JsString) : Same cwd (own.map (expand cwd.names executable image))
      (own.map (loaderName cwd executable image)) := by
  intro path
  simp only [List.mem_map, expand_loaderName process literal]
  constructor
  · rintro ⟨value,member,rfl⟩
    exact ⟨_,⟨value,member,rfl⟩,rfl⟩
  · rintro ⟨_,⟨value,member,rfl⟩,rfl⟩
    exact ⟨value,member,rfl⟩

theorem same_append {own tail ownRuns tailRuns : List JsString} (first : Same cwd own ownRuns)
    (second : Same cwd tail tailRuns) :
    Same cwd (own ++ tail).eraseDups (ownRuns ++ tailRuns) := by
  intro path
  rw [List.mem_eraseDups, List.mem_append, first path, second path]
  simp only [List.mem_append]
  constructor
  · rintro (⟨run,member,same⟩ | ⟨run,member,same⟩)
    · exact ⟨run,.inl member,same⟩
    · exact ⟨run,.inr member,same⟩
  · rintro ⟨run,member | member,same⟩
    · exact .inl ⟨run,member,same⟩
    · exact .inr ⟨run,member,same⟩

/-- The candidates of the adapter and the paths of the loader denote the same files. -/
theorem candidates_iff (same : Same cwd rpaths runs) (process : Literal (dirname executable))
    (literal : Literal (dirname image)) (lexical : Lexical m cwd executable image runs commands)
    (member : install ∈ commands.dependencies) (own : system install = false) (file : JsString) :
    (∃ p ∈ candidates cwd.names image executable rpaths install, m.canonical p = .ok file) ↔
      ∃ q ∈ loaderPaths cwd executable image runs install, m.canonical q = .ok file := by
  rw [candidates, loaderPaths]
  by_cases rpath : rpathLead.isPrefixOf install = true
  · rw [if_pos rpath, if_pos rpath]
    have each := lexical.run install member own rpath
    constructor
    · rintro ⟨p,among,known⟩
      have ⟨root,at_root,joined⟩ := List.mem_map.mp among
      have ⟨run,at_run,rendered⟩ := (same root).mp at_root
      refine ⟨_,List.mem_map_of_mem at_run,?_⟩
      rw [← each run at_run, ← rendered, joined]
      exact known
    · rintro ⟨q,among,known⟩
      have ⟨run,at_run,joined⟩ := List.mem_map.mp among
      refine ⟨_,List.mem_map_of_mem ((same _).mpr ⟨run,at_run,rfl⟩),?_⟩
      rw [each run at_run, joined]
      exact known
  · rw [if_neg rpath, if_neg rpath]
    have direct := lexical.direct install member own (Bool.eq_false_iff.mpr rpath)
    simp only [List.mem_singleton, exists_eq_left, expand_loaderName process literal, direct]

theorem firstFile_some {paths : List JsString} (taken : firstFile m paths = some target) :
    ∃ p ∈ paths, m.canonical p = .ok target := by
  have ⟨p,member,known⟩ := List.exists_of_findSome?_eq_some taken
  refine ⟨p,member,?_⟩
  cases read : m.canonical p with
  | error fault => simp [read, Except.toOption] at known
  | ok file => simpa [read, Except.toOption] using known

end Runs

section Completeness

variable {executable start image target install : JsString} {rpaths runs : List JsString}
  {commands launcher : LoadCommands} {memory : Memory Context ToolRoot}

theorem word_long {head : List UInt8} (binary : word head ∈ machoMagic) : 4 ≤ head.length := by
  by_contra short
  have aligned : word head % 256 = 0 := by
    match head with
    | [] => rfl
    | [a] => simp [word]
    | [a,b] => simp [word]
    | [a,b,c] => simp [word]
    | _ :: _ :: _ :: _ :: _ => exact absurd (by simp) short
  have odd : ∀ n ∈ machoMagic, n % 256 ≠ 0 := by decide
  exact odd _ binary aligned

theorem executableOf_image (process : IsImage m executable launcher) :
    executableOf m target executable = .ok executable := by
  have ⟨_,head,read,binary⟩ := process
  rw [executableOf]
  split_ifs with same
  · rw [same]
    rfl
  · rw [processImage, read]
    show (if 4 ≤ head.length ∧ word head ∈ machoMagic then _ else _) = _
    rw [if_pos ⟨word_long binary,binary⟩]
    rfl

theorem loads_process (loaded : Loads m cwd executable start image runs) :
    ∃ launcher, IsImage m executable launcher := by
  induction loaded with
  | start _ process => exact ⟨_,process⟩
  | library _ _ _ _ _ _ _ ih => exact ih

/-- The image has been inspected with the run paths of the loader. -/
structure Inspected (m : Machine) (cwd : Folder) (executable : JsString)
    (memory : Memory Context ToolRoot) (image : JsString) (runs rpaths : List JsString) : Prop where
  visited : .load image executable rpaths ∈ memory.visited
  same : Same cwd rpaths runs
  launcher : ∀ commands, m.commands executable = .ok commands →
    ∀ value ∈ commands.rpaths, loaderName cwd executable executable value ∈ runs

theorem loads_start (plain : Plain m cwd executable start)
    (closed : Closed (graph m cwd.names) memory)
    (known : .input start target [] ∈ memory.visited)
    (launched : executableOf m start target = .ok executable) (image : IsImage m start commands)
    (process : IsImage m executable launcher) :
    ∃ rpaths, Inspected m cwd executable memory start
      (commands.rpaths.map (loaderName cwd executable start) ++
        if start = executable then []
        else launcher.rpaths.map (loaderName cwd executable executable)) rpaths := by
  have literal := plain.literal start _ (.start image process)
  have settled := closed _ known
  obtain ⟨head,read,binary,_⟩ := settled.passes
  obtain ⟨listed,head',read',magic⟩ := image
  cases read.symm.trans read'
  obtain ⟨⟨executable',commands',rpaths⟩,launch⟩ := binary magic
  have visited := settled.follows _ (.launch read magic launch)
  obtain ⟨_,same,launch⟩ := (bind_ok _ _ _).mp launch
  cases launched.symm.trans same
  obtain ⟨_,same,launch⟩ := (bind_ok _ _ _).mp launch
  cases listed.symm.trans same
  obtain ⟨tail,behind,launch⟩ := (bind_ok _ _ _).mp launch
  cases (pure_ok _ _).mp launch
  refine ⟨_,visited,same_append (same_own plain.process literal _) ?_,?_⟩
  · rw [tailOf] at behind
    by_cases own : start = executable
    · rw [if_pos (.inr own)] at behind
      rw [if_pos own, ← (pure_ok _ _).mp behind]
      intro path
      simp
    · rw [if_neg (by simpa using own)] at behind
      obtain ⟨_,same,behind⟩ := (bind_ok _ _ _).mp behind
      cases process.1.symm.trans same
      rw [if_neg own, ← (pure_ok _ _).mp behind]
      exact same_own plain.process plain.process _
  · intro other same value member
    cases process.1.symm.trans same
    by_cases own : start = executable
    · subst own
      cases listed.symm.trans same
      exact List.mem_append_left _ (List.mem_map_of_mem member)
    · rw [if_neg own]
      exact List.mem_append_right _ (List.mem_map_of_mem member)

/-- A name of an inspected image is the library that the loader takes. -/
theorem name_resolved (plain : Plain m cwd executable start)
    (closed : Closed (graph m cwd.names) memory)
    (loaded : Loads m cwd executable start image runs)
    (inspected : Inspected m cwd executable memory image runs rpaths)
    (read : m.commands image = .ok commands) (member : install ∈ commands.dependencies)
    (own : system install = false) :
    ∃ target, libraryOf m cwd.names image executable rpaths install = .ok target ∧ ∀ file,
      (∃ q ∈ loaderPaths cwd executable image runs install, m.canonical q = .ok file) ↔
        file = target := by
  have ⟨other,read',resolves⟩ := (closed _ inspected.visited).passes
  cases read.symm.trans read'
  have ⟨target,found⟩ := resolves install member own
  refine ⟨target,found,fun file => ?_⟩
  rw [← candidates_iff inspected.same plain.process (plain.literal _ _ loaded)
    (plain.lexical _ _ _ loaded read) member own]
  exact libraryOf_ok found file

theorem loads_library (plain : Plain m cwd executable start)
    (closed : Closed (graph m cwd.names) memory)
    (loaded : Loads m cwd executable start image runs)
    (inspected : Inspected m cwd executable memory image runs rpaths)
    (read : m.commands image = .ok commands) (member : install ∈ commands.dependencies)
    (own : system install = false)
    (taken : firstFile m (loaderPaths cwd executable image runs install) = some target)
    (outside : system target = false) {library : LoadCommands} (binary : IsImage m target library) :
    ∃ rpaths, Inspected m cwd executable memory target
      (library.rpaths.map (loaderName cwd executable target) ++ runs) rpaths := by
  obtain ⟨other,found,denotes⟩ := name_resolved plain closed loaded inspected read member own
  cases (denotes target).mp (firstFile_some taken)
  have literal := plain.literal target _ (.library loaded read member own taken outside binary)
  have known := (closed _ inspected.visited).follows _ (.library read member own found outside)
  have settled := closed _ known
  obtain ⟨head,opened,launches,_⟩ := settled.passes
  obtain ⟨listed,head',opened',magic⟩ := binary
  cases opened.symm.trans opened'
  obtain ⟨⟨executable',commands',rpaths'⟩,launch⟩ := launches magic
  have visited := settled.follows _ (.launch opened magic launch)
  obtain ⟨launcher,process⟩ := loads_process loaded
  obtain ⟨_,same,launch⟩ := (bind_ok _ _ _).mp launch
  cases (executableOf_image process).symm.trans same
  obtain ⟨_,same,launch⟩ := (bind_ok _ _ _).mp launch
  cases listed.symm.trans same
  obtain ⟨tail,behind,launch⟩ := (bind_ok _ _ _).mp launch
  cases (pure_ok _ _).mp launch
  have kept : tail = rpaths := by
    rw [tailOf] at behind
    split_ifs at behind with given
    · exact ((pure_ok _ _).mp behind).symm
    · -- No run paths led here, so the process image has none.
      have empty : rpaths = [] := by
        by_contra full
        exact given (.inl full)
      obtain ⟨_,same,behind⟩ := (bind_ok _ _ _).mp behind
      cases process.1.symm.trans same
      have barren : runs = [] := by
        refine List.eq_nil_iff_forall_not_mem.mpr fun run member => ?_
        have path := (inspected.same _).mpr ⟨run,member,rfl⟩
        rw [empty] at path
        cases path
      have plain_launcher : launcher.rpaths = [] := by
        refine List.eq_nil_iff_forall_not_mem.mpr fun value member => ?_
        have path := inspected.launcher _ process.1 value member
        rw [barren] at path
        cases path
      rw [← (pure_ok _ _).mp behind, plain_launcher, empty]
      rfl
  subst kept
  exact ⟨_,visited,same_append (same_own plain.process literal _) inspected.same,
    fun commands same value member =>
      List.mem_append_right _ (inspected.launcher commands same value member)⟩

/-- Every image that the loader takes has been inspected. -/
theorem loads_inspected (plain : Plain m cwd executable start)
    (closed : Closed (graph m cwd.names) memory)
    (known : .input start target [] ∈ memory.visited)
    (launched : executableOf m start target = .ok executable)
    (loaded : Loads m cwd executable start image runs) :
    ∃ rpaths, Inspected m cwd executable memory image runs rpaths := by
  induction loaded with
  | start image process => exact loads_start plain closed known launched image process
  | library loaded read member own taken outside binary ih =>
    have ⟨rpaths,inspected⟩ := ih
    exact loads_library plain closed loaded inspected read member own taken outside binary

end Completeness

section Runs

variable {subjects : List JsString} {st st' : State} {depth : ℕ}

/-- The context of a root of the worklist. -/
structure Begins (m : Machine) (subjects : List JsString) (root : ToolRoot)
    (real target : JsString) : Prop where
  driver : (units "drivers/").isPrefixOf root.label = true
  file : m.canonical root.path = .ok real
  process : executableTarget m (launcherOf subjects root.path) = .ok target

theorem Begins.unique {root : ToolRoot} {real target real' target' : JsString}
    (first : Begins m subjects root real target) (second : Begins m subjects root real' target') :
    real = real' ∧ target = target' :=
  ⟨Except.ok.inj (first.file.symm.trans second.file),
    Except.ok.inj (first.process.symm.trans second.process)⟩

/-- The state of the worklist: the roots before the index have been inspected. -/
structure Worklist (m : Machine) (cwd : Folder) (subjects : List JsString) (roots : List ToolRoot)
    (st : State) (index : ℕ) : Prop where
  tooled : Tooled m st
  closed : Closed (graph m cwd.names) st.memory
  kept : roots <+: st.memory.found
  inspected : ∀ i < index, ∀ root, st.memory.found[i]? = some root →
    (units "drivers/").isPrefixOf root.label = true →
      ∃ real target, Begins m subjects root real target ∧
        .input real target [] ∈ st.memory.visited
  emitted : ∀ root ∈ st.memory.found, root ∉ roots → ∃ origin ∈ st.memory.found,
    ∃ real target k, Begins m subjects origin real target ∧
      ReflTransGen (Follows m cwd.names) (.input real target []) k ∧ Emits m cwd.names k root

variable {roots : List ToolRoot} {index : ℕ} {input : ToolRoot}

def initial (roots : List ToolRoot) : State := ⟨⟨[],roots⟩,false⟩

theorem worklist_start : Worklist m cwd subjects roots (initial roots) 0 where
  tooled selected := nomatch selected
  closed _ known := nomatch known
  kept := List.prefix_rfl
  inspected _ before := absurd before (Nat.not_lt_zero _)
  emitted _ known fresh := absurd known fresh

theorem kept_at {before after : List ToolRoot} {root : ToolRoot} {i : ℕ} (kept : before <+: after)
    (inside : i < before.length) (there : after[i]? = some root) : before[i]? = some root := by
  have ⟨more,same⟩ := kept
  rw [← same, List.getElem?_append_left inside] at there
  exact there

theorem worklist_part (work : Worklist m cwd subjects roots st index)
    (at_index : st.memory.found[index]? = some input) {real target : JsString}
    (begins : Begins m subjects input real target)
    (part : Part m cwd.names (.input real target []) st st')
    (visited : .input real target [] ∈ st'.memory.visited) :
    Worklist m cwd subjects roots st' (index + 1) where
  tooled := part.tooled
  closed := part.extends_.closed work.closed
  kept := work.kept.trans part.extends_.kept
  inspected i early root there driver := by
    have inside : i < st.memory.found.length := by
      have := (List.getElem?_eq_some_iff.mp at_index).1
      omega
    have there := kept_at part.extends_.kept inside there
    by_cases now : i = index
    · subst now
      cases at_index.symm.trans there
      exact ⟨real,target,begins,visited⟩
    · have ⟨real',target',begins',visited'⟩ := work.inspected i (by omega) root there driver
      exact ⟨real',target',begins',part.extends_.visited visited'⟩
  emitted root known fresh := by
    by_cases early : root ∈ st.memory.found
    · have ⟨origin,at_origin,rest⟩ := work.emitted root early fresh
      exact ⟨origin,part.extends_.found at_origin,rest⟩
    · have ⟨k,way,emits⟩ := part.extends_.emitted root known early
      exact ⟨input,part.extends_.found (List.mem_of_getElem? at_index),real,target,k,begins,way,emits⟩

theorem worklist_step (work : Worklist m cwd subjects roots st index)
    (at_index : st.memory.found[index]? = some input)
    (accepted : inspectRoot m cwd.names subjects depth st input = .ok st') :
    Worklist m cwd subjects roots st' (index + 1) := by
  rw [inspectRoot] at accepted
  by_cases driver : (units "drivers/").isPrefixOf input.label = true
  · rw [if_pos driver] at accepted
    obtain ⟨real,target,called⟩ := inspect_spec depth _ _ _ _ _ work.tooled accepted
    exact worklist_part work at_index ⟨driver,called.file,called.executable⟩ called.part
      called.visited
  · rw [if_neg driver] at accepted
    cases (pure_ok _ _).mp accepted
    refine ⟨work.tooled,work.closed,work.kept,fun i early root there label => ?_,work.emitted⟩
    by_cases now : i = index
    · subst now
      cases at_index.symm.trans there
      exact absurd label driver
    · exact work.inspected i (by omega) root there label

/-- The worklist ends with every root inspected. -/
theorem worklist_run {steps : ℕ} (work : Worklist m cwd subjects roots st index)
    (accepted : discover m cwd.names subjects depth steps index st = .ok st') :
    ∃ last, Worklist m cwd subjects roots st' last ∧ st'.memory.found.length ≤ last := by
  induction steps generalizing index st with
  | zero => cases accepted
  | succ steps ih =>
    rw [discover] at accepted
    cases at_index : st.memory.found[index]? with
    | none =>
      rw [at_index] at accepted
      cases (pure_ok _ _).mp accepted
      exact ⟨index,work,List.getElem?_eq_none_iff.mp at_index⟩
    | some input =>
      rw [at_index] at accepted
      obtain ⟨mid,first,rest⟩ := (bind_ok _ _ _).mp accepted
      exact ih (worklist_step work at_index first) rest

/-- What the loader takes from a start image on is among the roots, and every name denotes one
file. -/
structure Found (m : Machine) (cwd : Folder) (executable start : JsString)
    (memory : Memory Context ToolRoot) : Prop where
  library : ∀ image runs commands install target, Loads m cwd executable start image runs →
    m.commands image = .ok commands → install ∈ commands.dependencies → system install = false →
    firstFile m (loaderPaths cwd executable image runs install) = some target →
    system target = false → ∃ root ∈ memory.found, root.path = target
  single : ∀ image runs commands install, Loads m cwd executable start image runs →
    m.commands image = .ok commands → install ∈ commands.dependencies → system install = false →
    ∃ target, ∀ file, (∃ q ∈ loaderPaths cwd executable image runs install,
      m.canonical q = .ok file) ↔ file = target

theorem found_loads {executable start target : JsString} {memory : Memory Context ToolRoot}
    (plain : Plain m cwd executable start) (closed : Closed (graph m cwd.names) memory)
    (known : .input start target [] ∈ memory.visited)
    (launched : executableOf m start target = .ok executable) :
    Found m cwd executable start memory where
  library image runs commands install target loaded read member own taken outside := by
    have ⟨rpaths,inspected⟩ := loads_inspected plain closed known launched loaded
    have ⟨other,found,denotes⟩ := name_resolved plain closed loaded inspected read member own
    cases (denotes target).mp (firstFile_some taken)
    exact ⟨_,(closed _ inspected.visited).emits _ (.library read member own found outside),rfl⟩
  single image runs commands install loaded read member own := by
    have ⟨rpaths,inspected⟩ := loads_inspected plain closed known launched loaded
    have ⟨target,_,denotes⟩ := name_resolved plain closed loaded inspected read member own
    exact ⟨target,denotes⟩

end Runs

section Samples

/-- A system whose files are images and their own paths. -/
def imagesOf (files : List JsString) (absolute : ∀ f ∈ files, f.head? = some slash)
    (commands : JsString → LoadCommands) : Machine where
  files := files
  canonical p := if p ∈ files then .ok p else .error .absent
  head _ := .ok [0xfe,0xed,0xfa,0xcf]
  commands f := .ok (commands f)
  resolveCommand p := if p ∈ files then .ok p else .error .absent
  otool := .ok []
  canonical_mem p f known := by
    split_ifs at known with member
    exact Except.ok.inj known ▸ member
  canonical_file f member := if_pos member
  resolveCommand_mem p f known := by
    split_ifs at known with member
    exact Except.ok.inj known ▸ member
  absolute := absolute

theorem image_of {files : List JsString} {absolute : ∀ f ∈ files, f.head? = some slash}
    {commands : JsString → LoadCommands} (f : JsString) :
    IsImage (imagesOf files absolute commands) f (commands f) :=
  ⟨rfl,_,rfl,by decide⟩

theorem no_names : ∀ name ∈ ([] : List JsString), IsName name := by simp

def sampleRoot : Folder := ⟨[],no_names⟩

/-- A tool that names a library beside it. -/
def plainMachine : Machine :=
  imagesOf [units "/u/t",units "/u/x.dylib"] (by decide) (fun f =>
    if f = units "/u/t" then ⟨[units "@loader_path/x.dylib"],[]⟩ else ⟨[],[]⟩)

theorem plainMachine_loads {image : JsString} {runs : List JsString}
    (loaded : Loads plainMachine sampleRoot (units "/u/t") (units "/u/t") image runs) :
    image = units "/u/t" ∨ image = units "/u/x.dylib" := by
  cases loaded with
  | start _ _ => exact .inl rfl
  | library _ _ _ _ taken _ _ =>
    have ⟨p,_,known⟩ := firstFile_some taken
    simpa [plainMachine, imagesOf] using plainMachine.canonical_mem p image known

theorem plainMachine_plain : Plain plainMachine sampleRoot (units "/u/t") (units "/u/t") where
  process := literal_bare (by decide)
  literal image runs loaded := by
    rcases plainMachine_loads loaded with same | same
    · subst same
      exact literal_bare (by decide)
    · subst same
      exact literal_bare (by decide)
  lexical image runs commands loaded read := by
    rcases plainMachine_loads loaded with same | same
    · subst same
      cases read
      constructor
      · intro install member _ rpath
        cases List.mem_singleton.mp member
        exact absurd rpath (by decide)
      · intro install member _ _
        cases List.mem_singleton.mp member
        rfl
    · subst same
      cases read
      exact ⟨nofun,nofun⟩

/-- A directory with two dollar signs in its name, beside one with a single one. -/
def dollarMachine : Machine :=
  imagesOf [units "/a$$b/t",units "/a$$b/x.dylib",units "/a$b/x.dylib"] (by decide) (fun f =>
    if f = units "/a$$b/t" then ⟨[units "@loader_path/x.dylib"],[]⟩ else ⟨[],[]⟩)

def dollarRoot : ToolRoot := ⟨units "drivers/t",units "/a$$b/t"⟩

def dollarLibrary : ToolRoot :=
  ⟨units "non-system-libraries/%40loader_path%2Fx.dylib",units "/a$b/x.dylib"⟩

theorem dollar_discovery : ∃ st, discover dollarMachine [] [] 9 9 0 (initial [dollarRoot]) = .ok st ∧
    st.memory.found = [dollarRoot,dollarLibrary] := ⟨_,rfl,rfl⟩

end Samples

end NativeDiscovery

end EvidenceV4
