import EvidenceV4.PolicyExpansion
import EvidenceV4.SourceSelection
import Mathlib.Logic.Equiv.List
import Mathlib.Tactic.DeriveEncodable

/-!
# Keys of materialized descriptors

A descriptor binds a reviewed recipe to the environment, the tools, the build
cache and the source files it runs on, and its digest is the key under which old
evidence is found again. Among clean input states the key distinguishes exactly
what the recipe depends on: the policy of verified inputs, the inventory of all
files, and the content of the files in the closure.
-/

set_option autoImplicit false

namespace EvidenceV4

inductive ToolFileKind where
  | file | directory | symlinkFile | symlinkDirectory
  deriving DecidableEq

structure ToolVersion where
  command : List String
  cwd : String
  text : String
  deriving DecidableEq

structure ToolProbe where
  command : List String
  exitCode : ℤ
  deriving DecidableEq

structure SystemPlatform where
  os : String
  arch : String
  release : String
  deriving DecidableEq

/-- The rest of a tool identity as far as a descriptor compares it; the producer's own locator is
`none`. -/
structure ToolDetails where
  kind : ToolKind
  locator : Option Locator
  digest : Hash
  files : List (String × ToolFileKind)
  version : Option ToolVersion
  discovery : List ToolProbe
  system : SystemPlatform
  deriving DecidableEq

/-- What the content of an identity says, and the digest of an environment literal. -/
structure Contents where
  tool : String → ToolDetails
  platform : String → SystemPlatform
  configuration : String → List PathHash
  literal : String → Hash

namespace DescriptorKey

open CheckedExcept PolicyExpansion SourceSelection
open PolicyDocument (mapGet declarations)
open Schema (utf8Compare utf8Bytes Ascending)

variable (D : Digests) (contents : Contents)

/-- The tools that a tool requires, added below what is already included. -/
def includeTool (tools : List ToolDeclaration) : ℕ → List ID → ID → Except String (List ID)
  | 0, _, id => throw ("unknown descriptor tool " ++ id)
  | fuel+1, ids, id =>
    if id ∈ ids then pure ids
    else match mapGet (declarations tools) id with
      | none => throw ("unknown descriptor tool " ++ id)
      | some declaration => declaration.requires.foldlM (includeTool tools fuel) (ids ++ [id])

def reviewedExpansion (loaded : LoadedPolicy) (recipe : Recipe) (distinct : Option DistinctSlot) :
    Except String ExpandedExecution := do
  let plan ← expandPolicy loaded.policy
  match plan.executions.find?
      (fun e => e.recipe.recipeId = recipe.recipeId ∧ e.distinct = distinct) with
  | none => throw "descriptor recipe/distinct slot is not reviewed expansion"
  | some expansion => do
    check (expansion.recipe = recipe) "descriptor recipe/distinct slot is not reviewed expansion"
    pure expansion

def identityOf (toolchains : List ToolIdentity) (id : ID) : Except String ToolIdentity :=
  match mapGet (toolchains.map (fun t => (t.id,t))) id with
  | none => throw ("missing descriptor tool identity: " ++ id)
  | some identity => pure identity

def descriptorToolchain (loaded : LoadedPolicy) (recipe : Recipe)
    (toolchains : List ToolIdentity) : Except String (List ToolIdentity) := do
  let tools := loaded.policy.toolchains
  let ids ← recipe.toolchain.foldlM (includeTool tools (tools.length+1)) ["fv-producer"]
  check (toolchains.map ToolIdentity.id).Nodup "duplicate available tool identity"
  (ids.insertionSort (fun a b => utf8Compare a b != .gt)).mapM (identityOf toolchains)

def configurationBindings (input : InputState) (recipe : Recipe) : List (String × Option Hash) :=
  (configuration recipe).map (fun path =>
    (path,mapGet (input.files.map (fun file => (file.path,file.hash))) path))

def checkBuildCache (input : InputState) (recipe : Recipe)
    (buildCache : Option BuildCacheIdentity) : Except String Unit := do
  check (recipe.buildCache.map BuildCache.system = buildCache.map BuildCacheIdentity.system)
    "descriptor build-cache selection mismatch"
  match buildCache with
  | none => pure ()
  | some cache =>
    check (configurationBindings input recipe =
        (contents.configuration cache.content).map (fun file => (file.path,some file.hash)))
      "build-cache configuration binding mismatch"

def validateEnvironmentBinding (policy : Policy) (identity : EnvironmentIdentity) :
    Except String Unit := do
  StoreDocument.validateEnvironmentIdentity identity
  let system := contents.platform identity.platform
  check (∃ p ∈ policy.environment.platforms, p.os = system.os ∧ p.arch = system.arch)
    "environment platform is not reviewed"
  check (identity.entries.map EnvironmentVariable.name = policy.environment.identity)
    "environment variable set differs from policy"
  forM policy.environment.set (fun (entry : String × String) =>
    check (∃ bound ∈ mapGet (identity.entries.map (fun e => (e.name,e))) entry.1,
        bound.present ∧ bound.valueHash = some (contents.literal entry.2))
      ("environment literal hash mismatch: " ++ entry.1))

def libraryPrefix : String := "native/non-system-libraries/"

def rustupDrivers : List (String × String) :=
  [("native/drivers/cargo-0","cargo"),("native/drivers/rustc-0","rustc")]

def isLibrary (relative : String) : Bool :=
  libraryPrefix.toList.isPrefixOf relative.toList &&
    !((relative.toList.drop libraryPrefix.length).contains '/')

/-- `path.basename` on a POSIX host. -/
def basename (path : String) : String :=
  String.ofList (((path.toList.splitOn '/').filter (fun part => part != [])).getLastD [])

def rustupProbe (name : String) (probe : ToolProbe) : Prop :=
  ∃ command, probe.command = [command,"which",name] ∧ basename command = "rustup" ∧
    probe.exitCode = 0

instance (name : String) (probe : ToolProbe) : Decidable (rustupProbe name probe) :=
  match h : probe.command with
  | [command,_,_] => decidable_of_iff
      (probe.command = [command,"which",name] ∧ basename command = "rustup" ∧ probe.exitCode = 0)
      ⟨fun e => ⟨command,e⟩,fun ⟨c,e⟩ => by
        obtain rfl : command = c := (List.cons.inj (h.symm.trans e.1)).1
        exact e⟩
  | [] => isFalse fun ⟨_,e⟩ => by simp [h] at e
  | [_] => isFalse fun ⟨_,e⟩ => by simp [h] at e
  | [_,_] => isFalse fun ⟨_,e⟩ => by simp [h] at e
  | _ :: _ :: _ :: _ :: _ => isFalse fun ⟨_,e⟩ => by simp [h] at e

def shapeOk (details : ToolDetails) : Bool :=
  details.files.all (fun file =>
    if file.1 ∈ ["native","native/non-system-libraries","native/drivers"] then
      file.2 == .directory
    else file.2 == .file &&
      (file.1 == "selected-file" || (rustupDrivers.map Prod.fst).contains file.1 ||
        isLibrary file.1))

def drivers (details : ToolDetails) : List String :=
  details.files.filterMap (fun file => mapGet rustupDrivers file.1)

def locatorNamesDriver (locator : Locator) (drivers : List String) : Bool :=
  match locator with
  | .command value | .path value => drivers.contains (basename value)
  | _ => false

def isAdapter : Locator → Bool
  | .adapter _ _ _ => true
  | _ => false

def derivedNativeTree (declaration : ToolDeclaration) (details : ToolDetails) : Bool :=
  if declaration.kind = .tree ∨ isAdapter declaration.locator ∨ details.kind ≠ .tree ∨
      details.system.os ≠ "darwin" then false
  else
    let selected := details.files.any (fun file => file.1 == "selected-file")
    let closure := drivers details ≠ [] ∨ details.files.any (fun file => isLibrary file.1)
    if ¬ shapeOk details ∨ ¬ selected ∨ ¬ closure then false
    else if drivers details = [] then true
    else locatorNamesDriver declaration.locator (drivers details) &&
      decide (∀ name ∈ drivers details, ∃ probe ∈ details.discovery, rustupProbe name probe)

def includesText (text part : String) : Bool :=
  text.toList.tails.any (fun rest => part.toList.isPrefixOf rest)

def checkVersion (declaration : ToolDeclaration) (id : ID) (version : Option ToolVersion) :
    Except String Unit := do
  check (declaration.versionCommand.isNone = version.isNone)
    ("tool version missing/unexpected: " ++ id)
  match version with
  | none => pure ()
  | some version =>
    check (some version.command = declaration.versionCommand ∧
        some version.cwd = declaration.versionCwd ∧
        ∀ text ∈ declaration.versionContains, includesText version.text text)
      ("tool version binding mismatch: " ++ id)

def checkTool (policy : Policy) (environment : EnvironmentIdentity) (identity : ToolIdentity) :
    Except String Unit := do
  let details := contents.tool identity.content
  check (details.system = contents.platform environment.platform)
    ("tool platform differs from environment: " ++ identity.id)
  if identity.id = "fv-producer" then pure ()
  else match mapGet (declarations policy.toolchains) identity.id with
    | none => throw ("unknown descriptor tool " ++ identity.id)
    | some declaration => do
      check ((details.kind = declaration.kind ∨ derivedNativeTree declaration details) ∧
          details.locator = some declaration.locator ∧ identity.requires = declaration.requires)
        ("tool identity differs from declaration: " ++ identity.id)
      checkVersion declaration identity.id details.version
      check (declaration.acceptSha256 = [] ∨ details.digest ∈ declaration.acceptSha256)
        ("tool digest not accepted: " ++ identity.id)

def materializeDescriptor (loaded : LoadedPolicy) (input : InputState) (recipe : Recipe)
    (distinct : Option DistinctSlot) (environment : EnvironmentIdentity)
    (toolchains : List ToolIdentity) (buildCache : Option BuildCacheIdentity) :
    Except String ExecutionDescriptor := do
  let expansion ← reviewedExpansion loaded recipe distinct
  check (input.clean = true) "dirty source cannot materialize reusable descriptor"
  let toolchain ← descriptorToolchain loaded recipe toolchains
  checkBuildCache contents input recipe buildCache
  validateEnvironmentBinding contents loaded.policy environment
  forM toolchain (checkTool contents loaded.policy environment)
  let closure ← sourceClosure D input recipe (commonBindingPaths loaded)
  let descriptor : ExecutionDescriptor :=
    { common := loaded.common, recipe := recipe, members := expansion.members
      distinctSlot := distinct, verifiedInputsPolicyHash := input.verifiedInputsPolicyHash
      inventoryHash := input.inventoryHash, closure := closure, environment := environment
      toolchain := toolchain, buildCache := buildCache }
  StoreDocument.validateExecutionDescriptor D descriptor
  pure descriptor

/-- A path whose file the closure of the recipe contains. -/
def Selected (recipe : Recipe) (commonPaths : List String) (path : String) : Prop :=
  recipe.sourceClosure.mode = .verifiedInputs ∨ recipe.sourceClosure.basis = [] ∨
    (∃ pre ∈ recipe.sourceClosure.prefixes, prefixSelects path pre) ∨
    path ∈ commonPaths ∨ path ∈ recipe.sourceClosure.basis ∨
    ∃ cache ∈ recipe.buildCache, path ∈ cache.configuration

def inventory (input : InputState) : List (String × Bool) :=
  input.files.map (fun file => (file.path,file.executable))

/-- Two input states agree on everything that the recipe depends on. -/
structure SameDependencies (recipe : Recipe) (commonPaths : List String) (a b : InputState) :
    Prop where
  policy : a.verifiedInputsPolicyHash = b.verifiedInputsPolicyHash
  inventory : ∀ path executable, (∃ file ∈ a.files, file.path = path ∧
    file.executable = executable) ↔ ∃ file ∈ b.files, file.path = path ∧
      file.executable = executable
  content : ∀ f ∈ a.files, ∀ g ∈ b.files, f.path = g.path → Selected recipe commonPaths f.path →
    f.hash = g.hash ∧ f.size = g.size

/-- Different descriptors have different keys, and different inventories different digests. -/
structure CollisionFree : Prop where
  executionKey : Function.Injective D.executionKey
  inventory : Function.Injective D.inventory

section Fuel

variable {tools : List ToolDeclaration}

theorem includeTool_grows {fuel : ℕ} {ids ids' : List ID} {name : ID}
    (h : includeTool tools fuel ids name = .ok ids') : ids ⊆ ids' := by
  induction fuel generalizing ids ids' name with
  | zero => simp [includeTool] at h
  | succ fuel ih =>
    rw [includeTool] at h
    split at h
    · rw [pure_ok] at h
      exact h ▸ List.Subset.refl _
    · split at h
      · simp at h
      · apply foldlM_invariant (fun s => ids ⊆ s) _ _ _ _ _ (List.subset_append_left _ _) h
        intro s x s' hs step
        exact List.Subset.trans hs (ih step)

/-- The declared tools that are not yet included. -/
def remaining (tools : List ToolDeclaration) (ids : List ID) : ℕ :=
  ((tools.map ToolDeclaration.id).filter (fun name => name ∉ ids)).length

theorem remaining_mono {ids ids' : List ID} (h : ids ⊆ ids') :
    remaining tools ids' ≤ remaining tools ids := by
  apply List.Sublist.length_le
  apply List.monotone_filter_right
  intro name
  simpa using fun absent here => absent (h here)

theorem remaining_lt {ids : List ID} {added : ID} {declaration : ToolDeclaration}
    (absent : added ∉ ids) (h : mapGet (declarations tools) added = some declaration) :
    remaining tools (ids ++ [added]) < remaining tools ids := by
  have found := PolicyDocument.mapGet_mem h
  simp only [declarations, List.mem_map, Prod.mk.injEq] at found
  obtain ⟨tool,member,named,-⟩ := found
  have declared : added ∈ (tools.map ToolDeclaration.id).filter (fun name => name ∉ ids) := by
    simp only [List.mem_filter, List.mem_map, decide_eq_true_eq]
    exact ⟨⟨tool,member,named⟩,absent⟩
  have split : (tools.map ToolDeclaration.id).filter (fun name => name ∉ ids ++ [added]) =
      ((tools.map ToolDeclaration.id).filter (fun name => name ∉ ids)).filter
        (fun name => name ≠ added) := by
    rw [List.filter_filter]
    apply List.filter_congr
    intro name _
    simp [and_comm]
  rw [remaining, split]
  exact List.length_filter_lt_length_iff_exists.mpr ⟨added,declared,by simp⟩

/-- More fuel than there are tools left to include changes nothing. -/
theorem includeTool_enough {fuel : ℕ} {ids : List ID} {name : ID}
    (enough : remaining tools ids < fuel) :
    includeTool tools (fuel+1) ids name = includeTool tools fuel ids name := by
  induction fuel generalizing ids name with
  | zero => omega
  | succ fuel ih =>
    rw [includeTool, includeTool]
    by_cases old : name ∈ ids
    · rw [if_pos old, if_pos old]
    · rw [if_neg old, if_neg old]
      cases found : mapGet (declarations tools) name with
      | none => rfl
      | some declaration =>
        apply foldlM_congr (fun s => ids ++ [name] ⊆ s) _ _ (List.Subset.refl _)
        · intro s x hs
          apply ih
          have smaller := remaining_lt old found
          have bound : remaining tools s ≤ remaining tools (ids ++ [name]) := remaining_mono hs
          omega
        · intro s x s' hs step
          exact List.Subset.trans hs (includeTool_grows step)

theorem includeTool_fuel {fuel : ℕ} (enough : tools.length < fuel) (ids : List ID) (name : ID) :
    includeTool tools fuel ids name = includeTool tools (tools.length+1) ids name := by
  induction fuel, enough using Nat.le_induction with
  | base => rfl
  | succ fuel enough ih =>
    rw [← ih]
    apply includeTool_enough
    have bound := List.length_filter_le (fun name => decide (name ∉ ids))
      (tools.map ToolDeclaration.id)
    rw [List.length_map] at bound
    exact Nat.lt_of_le_of_lt bound enough

end Fuel

section Keys

variable {D contents} {loaded : LoadedPolicy} {recipe : Recipe} {distinct : Option DistinctSlot}
  {environment : EnvironmentIdentity} {toolchains : List ToolIdentity}
  {buildCache : Option BuildCacheIdentity} {commonPaths : List String} {a b : InputState}

theorem mode_prefixes : closureMode recipe = .prefixes ↔
    recipe.sourceClosure.mode ≠ .verifiedInputs ∧ recipe.sourceClosure.basis ≠ [] := by
  unfold closureMode
  cases recipe.sourceClosure.mode <;> simp

theorem selected_verified (h : closureMode recipe ≠ .prefixes) (path : String) :
    Selected recipe commonPaths path := by
  rw [Ne, mode_prefixes, not_and_or, not_not, not_not] at h
  rcases h with h | h
  · exact .inl h
  · exact .inr (.inl h)

theorem selected_prefixes (h : closureMode recipe = .prefixes) (path : String) :
    Selected recipe commonPaths path ↔ path ∈ mandatoryPaths recipe commonPaths ∨
      (closurePrefixes recipe).any (prefixSelects path) := by
  have modes := mode_prefixes.mp h
  have bound : (∃ cache ∈ recipe.buildCache, path ∈ cache.configuration) ↔
      path ∈ configuration recipe := by
    unfold configuration
    cases recipe.buildCache <;> simp
  simp only [Selected, modes.1, modes.2, false_or, mandatoryPaths, closurePrefixes, h, if_true,
    List.mem_append, List.any_eq_true, bound]
  rw [or_comm, or_assoc, or_assoc, or_assoc, or_assoc]

theorem mem_closureFiles {file : SourceFile} : file ∈ closureFiles a recipe commonPaths ↔
    file ∈ a.files ∧ Selected recipe commonPaths file.path := by
  by_cases h : closureMode recipe = .prefixes
  · have other : closureMode recipe ≠ .verifiedInputs := by rw [h]; decide
    rw [closureFiles, if_neg other, List.mem_filter, decide_eq_true_eq, selected_prefixes h]
  · have verified : closureMode recipe = .verifiedInputs := by
      cases m : closureMode recipe with
      | prefixes => exact absurd m h
      | verifiedInputs => rfl
    rw [closureFiles, if_pos verified]
    exact (and_iff_left (selected_verified h _)).symm

theorem materialize_congr (clean : a.clean = b.clean)
    (policy : a.verifiedInputsPolicyHash = b.verifiedInputsPolicyHash)
    (inventory : a.inventoryHash = b.inventoryHash)
    (bindings : configurationBindings a recipe = configurationBindings b recipe)
    (files : closureFiles a recipe (commonBindingPaths loaded) =
      closureFiles b recipe (commonBindingPaths loaded)) :
    materializeDescriptor D contents loaded a recipe distinct environment toolchains buildCache =
      materializeDescriptor D contents loaded b recipe distinct environment toolchains
        buildCache := by
  have cache : checkBuildCache contents a recipe buildCache =
      checkBuildCache contents b recipe buildCache := by
    unfold checkBuildCache
    rw [bindings]
  have closure : sourceClosure D a recipe (commonBindingPaths loaded) =
      sourceClosure D b recipe (commonBindingPaths loaded) := by
    unfold sourceClosure
    rw [files]
  unfold materializeDescriptor
  rw [clean, policy, inventory, cache, closure]

/-- What a materialized descriptor takes over from its input state. -/
theorem materialize_input {d : ExecutionDescriptor}
    (h : materializeDescriptor D contents loaded a recipe distinct environment toolchains
      buildCache = .ok d) :
    d.verifiedInputsPolicyHash = a.verifiedInputsPolicyHash ∧ d.inventoryHash = a.inventoryHash ∧
      d.closure.files = closureFiles a recipe (commonBindingPaths loaded) := by
  simp only [materializeDescriptor, sourceClosure, bind_ok, pure_ok] at h
  obtain ⟨_,_,_,_,_,_,_,_,_,_,_,_,_,⟨_,_,rfl⟩,_,_,rfl⟩ := h
  exact ⟨rfl,rfl,rfl⟩

theorem validateInputState_ok (h : StoreDocument.validateInputState D a = .ok ⟨⟩) :
    Ascending (a.files.map SourceFile.path) ∧ a.inventoryHash = D.inventory (inventory a) := by
  simp only [StoreDocument.validateInputState, bind_ok, Schema.ensure_ok, check_ok,
    exists_unit] at h
  exact ⟨h.1,h.2.1⟩

theorem inventory_pairwise (h : Ascending (a.files.map SourceFile.path)) :
    (inventory a).Pairwise (fun x y => utf8Bytes x.1 < utf8Bytes y.1) := by
  have sorted := h.pairwise
  rw [List.pairwise_map] at sorted
  rw [inventory, List.pairwise_map]
  exact sorted

/-- Ordered files with the same paths and executable bits stand at the same positions. -/
theorem inventory_eq (ha : Ascending (a.files.map SourceFile.path))
    (hb : Ascending (b.files.map SourceFile.path)) (same : ∀ path executable,
      (∃ file ∈ a.files, file.path = path ∧ file.executable = executable) ↔
        ∃ file ∈ b.files, file.path = path ∧ file.executable = executable) :
    inventory a = inventory b := by
  have distinct : ∀ {x : InputState}, Ascending (x.files.map SourceFile.path) →
      (inventory x).Nodup := by
    intro x hx
    apply (inventory_pairwise hx).imp
    intro p q order e
    exact List.lt_irrefl _ (e ▸ order)
  have perm : (inventory a).Perm (inventory b) := by
    rw [List.perm_ext_iff_of_nodup (distinct ha) (distinct hb)]
    intro entry
    simpa only [inventory, List.mem_map, Prod.ext_iff] using same entry.1 entry.2
  apply perm.eq_of_pairwise _ (inventory_pairwise ha) (inventory_pairwise hb)
  intro p q _ _ forth back
  exact absurd (List.lt_trans forth back) (List.lt_irrefl _)

def Aligned (recipe : Recipe) (commonPaths : List String) (f g : SourceFile) : Prop :=
  f.path = g.path ∧ (Selected recipe commonPaths f.path → f = g)

theorem sourceFile_ext {f g : SourceFile} (path : f.path = g.path) (hash : f.hash = g.hash)
    (size : f.size = g.size) (executable : f.executable = g.executable) : f = g := by
  cases f
  cases g
  simp_all

theorem aligned_of_same (same : SameDependencies recipe commonPaths a b)
    (inventories : inventory a = inventory b) :
    List.Forall₂ (Aligned recipe commonPaths) a.files b.files := by
  have positions : List.Forall₂ (fun f g : SourceFile =>
      (f.path,f.executable) = (g.path,g.executable)) a.files b.files := by
    rw [inventory, inventory, ← List.forall₂_eq_eq_eq, List.forall₂_map_left_iff,
      List.forall₂_map_right_iff] at inventories
    exact inventories
  rw [List.forall₂_iff_get] at positions ⊢
  apply And.intro positions.1
  intro i hi hj
  have e := Prod.mk.injEq .. ▸ positions.2 i hi hj
  apply And.intro e.1
  intro selected
  have content := same.content _ (List.get_mem _ _) _ (List.get_mem _ _) e.1 selected
  exact sourceFile_ext e.1 content.1 content.2 e.2

theorem aligned_filter (select : String → Bool) {as bs : List SourceFile}
    (aligned : List.Forall₂ (Aligned recipe commonPaths) as bs)
    (selects : ∀ path, select path → Selected recipe commonPaths path) :
    as.filter (fun file => select file.path) = bs.filter (fun file => select file.path) := by
  induction aligned with
  | nil => rfl
  | @cons f g as bs head _ ih =>
    by_cases chosen : select f.path
    · have e := head.2 (selects _ chosen)
      rw [List.filter_cons, List.filter_cons, ← e, ih]
    · have other : ¬ select g.path := head.1 ▸ chosen
      rw [List.filter_cons, List.filter_cons, if_neg chosen, if_neg other, ih]

theorem aligned_hash {path : String} {as bs : List SourceFile}
    (aligned : List.Forall₂ (Aligned recipe commonPaths) as bs)
    (selected : Selected recipe commonPaths path) :
    mapGet (as.map (fun file => (file.path,file.hash))) path =
      mapGet (bs.map (fun file => (file.path,file.hash))) path := by
  have read : ∀ files : List SourceFile,
      mapGet (files.map (fun file => (file.path,file.hash))) path =
        (files.filter (fun file => file.path = path)).reverse.head?.map SourceFile.hash := by
    intro files
    rw [← List.filter_reverse, List.head?_filter, mapGet, ← List.map_reverse, List.find?_map,
      Option.map_map]
    rfl
  have same := aligned_filter (fun other => other = path) aligned (by
    intro other h
    rw [decide_eq_true_eq] at h
    exact h ▸ selected)
  rw [read, read, same]

theorem aligned_closure {as bs : List SourceFile}
    (aligned : List.Forall₂ (Aligned recipe commonPaths) as bs)
    (all : ∀ path, Selected recipe commonPaths path) : as = bs := by
  induction aligned with
  | nil => rfl
  | cons head _ ih => rw [head.2 (all _), ih]

theorem closureFiles_eq (aligned : List.Forall₂ (Aligned recipe commonPaths) a.files b.files) :
    closureFiles a recipe commonPaths = closureFiles b recipe commonPaths := by
  by_cases h : closureMode recipe = .prefixes
  · have other : closureMode recipe ≠ .verifiedInputs := by rw [h]; decide
    rw [closureFiles, closureFiles, if_neg other, if_neg other]
    apply aligned_filter (fun path => path ∈ mandatoryPaths recipe commonPaths ∨
      (closurePrefixes recipe).any (prefixSelects path)) aligned
    intro path chosen
    rw [decide_eq_true_eq] at chosen
    exact (selected_prefixes h path).mpr chosen
  · have files := aligned_closure aligned (selected_verified h)
    rw [closureFiles, closureFiles, files]

theorem configurationBindings_eq
    (aligned : List.Forall₂ (Aligned recipe commonPaths) a.files b.files) :
    configurationBindings a recipe = configurationBindings b recipe := by
  apply List.map_congr_left
  intro path listed
  have selected : Selected recipe commonPaths path := by
    unfold configuration at listed
    cases cache : recipe.buildCache with
    | none => simp [cache] at listed
    | some bound =>
      rw [cache] at listed
      exact .inr (.inr (.inr (.inr (.inr ⟨bound,cache,listed⟩))))
  rw [aligned_hash aligned selected]

theorem sameDependencies_of_eq (hb : Ascending (b.files.map SourceFile.path))
    (policy : a.verifiedInputsPolicyHash = b.verifiedInputsPolicyHash)
    (inventories : inventory a = inventory b)
    (files : closureFiles a recipe commonPaths = closureFiles b recipe commonPaths) :
    SameDependencies recipe commonPaths a b := by
  apply SameDependencies.mk policy
  · intro path executable
    have same := congrArg (fun entries => (path,executable) ∈ entries) inventories
    simpa only [inventory, List.mem_map, Prod.mk.injEq, eq_iff_iff] using same
  · intro f hf g hg paths selected
    have kept : f ∈ closureFiles b recipe commonPaths :=
      files ▸ mem_closureFiles.mpr ⟨hf,selected⟩
    have e : f = g := List.inj_on_of_nodup_map hb.nodup (mem_closureFiles.mp kept).1 hg paths
    exact e ▸ ⟨rfl,rfl⟩

/-- A key licenses reuse exactly when everything the recipe depends on is unchanged, and the
checker selects the closure that the key was made from. -/
theorem key_dependency_scoped (free : CollisionFree D)
    (ha : StoreDocument.validateInputState D a = .ok ⟨⟩)
    (hb : StoreDocument.validateInputState D b = .ok ⟨⟩)
    (cleanA : a.clean = true) (cleanB : b.clean = true) {da : ExecutionDescriptor}
    (h : materializeDescriptor D contents loaded a recipe distinct environment toolchains
      buildCache = .ok da) :
    ((∃ db, materializeDescriptor D contents loaded b recipe distinct environment toolchains
        buildCache = .ok db ∧ D.executionKey db = D.executionKey da) ↔
      SameDependencies recipe (commonBindingPaths loaded) a b) ∧
    ∀ recipe input c, sourceClosure D input recipe (commonBindingPaths loaded) = .ok c ↔
      Checker.effectiveClosure D recipe input loaded.common = .ok c := by
  have orderedA := validateInputState_ok ha
  have orderedB := validateInputState_ok hb
  apply And.intro _ (fun recipe input c => sourceClosure_agrees D recipe input loaded c)
  constructor
  · intro ⟨db,made,keys⟩
    have e : db = da := free.executionKey keys
    have inputA := materialize_input h
    have inputB := materialize_input (e ▸ made)
    have digests : D.inventory (inventory a) = D.inventory (inventory b) := by
      rw [← orderedA.2, ← orderedB.2, ← inputA.2.1, inputB.2.1]
    exact sameDependencies_of_eq orderedB.1 (inputA.1.symm.trans inputB.1)
      (free.inventory digests) (inputA.2.2.symm.trans inputB.2.2)
  · intro same
    have inventories := inventory_eq orderedA.1 orderedB.1 same.inventory
    have aligned := aligned_of_same same inventories
    have digests : a.inventoryHash = b.inventoryHash := by
      rw [orderedA.2, orderedB.2, inventories]
    have made : materializeDescriptor D contents loaded b recipe distinct environment toolchains
        buildCache = .ok da := by
      rw [← materialize_congr (cleanA.trans cleanB.symm) same.policy digests
        (configurationBindings_eq aligned) (closureFiles_eq aligned), h]
    exact ⟨da,made,rfl⟩

end Keys

section Samples

instance encodableChar : Encodable Char := Encodable.ofLeftInverse Char.toNat Char.ofNat Char.ofNat_toNat

instance encodableString : Encodable String :=
  Encodable.ofLeftInverse String.toList String.ofList (fun _ => String.ofList_toList)

deriving instance Encodable for Member, DistinctSlot, EvidenceClass, DeterminismMode,
  ClosureMode, SourceClosure, Bounds, CacheSystem, BuildCache, ObservationBinding, Recipe,
  SourceFile, UnsignedClosure, Closure, EnvironmentVariable, EnvironmentIdentity,
  BuildCacheIdentity, ToolIdentity, PathHash, CommonBindings, ExecutionDescriptor

/-- A digest without collisions writes down the code of the value in strokes. -/
def strokes {α : Type} [Encodable α] (value : α) : Hash :=
  String.ofList (List.replicate (Encodable.encode value) '1')

theorem strokes_injective {α : Type} [Encodable α] :
    Function.Injective (strokes : α → Hash) := by
  intro x y h
  have lengths := congrArg (fun text : String => text.toList.length) h
  simp only [strokes, String.toList_ofList, List.length_replicate] at lengths
  exact Encodable.encode_injective lengths

def strokeDigests : Digests where
  bytes b := toString b.spelling
  size _ := 1
  historyEvent u := "event-" ++ toString u.sequence
  executionKey := strokes
  executionArtifact u := "artifact-" ++ u.attemptId
  claimRecord u := "record-" ++ u.claimId
  inventory := strokes
  sourceSnapshot files := joinNames (files.map Prod.snd)
  sourceClosure u := joinNames (u.files.map SourceFile.hash)
  producerImplementation files := joinNames (files.map Prod.snd)
  validToolIdentity _ := true
  validStreams _ _ _ _ := true

theorem strokeDigests_free : CollisionFree strokeDigests :=
  ⟨strokes_injective,strokes_injective⟩

/-- A recipe that depends on one directory, reviewed in one document. -/
def scopedRecipe : Recipe :=
  { PolicyDocument.sampleRecipe "model" .fixed with
    sourceClosure := ⟨.prefixes,["model/"],["basis.md"]⟩ }

def scopedPolicy : LoadedPolicy where
  policy := samplePolicy [scopedRecipe] [sampleSlot "s1" "model" "t1"]
  path := "policy.json"
  manifestPath := "obligations.json"
  common := ⟨"policy.json","policy","intent.md","intent","obligations.json","manifest",[],none,
    ["claim"]⟩
  policyPath_eq := rfl
  intentPath_eq := rfl
  manifestPath_eq := rfl
  definitionFiles_eq := rfl

/-- Only `notes.md` lies outside the closure. -/
def scopedInput (notes : Hash) : InputState :=
  let files : List SourceFile :=
    [⟨"basis.md","basis",1,false⟩,⟨"intent.md","intent",1,false⟩,⟨"model/Main","main",1,false⟩,
      ⟨"notes.md",notes,1,false⟩,⟨"obligations.json","manifest",1,false⟩,
      ⟨"policy.json","policy",1,false⟩]
  { verifiedInputsPolicyHash := "inputs"
    inventoryHash := strokes (files.map (fun file => (file.path,file.executable)))
    sourceSnapshot := joinNames (files.map SourceFile.hash)
    clean := true, files := files }

def scopedContents : Contents where
  tool _ := ⟨.file,none,"tool",[],none,[],⟨"linux","x64","6"⟩⟩
  platform _ := ⟨"linux","x64","6"⟩
  configuration _ := []
  literal value := "literal-" ++ value

def scopedDescriptor (notes : Hash) : Except String ExecutionDescriptor :=
  materializeDescriptor strokeDigests scopedContents scopedPolicy (scopedInput notes)
    scopedRecipe none ⟨"linux-x64",[⟨"PATH",true,some "path"⟩]⟩
    [⟨"fv-producer",[],true,[],[],""⟩] none

theorem scopedInput_valid (notes : Hash) :
    StoreDocument.validateInputState strokeDigests (scopedInput notes) = .ok ⟨⟩ := by
  have ordered : Ascending ((scopedInput notes).files.map SourceFile.path) := by
    show Ascending ["basis.md","intent.md","model/Main","notes.md","obligations.json","policy.json"]
    decide +kernel
  simp only [StoreDocument.validateInputState, bind_ok, Schema.ensure_ok, check_ok, exists_unit]
  exact ⟨ordered,rfl,rfl⟩

/-- A note outside the closure may change. -/
theorem key_dependency_scoped_notes : ∃ da, scopedDescriptor "old" = .ok da ∧
    ((∃ db, scopedDescriptor "new" = .ok db ∧
        strokeDigests.executionKey db = strokeDigests.executionKey da) ↔
      SameDependencies scopedRecipe (commonBindingPaths scopedPolicy) (scopedInput "old")
        (scopedInput "new")) ∧
    ∀ recipe input c,
      sourceClosure strokeDigests input recipe (commonBindingPaths scopedPolicy) = .ok c ↔
        Checker.effectiveClosure strokeDigests recipe input scopedPolicy.common = .ok c := by
  have made : (scopedDescriptor "old").isOk := by decide +kernel
  cases h : scopedDescriptor "old" with
  | error e => rw [h] at made; exact absurd made Bool.false_ne_true
  | ok da =>
    exact ⟨da,rfl,key_dependency_scoped strokeDigests_free (scopedInput_valid "old")
      (scopedInput_valid "new") rfl rfl h⟩

end Samples

end DescriptorKey

end EvidenceV4
