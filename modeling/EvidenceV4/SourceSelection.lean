import EvidenceV4.StoreDocument
import EvidenceV4.VerifiedInputs

/-!
# Closures of source files

A recipe declares which files it depends on. The producer selects them from the
captured input state, with the files that every recipe is bound to, and the
checker selects them again when it compares a descriptor with the current tree.
-/

set_option autoImplicit false

namespace EvidenceV4

/-- A policy with the bindings that loading it computed. -/
structure LoadedPolicy where
  policy : Policy
  path : String
  manifestPath : String
  common : CommonBindings
  policyPath_eq : common.policyPath = path
  intentPath_eq : common.intentPath = policy.intentPath
  manifestPath_eq : common.manifestPath = manifestPath
  definitionFiles_eq : common.definitionFiles.map PathHash.path = policy.definitionFiles

namespace SourceSelection

open CheckedExcept Schema

variable (D : Digests)

def prefixSelects (relative pre : String) : Bool :=
  if ['/'].isSuffixOf pre.toList then pre.toList.isPrefixOf relative.toList
  else relative == pre || (pre.toList ++ ['/']).isPrefixOf relative.toList

def commonBindingPaths (loaded : LoadedPolicy) : List String :=
  let paths := [loaded.path,loaded.policy.intentPath,loaded.manifestPath] ++
    loaded.policy.definitionFiles ++
    (if loaded.common.dispatchHash = none then [] else [".fv/dispatch.json"])
  paths.eraseDups.insertionSort (fun a b => utf8Compare a b != .gt)

def configuration (recipe : Recipe) : List String :=
  match recipe.buildCache with
  | none => []
  | some cache => cache.configuration

def closureMode (recipe : Recipe) : ClosureMode :=
  if recipe.sourceClosure.mode = .prefixes ∧ recipe.sourceClosure.basis ≠ [] then .prefixes
  else .verifiedInputs

def closurePrefixes (recipe : Recipe) : List String :=
  if closureMode recipe = .prefixes then recipe.sourceClosure.prefixes else []

def mandatoryPaths (recipe : Recipe) (commonPaths : List String) : List String :=
  commonPaths ++ recipe.sourceClosure.basis ++ configuration recipe

def closureFiles (input : InputState) (recipe : Recipe) (commonPaths : List String) :
    List SourceFile :=
  if closureMode recipe = .verifiedInputs then input.files
  else input.files.filter (fun file => file.path ∈ mandatoryPaths recipe commonPaths ∨
    (closurePrefixes recipe).any (prefixSelects file.path))

def sourceClosure (input : InputState) (recipe : Recipe) (commonPaths : List String) :
    Except String Closure := do
  let files := closureFiles input recipe commonPaths
  forM (mandatoryPaths recipe commonPaths) (fun relative =>
    check (∃ file ∈ files, file.path = relative) ("missing closure binding: " ++ relative))
  let value : UnsignedClosure :=
    ⟨closureMode recipe,closurePrefixes recipe,recipe.sourceClosure.basis,files⟩
  pure { value with hash := D.sourceClosure value }

namespace Checker

open VerifiedInputs

def matchesPrefixes (relative : String) (prefixes : List String) : Bool :=
  FvProject.matchesPrefixes relative.toList (prefixes.map String.toList)

def mandatory (recipe : Recipe) (common : CommonBindings) : List String :=
  [common.policyPath,common.intentPath,common.manifestPath] ++
    common.definitionFiles.map PathHash.path ++ recipe.sourceClosure.basis ++
    (if common.dispatchHash ≠ none then [".fv/dispatch.json"] else []) ++
    (match recipe.buildCache with
      | none => []
      | some cache => cache.configuration)

def effectiveClosure (recipe : Recipe) (state : InputState) (common : CommonBindings) :
    Except String Closure := do
  let closure := recipe.sourceClosure
  let mode := if closure.basis ≠ [] then closure.mode else .verifiedInputs
  let prefixes := if mode = .prefixes then closure.prefixes else []
  let files := if mode = .verifiedInputs then state.files
    else state.files.filter (fun entry => entry.path ∈ mandatory recipe common ∨
      matchesPrefixes entry.path prefixes)
  check (∀ path ∈ mandatory recipe common, path ∈ files.map SourceFile.path)
    "missing original closure binding input"
  let body : UnsignedClosure := ⟨mode,prefixes,closure.basis,files⟩
  pure { body with hash := D.sourceClosure body }

end Checker

section Agreement

theorem mem_commonBindingPaths (loaded : LoadedPolicy) (path : String) :
    path ∈ commonBindingPaths loaded ↔
      path ∈ [loaded.common.policyPath,loaded.common.intentPath,loaded.common.manifestPath] ++
        loaded.common.definitionFiles.map PathHash.path ++
        (if loaded.common.dispatchHash ≠ none then [".fv/dispatch.json"] else []) := by
  rw [commonBindingPaths, List.mem_insertionSort, List.mem_eraseDups, loaded.policyPath_eq,
    loaded.intentPath_eq, loaded.manifestPath_eq, loaded.definitionFiles_eq, ite_not]

theorem mem_mandatory (recipe : Recipe) (loaded : LoadedPolicy) (path : String) :
    path ∈ mandatoryPaths recipe (commonBindingPaths loaded) ↔
      path ∈ Checker.mandatory recipe loaded.common := by
  simp only [mandatoryPaths, Checker.mandatory, List.mem_append, mem_commonBindingPaths,
    configuration]
  tauto

theorem matchesPrefixes_eq (relative : String) (prefixes : List String) :
    Checker.matchesPrefixes relative prefixes = prefixes.any (prefixSelects relative) := by
  rw [Checker.matchesPrefixes, VerifiedInputs.FvProject.matchesPrefixes, List.any_map]
  apply congrArg (List.any prefixes)
  ext1 pre
  have same : (relative.toList == pre.toList) = (relative == pre) := by
    rw [Bool.eq_iff_iff, beq_iff_eq, beq_iff_eq, String.toList_inj]
  simp only [Function.comp_apply, prefixSelects, same]

theorem mode_eq (recipe : Recipe) : closureMode recipe =
    if recipe.sourceClosure.basis ≠ [] then recipe.sourceClosure.mode else .verifiedInputs := by
  unfold closureMode
  cases recipe.sourceClosure.mode <;> by_cases blank : recipe.sourceClosure.basis = [] <;>
    simp [blank]

/-- The producer and the checker select one closure from one input state. -/
theorem sourceClosure_agrees (recipe : Recipe) (input : InputState) (loaded : LoadedPolicy)
    (c : Closure) :
    sourceClosure D input recipe (commonBindingPaths loaded) = .ok c ↔
      Checker.effectiveClosure D recipe input loaded.common = .ok c := by
  have mode := mode_eq recipe
  have prefixes : closurePrefixes recipe =
      if closureMode recipe = .prefixes then recipe.sourceClosure.prefixes else [] := rfl
  have files : closureFiles input recipe (commonBindingPaths loaded) =
      if closureMode recipe = .verifiedInputs then input.files
      else input.files.filter (fun entry => entry.path ∈ Checker.mandatory recipe loaded.common ∨
        Checker.matchesPrefixes entry.path (closurePrefixes recipe)) := by
    simp only [closureFiles, mem_mandatory, matchesPrefixes_eq]
  unfold sourceClosure Checker.effectiveClosure
  simp only [← mode, ← prefixes, ← files, bind_ok, forM_ok, check_ok, exists_unit, mem_mandatory,
    List.mem_map]

end Agreement

end SourceSelection

end EvidenceV4
