import EvidenceV4.RequirementWalk
import EvidenceV4.Schema

/-!
# The execution policy and its validator

A policy declares toolchains, preflight checks, recipes and claim records. The
validator first walks the document structure and then relates its parts:
environment identity, the requirement graph of the toolchains, recipe closures,
declared bounds against the command line, and the recipes that records name.
Constant fields, whose schema admits one value, carry no information and are
left out.
-/

set_option autoImplicit false

namespace EvidenceV4

open CheckedExcept

structure Member where
  claimId : ID
  slotId : ID
  tool : ToolID
  deriving DecidableEq

structure DistinctSlot where
  claimId : ID
  slotId : ID
  deriving DecidableEq

inductive EvidenceClass where
  | codeEnforced | proofDischarged | boundedChecked | testWitnessed | conformanceTested
  deriving DecidableEq

structure Check where
  id : ID
  command : List String
  cwd : String
  resources : List String
  toolchain : List ID
  timeoutSeconds : Option ℕ
  deriving DecidableEq

inductive AdapterName where
  | pythonRuntime | quintBackends | cargoToolchain | kaniToolchain | leanToolchain
  | darwinNative | nodeToolchain
  deriving DecidableEq

inductive Locator where
  | command (value : String)
  | path (value : String)
  | commandRelative (value : String) (parentLevels : ℕ) (subpath : String)
  | adapter (value : AdapterName) (cwd : String) (subject : List String)
  deriving DecidableEq

inductive ToolKind where
  | executable | file | tree
  deriving DecidableEq

structure ToolDeclaration where
  id : ID
  kind : ToolKind
  locator : Locator
  versionCommand : Option (List String)
  versionCwd : Option String
  requires : List ID
  acceptSha256 : List Hash
  versionContains : List String
  deriving DecidableEq

structure ObservationBinding where
  path : String
  pointer : String
  deriving DecidableEq

inductive DeterminismMode where
  | fixed | distinct
  deriving DecidableEq

inductive ClosureMode where
  | prefixes | verifiedInputs
  deriving DecidableEq

structure SourceClosure where
  mode : ClosureMode
  prefixes : List String
  basis : List String
  deriving DecidableEq

structure Bounds where
  samples : Option ℕ
  maxSteps : Option ℕ
  seed : Option String
  deriving DecidableEq

inductive CacheSystem where
  | cargo | lake | node | replay
  deriving DecidableEq

structure BuildCache where
  system : CacheSystem
  configuration : List String
  resources : List String
  deriving DecidableEq

structure Recipe where
  recipeId : ID
  command : List String
  cwd : String
  evidenceClass : EvidenceClass
  passMarker : Option String
  timeoutSeconds : Option ℕ
  determinism : DeterminismMode
  rationale : String
  sourceClosure : SourceClosure
  toolchain : List ID
  resources : List String
  exclusive : Bool
  bounds : Bounds
  attestation : Option ObservationBinding
  buildCache : Option BuildCache
  ownershipProtocol : Bool
  retainedEnvironment : List String
  deriving DecidableEq

structure PolicySlot where
  slotId : ID
  recipeId : ID
  tool : ToolID
  observationBinding : ObservationBinding
  deriving DecidableEq

structure PolicyRecord where
  claimId : ID
  required : Bool
  evidenceClass : EvidenceClass
  scope : String
  executions : List PolicySlot
  deriving DecidableEq

structure Platform where
  os : String
  arch : String
  deriving DecidableEq

structure EnvironmentPolicy where
  platforms : List Platform
  inherit : List String
  set : List (String × String)
  identity : List String
  deriving DecidableEq

structure Policy where
  policyId : ID
  intentPath : String
  definitionFiles : List String
  environment : EnvironmentPolicy
  toolchains : List ToolDeclaration
  preflight : List Check
  claimChecker : Check
  recipes : List Recipe
  records : List PolicyRecord
  maxJobs : ℕ
  deriving DecidableEq

namespace PolicyDocument

open Schema RequirementWalk

def check : Validator Check := fun v w => do
  Schema.id v.id (w ++ ".id")
  command v.command (w ++ ".command")
  cwd v.cwd (w ++ ".cwd")
  names resource v.resources (w ++ ".resources")
  names Schema.id v.toolchain (w ++ ".toolchain")
  nullable positive v.timeoutSeconds (w ++ ".timeout_seconds")

/-- A union of schemas reports no more than that none of them matched. -/
def noMatch (w : String) : Except String Unit → Except String Unit
  | .ok () => .ok ()
  | .error _ => .error (w ++ ": no matching schema")

def locator : Validator Locator := fun v w => noMatch w <|
  match v with
  | .command value | .path value => osString value (w ++ ".value")
  | .commandRelative value parentLevels subpath => do
    osString value (w ++ ".value")
    integer parentLevels (w ++ ".parent_levels")
    cwd subpath (w ++ ".subpath")
  | .adapter _ directory subject => do
    cwd directory (w ++ ".cwd")
    command subject (w ++ ".subject")

def toolDeclaration : Validator ToolDeclaration := fun v w => do
  Schema.id v.id (w ++ ".id")
  locator v.locator (w ++ ".locator")
  nullable command v.versionCommand (w ++ ".version_command")
  nullable cwd v.versionCwd (w ++ ".version_cwd")
  names Schema.id v.requires (w ++ ".requires")
  names hash v.acceptSha256 (w ++ ".accept.sha256")
  array nonempty 0 v.versionContains (w ++ ".accept.version_contains")

def binding : Validator ObservationBinding := fun v w => do
  pathValue v.path (w ++ ".path")
  pointer v.pointer (w ++ ".pointer")

def sourceClosureSchema : Validator SourceClosure := fun v w => do
  names prefixValue v.prefixes (w ++ ".prefixes")
  names pathValue v.basis (w ++ ".basis")

def bounds : Validator Bounds := fun v w => do
  nullable positive v.samples (w ++ ".samples")
  nullable positive v.maxSteps (w ++ ".max_steps")

def buildCache : Validator BuildCache := fun v w => do
  names pathValue v.configuration (w ++ ".configuration")
  names resource v.resources (w ++ ".resources")

def recipe : Validator Recipe := fun v w => do
  Schema.id v.recipeId (w ++ ".recipe_id")
  command v.command (w ++ ".command")
  cwd v.cwd (w ++ ".cwd")
  nullable nonempty v.passMarker (w ++ ".pass_marker")
  nullable positive v.timeoutSeconds (w ++ ".timeout_seconds")
  nonempty v.rationale (w ++ ".determinism.rationale")
  sourceClosureSchema v.sourceClosure (w ++ ".source_closure")
  names Schema.id v.toolchain (w ++ ".toolchain")
  names resource v.resources (w ++ ".resources")
  bounds v.bounds (w ++ ".bounds")
  nullable binding v.attestation (w ++ ".attestation")
  nullable buildCache v.buildCache (w ++ ".build_cache")
  names envName v.retainedEnvironment (w ++ ".retained_environment")

def policySlot : Validator PolicySlot := fun v w => do
  Schema.id v.slotId (w ++ ".slot_id")
  Schema.id v.recipeId (w ++ ".recipe_id")
  tool v.tool (w ++ ".tool")
  binding v.observationBinding (w ++ ".observation_binding")

def policyRecord : Validator PolicyRecord := fun v w => do
  Schema.id v.claimId (w ++ ".claim_id")
  nonempty v.scope (w ++ ".scope")
  unique policySlot PolicySlot.slotId 1 v.executions (w ++ ".executions")

def platform : Validator Platform := fun v w => do
  osString v.os (w ++ ".os")
  osString v.arch (w ++ ".arch")

def environmentLiteral (w : String) (entry : String × String) : Except String Unit := do
  envName entry.1 w
  ensure (entry.2.toList.all (fun c => c.toNat != 0)) w "NUL in environment"

def environmentPolicy : Validator EnvironmentPolicy := fun v w => do
  set platform (fun p => p.os ++ "\x00" ++ p.arch) 1 v.platforms (w ++ ".platforms")
  names envName v.inherit (w ++ ".inherit")
  forM v.set (environmentLiteral (w ++ ".set"))
  names envName v.identity (w ++ ".identity")

def policySchema : Validator Policy := fun v w => do
  Schema.id v.policyId (w ++ ".policy_id")
  pathValue v.intentPath (w ++ ".intent_path")
  names pathValue v.definitionFiles (w ++ ".definition_files")
  environmentPolicy v.environment (w ++ ".environment")
  unique toolDeclaration ToolDeclaration.id 0 v.toolchains (w ++ ".toolchains")
  unique check Check.id 0 v.preflight (w ++ ".preflight")
  check v.claimChecker (w ++ ".claim_checker")
  unique recipe Recipe.recipeId 1 v.recipes (w ++ ".recipes")
  unique policyRecord PolicyRecord.claimId 1 v.records (w ++ ".records")
  positive v.maxJobs (w ++ ".jobs.max")
  ensure (2 ≤ v.maxJobs) (w ++ ".jobs.max") "jobs max below two"

def validatePolicyStructure (policy : Policy) : Except String Unit := policySchema policy "Policy"

def reservedEnvironment : String := "DOSSIER_QUINT_OWNERSHIP_FDS"

/-- The value a `Map` built from these entries holds, where a later entry replaces an earlier one. -/
def mapGet {κ ν : Type} [DecidableEq κ] (entries : List (κ × ν)) (key : κ) : Option ν :=
  (entries.reverse.find? (fun entry => entry.1 = key)).map Prod.snd

section MapFacts

variable {κ ν : Type} [DecidableEq κ] {entries : List (κ × ν)} {key : κ} {value : ν}

theorem mapGet_mem (h : mapGet entries key = some value) : (key,value) ∈ entries := by
  obtain ⟨entry,found,rfl⟩ := Option.map_eq_some_iff.mp h
  have hk : entry.1 = key := by simpa using List.find?_some found
  have hm : entry ∈ entries := by simpa using List.mem_of_find?_eq_some found
  exact hk ▸ hm

theorem mapGet_isSome : (mapGet entries key).isSome ↔ key ∈ entries.map Prod.fst := by
  simp [mapGet]

/-- Under distinct keys the value found is the one entered. -/
theorem mapGet_of_mem (distinct : (entries.map Prod.fst).Nodup) (h : (key,value) ∈ entries) :
    mapGet entries key = some value := by
  obtain ⟨found,hf⟩ := Option.isSome_iff_exists.mp
    (mapGet_isSome.mpr (List.mem_map.mpr ⟨_,h,rfl⟩))
  have e : (key,found) = (key,value) :=
    List.inj_on_of_nodup_map distinct (mapGet_mem hf) h rfl
  rw [hf, (Prod.mk.inj e).2]

end MapFacts

def declarations (tools : List ToolDeclaration) : List (ID × ToolDeclaration) :=
  tools.map (fun t => (t.id,t))

def requirementRules (tools : List ToolDeclaration) : Rules ID String :=
  { requires := fun name => (mapGet (declarations tools) name).map ToolDeclaration.requires
    enter := fun name => CheckedExcept.check (name ≠ "fv-producer")
      "policy cannot reference fv-producer"
    leave := fun _ => pure ⟨⟩
    cycle := fun name => "cyclic toolchain requires: " ++ name
    missing := fun name => "unknown toolchain: " ++ name }

def visitAll (policy : Policy) (visited : List ID) (ids : List ID) : Except String (List ID) :=
  ids.foldlM (visit (requirementRules policy.toolchains) (policy.toolchains.length+1) []) visited

/-- The bound on the depth of the walk is never what ends it. -/
theorem visit_declared (tools : List ToolDeclaration) (more : ℕ) (visited : List ID) (name : ID) :
    visit (requirementRules tools) (tools.length+1+more) [] visited name =
      visit (requirementRules tools) (tools.length+1) [] visited name := by
  have declared : ∀ name, ((requirementRules tools).requires name).isSome →
      name ∈ tools.map ToolDeclaration.id := by
    intro name h
    have known := mapGet_isSome.mp (Option.isSome_map.symm.trans h)
    simpa [declarations] using known
  simpa using visit_enough (requirementRules tools) _ declared more visited name

def validateLocator (declaration : ToolDeclaration) : Except String Unit :=
  match declaration.locator with
  | .command value | .commandRelative value _ _ =>
    CheckedExcept.check (value.toList.all (fun c => c != '/' && c != '\\' && !isControl c))
      ("unsafe command locator: " ++ declaration.id)
  | .path value =>
    CheckedExcept.check
      (value.toList.head? ≠ some '~' ∧ value.toList.all (fun c => c.toNat != 0) ∧
        (value.toList.head? = some '/' ∨ validPath value))
      ("unsafe tool path locator: " ++ declaration.id)
  | .adapter _ _ _ => pure ()

def validateDeclaration (policy : Policy) (visited : List ID) (declaration : ToolDeclaration) :
    Except String (List ID) := do
  let visited ← visitAll policy visited [declaration.id]
  CheckedExcept.check (declaration.versionCommand.isNone = declaration.versionCwd.isNone)
    ("version command/cwd mismatch: " ++ declaration.id)
  CheckedExcept.check (declaration.versionCommand.isNone → declaration.versionContains = [])
    ("version requirement without version command: " ++ declaration.id)
  validateLocator declaration
  pure visited

/-- The values that a command line gives to one option. -/
def optionValues (option : String) : List String → Except String (List String)
  | [] => pure []
  | [arg] =>
    if arg = option then throw ("missing " ++ option)
    else pure (assigned arg).toList
  | arg :: next :: rest =>
    if arg = option then do
      let found ← optionValues option rest
      pure (next :: found)
    else do
      let found ← optionValues option (next :: rest)
      pure ((assigned arg).toList ++ found)
where
  assigned (arg : String) : Option String :=
    if (option ++ "=").toList.isPrefixOf arg.toList then
      some (String.ofList (arg.toList.drop (option.length+1)))
    else none

def validateBound (recipe : Recipe) (field option : String) (declared : Option String) :
    Except String Unit := do
  let found ← optionValues option recipe.command
  CheckedExcept.check
    (found.length ≤ 1 ∧ (∀ value ∈ found.head?, declared.getD "null" = value) ∧
      (declared.isSome → found ≠ []))
    ("bounds disagree with argv: " ++ recipe.recipeId ++ "." ++ field)

def validateRecipe (policy : Policy) (visited : List ID) (recipe : Recipe) :
    Except String (List ID) := do
  let visited ← visitAll policy visited recipe.toolchain
  match recipe.resources.find? (fun r => r ∈ policy.claimChecker.resources) with
  | some overlap =>
    throw ("claim checker resource overlaps recipe " ++ recipe.recipeId ++ ": " ++ overlap)
  | none => pure ()
  CheckedExcept.check
    (recipe.sourceClosure.mode = .verifiedInputs → recipe.sourceClosure.prefixes = [])
    ("whole-input closure has prefixes: " ++ recipe.recipeId)
  CheckedExcept.check (recipe.sourceClosure.mode = .prefixes → recipe.sourceClosure.prefixes ≠ [])
    ("prefix closure has no prefixes: " ++ recipe.recipeId)
  CheckedExcept.check (∀ cache ∈ recipe.buildCache, ∀ r ∈ cache.resources, r ∈ recipe.resources)
    ("build cache resource not held: " ++ recipe.recipeId)
  CheckedExcept.check (reservedEnvironment ∉ recipe.retainedEnvironment)
    "ownership FD cannot be retained environment"
  CheckedExcept.check (recipe.retainedEnvironment ≠ [] → recipe.attestation.isSome)
    ("retained environment without collector: " ++ recipe.recipeId)
  CheckedExcept.check (recipe.ownershipProtocol → recipe.attestation.isSome)
    ("ownership protocol without collector: " ++ recipe.recipeId)
  validateBound recipe "samples" "--max-samples" (recipe.bounds.samples.map toString)
  validateBound recipe "max_steps" "--max-steps" (recipe.bounds.maxSteps.map toString)
  validateBound recipe "seed" "--seed" recipe.bounds.seed
  pure visited

def validateSlot (policy : Policy) (record : PolicyRecord) (evidenceTools : List ToolID)
    (slot : PolicySlot) : Except String (List ToolID) := do
  CheckedExcept.check (slot.recipeId ∈ policy.recipes.map Recipe.recipeId)
    ("unknown recipe " ++ slot.recipeId)
  CheckedExcept.check (slot.tool ∉ evidenceTools)
    ("duplicate evidence tool in " ++ record.claimId ++ ": " ++ slot.tool)
  pure (slot.tool :: evidenceTools)

def validateRecord (policy : Policy) (record : PolicyRecord) : Except String Unit := do
  let _ ← record.executions.foldlM (validateSlot policy record) []
  pure ()

def used (policy : Policy) : List ID :=
  policy.records.flatMap (fun record => record.executions.map PolicySlot.recipeId)

variable (H : List String → Hash)

/-- The names of `inherit` and `set` without repetition, in byte order. -/
def environmentUnion (environment : EnvironmentPolicy) : List String :=
  (environment.inherit ++ environment.set.map Prod.fst).dedup.insertionSort
    (fun a b => utf8Bytes a ≤ utf8Bytes b)

def validatePolicy (policy : Policy) : Except String Policy := do
  validatePolicyStructure policy
  let union := environmentUnion policy.environment
  CheckedExcept.check (H union = H policy.environment.identity)
    "environment.identity is not inherit union set"
  CheckedExcept.check (reservedEnvironment ∉ union) "reserved ownership environment variable"
  CheckedExcept.check ("fv-producer" ∉ policy.toolchains.map ToolDeclaration.id)
    "reserved fv-producer declaration"
  let visited ← policy.toolchains.foldlM (validateDeclaration policy) []
  let visited ← visitAll policy visited
    ((policy.preflight ++ [policy.claimChecker]).flatMap Check.toolchain)
  CheckedExcept.check (∀ c ∈ policy.preflight, c.id ≠ policy.claimChecker.id)
    "claim checker and preflight IDs collide"
  CheckedExcept.check (policy.claimChecker.timeoutSeconds.isSome)
    "claim checker needs finite timeout"
  let _ ← policy.recipes.foldlM (validateRecipe policy) visited
  forM policy.records (validateRecord policy)
  forM policy.recipes (fun recipe =>
    CheckedExcept.check (recipe.recipeId ∈ used policy)
      ("recipe has no members: " ++ recipe.recipeId))
  pure policy

/-- What expansion relies on: distinct names, known recipes, and no idle recipe. -/
structure Coherent (policy : Policy) : Prop where
  recipesDistinct : (policy.recipes.map Recipe.recipeId).Nodup
  recordsDistinct : (policy.records.map PolicyRecord.claimId).Nodup
  slotsDistinct : ∀ record ∈ policy.records, (record.executions.map PolicySlot.slotId).Nodup
  toolsDistinct : ∀ record ∈ policy.records, (record.executions.map PolicySlot.tool).Nodup
  recipesKnown : ∀ record ∈ policy.records, ∀ slot ∈ record.executions,
    slot.recipeId ∈ policy.recipes.map Recipe.recipeId
  recipesUsed : ∀ recipe ∈ policy.recipes, recipe.recipeId ∈ used policy

theorem policySchema_distinct {policy : Policy} {w : String} (h : policySchema policy w = .ok ()) :
    (policy.recipes.map Recipe.recipeId).Nodup ∧ (policy.records.map PolicyRecord.claimId).Nodup ∧
      ∀ record ∈ policy.records, (record.executions.map PolicySlot.slotId).Nodup := by
  simp only [policySchema, bind_ok] at h
  obtain ⟨_,_,_,_,_,_,_,_,_,_,_,_,_,_,_,hrecipes,_,hrecords,_⟩ := h
  obtain ⟨⟨_,each⟩,distinct⟩ := unique_ok hrecords
  refine ⟨(unique_ok hrecipes).2,distinct,?_⟩
  intro record hrecord
  obtain ⟨place,accepted⟩ := each record hrecord
  simp only [policyRecord, bind_ok] at accepted
  obtain ⟨_,_,_,_,hslots⟩ := accepted
  exact (unique_ok hslots).2

/-- The schema leaves no record without slots. -/
theorem policySchema_filled {policy : Policy} {w : String} (h : policySchema policy w = .ok ()) :
    ∀ record ∈ policy.records, record.executions ≠ [] := by
  simp only [policySchema, bind_ok] at h
  obtain ⟨_,_,_,_,_,_,_,_,_,_,_,_,_,_,_,_,_,hrecords,_⟩ := h
  intro record hrecord
  obtain ⟨place,accepted⟩ := (unique_ok hrecords).1.2 record hrecord
  simp only [policyRecord, bind_ok] at accepted
  obtain ⟨_,_,_,_,hslots⟩ := accepted
  have least := (unique_ok hslots).1.1
  exact List.ne_nil_of_length_pos least

theorem validateRecord_slots {policy : Policy} {record : PolicyRecord} {slots : List PolicySlot}
    {seen seen' : List ToolID} (h : slots.foldlM (validateSlot policy record) seen = .ok seen')
    (fresh : seen.Nodup) :
    (∀ slot ∈ slots, slot.recipeId ∈ policy.recipes.map Recipe.recipeId) ∧
      (slots.map PolicySlot.tool).Nodup ∧ ∀ slot ∈ slots, slot.tool ∉ seen := by
  induction slots generalizing seen with
  | nil => simp
  | cons slot slots ih =>
    simp only [List.foldlM_cons, validateSlot, bind_ok, check_ok, pure_ok] at h
    obtain ⟨next,⟨_,known,_,new,rfl⟩,rest⟩ := h
    obtain ⟨hk,hn,hs⟩ := ih rest (List.nodup_cons.mpr ⟨new,fresh⟩)
    refine ⟨?_,?_,?_⟩
    · simpa using And.intro known hk
    · rw [List.map_cons, List.nodup_cons]
      refine ⟨?_,hn⟩
      intro hm
      obtain ⟨other,ho,e⟩ := List.mem_map.mp hm
      exact hs other ho (e ▸ List.mem_cons_self)
    · intro other ho
      rcases List.mem_cons.mp ho with rfl | ho
      · exact new
      · exact fun hm => hs other ho (List.mem_cons_of_mem _ hm)

/-- An accepted policy is returned unchanged and is coherent. -/
theorem validatePolicy_ok {policy result : Policy} (h : validatePolicy H policy = .ok result) :
    result = policy ∧ Coherent policy := by
  simp only [validatePolicy, bind_ok, check_ok, forM_ok, pure_ok] at h
  obtain ⟨_,structural,_,_,_,_,_,_,_,_,_,_,_,_,_,_,_,_,_,hrecords,_,hused,rfl⟩ := h
  obtain ⟨recipesDistinct,recordsDistinct,slotsDistinct⟩ := policySchema_distinct structural
  have slots : ∀ record ∈ policy.records, ∃ seen,
      record.executions.foldlM (validateSlot policy record) [] = .ok seen := by
    intro record hrecord
    have accepted := hrecords record hrecord
    simp only [validateRecord, bind_ok] at accepted
    obtain ⟨seen,hseen,_⟩ := accepted
    exact ⟨seen,hseen⟩
  refine ⟨rfl,recipesDistinct,recordsDistinct,slotsDistinct,?_,?_,hused⟩
  · intro record hrecord
    obtain ⟨_,hseen⟩ := slots record hrecord
    exact (validateRecord_slots hseen List.nodup_nil).2.1
  · intro record hrecord
    obtain ⟨_,hseen⟩ := slots record hrecord
    exact (validateRecord_slots hseen List.nodup_nil).1

theorem validatePolicy_filled {policy result : Policy} (h : validatePolicy H policy = .ok result) :
    ∀ record ∈ policy.records, record.executions ≠ [] := by
  simp only [validatePolicy, bind_ok] at h
  obtain ⟨_,structural,_⟩ := h
  exact policySchema_filled structural

/-- A recipe that passes every check on its own. -/
def sampleRecipe (name : ID) (mode : DeterminismMode) : Recipe :=
  { recipeId := name, command := ["run"], cwd := ".", evidenceClass := .boundedChecked
    passMarker := none, timeoutSeconds := some 60, determinism := mode, rationale := "seeded"
    sourceClosure := ⟨.verifiedInputs,[],[]⟩, toolchain := [], resources := []
    exclusive := false, bounds := ⟨none,none,none⟩, attestation := none, buildCache := none
    ownershipProtocol := false, retainedEnvironment := [] }

example : recipe (sampleRecipe "a" .fixed) "Policy.recipes[0]" = .ok () := by decide +kernel

end PolicyDocument

end EvidenceV4
