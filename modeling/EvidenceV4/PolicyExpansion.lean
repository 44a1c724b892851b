import EvidenceV4.PolicyDocument
import EvidenceV4.PrefixLog
import EvidenceV4.StableGrouping

/-!
# Physical work of a policy

The producer walks records and slots and opens a physical execution when a slot
needs a new one. The portable checker walks recipes and lists the work of each.
Both list the same entries, and they agree on the order exactly when slots
first name recipes in the order in which the policy declares them.
-/

set_option autoImplicit false

namespace EvidenceV4

structure ExpandedSlot where
  claimId : ID
  slotId : ID
  tool : ToolID
  recipeId : ID
  record : PolicyRecord
  member : Member
  recipe : Recipe
  deriving DecidableEq

structure ExpandedExecution where
  recipe : Recipe
  distinct : Option DistinctSlot
  members : List Member
  slots : List ExpandedSlot
  deriving DecidableEq

structure ExpandedPlan where
  slots : List ExpandedSlot
  executions : List ExpandedExecution
  deriving DecidableEq

namespace PolicyExpansion

open CheckedExcept Schema PolicyDocument PrefixLog StableGrouping

abbrev Association := PolicyRecord × PolicySlot

def associations (policy : Policy) : List Association :=
  policy.records.flatMap (fun record => record.executions.map (fun slot => (record,slot)))

def recipeMap (policy : Policy) : List (ID × Recipe) := policy.recipes.map (fun r => (r.recipeId,r))

/-- The variables of the producer's loop; `shared` maps a fixed recipe to its execution. -/
structure Expansion where
  shared : List (ID × ℕ)
  slots : List ExpandedSlot
  executions : List ExpandedExecution

def memberOf (entry : Association) : Member := ⟨entry.1.claimId,entry.2.slotId,entry.2.tool⟩

def expandedSlot (entry : Association) (recipe : Recipe) : ExpandedSlot :=
  { claimId := entry.1.claimId, slotId := entry.2.slotId, tool := entry.2.tool
    recipeId := entry.2.recipeId, record := entry.1, member := memberOf entry, recipe := recipe }

def addSlot (expanded : ExpandedSlot) (execution : ExpandedExecution) : ExpandedExecution :=
  { execution with
    members := execution.members ++ [expanded.member]
    slots := execution.slots ++ [expanded] }

def distinctOf (entry : Association) (recipe : Recipe) : Option DistinctSlot :=
  if recipe.determinism = .distinct then some ⟨entry.1.claimId,entry.2.slotId⟩ else none

def sharedExecution (state : Expansion) (recipe : Recipe) : Option ℕ :=
  if recipe.determinism = .fixed then mapGet state.shared recipe.recipeId else none

def expandSlot (policy : Policy) (state : Expansion) (entry : Association) :
    Except String Expansion :=
  match mapGet (recipeMap policy) entry.2.recipeId with
  | none => throw ("unknown recipe " ++ entry.2.recipeId)
  | some recipe =>
    let expanded := expandedSlot entry recipe
    match sharedExecution state recipe with
    | some index => pure
      { state with
        slots := state.slots ++ [expanded]
        executions := state.executions.modify index (addSlot expanded) }
    | none => pure
      { shared := if recipe.determinism = .fixed
          then state.shared ++ [(recipe.recipeId,state.executions.length)] else state.shared
        slots := state.slots ++ [expanded]
        executions := state.executions ++
          [addSlot expanded
            { recipe := recipe, distinct := distinctOf entry recipe, members := [], slots := [] }] }

def memberOrder (a b : Member) : Bool :=
  match utf8Compare a.claimId b.claimId with
  | .lt => true
  | .gt => false
  | .eq => utf8Compare a.slotId b.slotId != .gt

def sortMembers (execution : ExpandedExecution) : ExpandedExecution :=
  { execution with members := execution.members.insertionSort (fun a b => memberOrder a b) }

def expandPolicy (policy : Policy) : Except String ExpandedPlan := do
  let state ← (associations policy).foldlM (expandSlot policy) ⟨[],[],[]⟩
  pure ⟨state.slots,state.executions.map sortMembers⟩

abbrev WorkEntry := ID × Option DistinctSlot

def workEntry (execution : ExpandedExecution) : WorkEntry :=
  (execution.recipe.recipeId,execution.distinct)

/-- The identity columns of `run.work`. -/
def plannedWork (plan : ExpandedPlan) : List WorkEntry := plan.executions.map workEntry

/-- The portable checker's list: recipes outside, records and slots inside. -/
def physicalExpansion (policy : Policy) : List WorkEntry :=
  policy.recipes.flatMap (fun recipe =>
    if recipe.determinism = .fixed then [(recipe.recipeId,none)]
    else policy.records.flatMap (fun record =>
      (record.executions.filter (fun slot => slot.recipeId = recipe.recipeId)).map
        (fun slot => (recipe.recipeId,some ⟨record.claimId,slot.slotId⟩))))

def IsDistinct (policy : Policy) (name : ID) : Prop :=
  ∃ recipe ∈ policy.recipes, recipe.recipeId = name ∧ recipe.determinism = .distinct

/-- The slot needs an execution of its own or is the first to name its recipe. -/
def StartsExecution (policy : Policy) (before : List Association) (entry : Association) : Prop :=
  IsDistinct policy entry.2.recipeId ∨ ∀ b ∈ before, b.2.recipeId ≠ entry.2.recipeId

instance (policy : Policy) (name : ID) : Decidable (IsDistinct policy name) :=
  inferInstanceAs (Decidable (∃ recipe ∈ policy.recipes, _))

instance (policy : Policy) (before : List Association) (entry : Association) :
    Decidable (StartsExecution policy before entry) :=
  inferInstanceAs (Decidable (_ ∨ _))

def recipeNames (policy : Policy) : List ID := policy.recipes.map Recipe.recipeId

def recipeIndex (policy : Policy) (entry : Association) : ℕ :=
  (recipeNames policy).idxOf entry.2.recipeId

/-- A slot that starts an execution names a recipe declared no earlier than the
recipes of all slots before it. -/
def RecipesFirstUsedInOrder (policy : Policy) : Prop :=
  Prefixwise (fun before entry => StartsExecution policy before entry →
    ∀ b ∈ before, recipeIndex policy b ≤ recipeIndex policy entry) (associations policy)

def startedEntry (policy : Policy) (entry : Association) : WorkEntry :=
  (entry.2.recipeId,
    if IsDistinct policy entry.2.recipeId then some ⟨entry.1.claimId,entry.2.slotId⟩ else none)

/-- The work that the remaining slots start after the slots in `before`. -/
def startedWork (policy : Policy) : List Association → List Association → List WorkEntry
  | _, [] => []
  | before, entry :: rest =>
    if StartsExecution policy before entry then
      startedEntry policy entry :: startedWork policy (before ++ [entry]) rest
    else startedWork policy (before ++ [entry]) rest

section Producer

variable {policy : Policy}

theorem mem_associations {entry : Association} :
    entry ∈ associations policy ↔ entry.1 ∈ policy.records ∧ entry.2 ∈ entry.1.executions := by
  obtain ⟨record,slot⟩ := entry
  simp [associations]

theorem coherent_known (h : Coherent policy) {entry : Association}
    (he : entry ∈ associations policy) : entry.2.recipeId ∈ recipeNames policy :=
  h.recipesKnown _ (mem_associations.mp he).1 _ (mem_associations.mp he).2

theorem coherent_recipe (h : Coherent policy) {name : ID} (known : name ∈ recipeNames policy) :
    ∃ recipe ∈ policy.recipes, recipe.recipeId = name ∧
      mapGet (recipeMap policy) name = some recipe := by
  obtain ⟨recipe,hm,rfl⟩ := List.mem_map.mp known
  refine ⟨recipe,hm,rfl,mapGet_of_mem ?_ (List.mem_map.mpr ⟨recipe,hm,rfl⟩)⟩
  simpa [recipeMap, List.map_map, Function.comp_def] using h.recipesDistinct

theorem coherent_isDistinct (h : Coherent policy) {recipe : Recipe} (hm : recipe ∈ policy.recipes) :
    IsDistinct policy recipe.recipeId ↔ recipe.determinism = .distinct := by
  constructor
  · rintro ⟨other,ho,e,hd⟩
    rwa [← List.inj_on_of_nodup_map h.recipesDistinct ho hm e]
  · exact fun hd => ⟨recipe,hm,rfl,hd⟩

/-- What the loop holds after the slots in `done`. -/
structure Expanded (policy : Policy) (done : List Association) (state : Expansion) : Prop where
  shared : ∀ name, (mapGet state.shared name).isSome ↔
    ¬ IsDistinct policy name ∧ ∃ b ∈ done, b.2.recipeId = name
  work : state.executions.map workEntry = startedWork policy [] done

theorem startedWork_concat (before rest : List Association) (entry : Association) :
    startedWork policy before (rest ++ [entry]) = startedWork policy before rest ++
      if StartsExecution policy (before ++ rest) entry then [startedEntry policy entry] else [] := by
  induction rest generalizing before with
  | nil => simp [startedWork]
  | cons first rest ih =>
    simp only [List.cons_append, startedWork, ih (before ++ [first]), List.append_assoc]
    split <;> simp

theorem workEntry_addSlot (expanded : ExpandedSlot) (execution : ExpandedExecution) :
    workEntry (addSlot expanded execution) = workEntry execution := rfl

theorem map_modify_workEntry (executions : List ExpandedExecution) (index : ℕ)
    (expanded : ExpandedSlot) :
    (executions.modify index (addSlot expanded)).map workEntry = executions.map workEntry := by
  refine List.ext_getElem (by simp) ?_
  intro i h₁ h₂
  simp only [List.getElem_map, List.getElem_modify]
  split <;> simp [workEntry_addSlot]

/-- One slot of the loop. -/
theorem expandSlot_step (h : Coherent policy) {done : List Association} {state : Expansion}
    (inv : Expanded policy done state) (entry : Association)
    (known : entry.2.recipeId ∈ recipeNames policy) :
    ∃ state', expandSlot policy state entry = .ok state' ∧
      Expanded policy (done ++ [entry]) state' := by
  obtain ⟨recipe,hm,name,found⟩ := coherent_recipe h known
  have mode := coherent_isDistinct h hm
  rw [name] at mode
  have shared := inv.shared entry.2.recipeId
  simp only [expandSlot, found]
  cases hs : sharedExecution state recipe with
  | some index =>
    have fixed : recipe.determinism = .fixed := by
      by_contra hf
      simp [sharedExecution, hf] at hs
    have seen : mapGet state.shared entry.2.recipeId = some index := by
      simpa [sharedExecution, fixed, name] using hs
    obtain ⟨hd,b,hb,hn⟩ := shared.mp (seen ▸ rfl)
    have notNew : ¬ StartsExecution policy done entry :=
      not_or.mpr ⟨hd,fun fresh => fresh b hb hn⟩
    refine ⟨_,rfl,?_,?_⟩
    · intro other
      rw [inv.shared other]
      simp only [List.mem_append, List.mem_singleton, or_and_right, exists_or, exists_eq_left]
      refine and_congr_right (fun _ => ⟨Or.inl,?_⟩)
      rintro (h | rfl)
      · exact h
      · exact ⟨b,hb,hn⟩
    · rw [startedWork_concat]
      simp [notNew, map_modify_workEntry, inv.work]
  | none =>
    have new : StartsExecution policy done entry := by
      by_cases hd : IsDistinct policy entry.2.recipeId
      · exact Or.inl hd
      · have fixed : recipe.determinism = .fixed := by
          cases hr : recipe.determinism with
          | fixed => rfl
          | distinct => exact absurd (mode.mpr hr) hd
        have unseen : mapGet state.shared entry.2.recipeId = none := by
          simpa [sharedExecution, fixed, name] using hs
        refine Or.inr (fun b hb e => ?_)
        have := shared.mpr ⟨hd,b,hb,e⟩
        simp [unseen] at this
    refine ⟨_,rfl,?_,?_⟩
    · intro other
      simp only [List.mem_append, List.mem_singleton, or_and_right, exists_or, exists_eq_left]
      by_cases fixed : recipe.determinism = .fixed
      · have hd : ¬ IsDistinct policy entry.2.recipeId := by simp [mode, fixed]
        rw [if_pos fixed, mapGet_isSome, List.map_append, List.mem_append, ← mapGet_isSome,
          inv.shared other]
        simp only [List.map_cons, List.map_nil, List.mem_singleton, name]
        constructor
        · rintro (⟨h₁,h₂⟩ | rfl)
          · exact ⟨h₁,Or.inl h₂⟩
          · exact ⟨hd,Or.inr rfl⟩
        · rintro ⟨h₁,h₂ | rfl⟩
          · exact Or.inl ⟨h₁,h₂⟩
          · exact Or.inr rfl
      · have hd : IsDistinct policy entry.2.recipeId := mode.mpr (by
          cases hr : recipe.determinism with
          | fixed => exact absurd hr fixed
          | distinct => rfl)
        rw [if_neg fixed, inv.shared other]
        refine and_congr_right (fun hn => ⟨Or.inl,?_⟩)
        rintro (h | rfl)
        · exact h
        · exact absurd hd hn
    · have opened : workEntry (addSlot (expandedSlot entry recipe)
          { recipe := recipe, distinct := distinctOf entry recipe, members := [], slots := [] }) =
          startedEntry policy entry := by
        rw [workEntry_addSlot]
        simp only [workEntry, startedEntry, distinctOf, name, mode]
      rw [startedWork_concat]
      simp [new, inv.work, opened]

theorem expandSlot_run (h : Coherent policy) (rest done : List Association) (state : Expansion)
    (inv : Expanded policy done state)
    (known : ∀ entry ∈ rest, entry.2.recipeId ∈ recipeNames policy) :
    ∃ state', rest.foldlM (expandSlot policy) state = .ok state' ∧
      Expanded policy (done ++ rest) state' := by
  induction rest generalizing done state with
  | nil => exact ⟨state,rfl,by simpa using inv⟩
  | cons entry rest ih =>
    obtain ⟨next,hn,inv'⟩ := expandSlot_step h inv entry (known entry List.mem_cons_self)
    obtain ⟨final,hf,inv''⟩ := ih (done ++ [entry]) next inv'
      (fun e he => known e (List.mem_cons_of_mem _ he))
    refine ⟨final,?_,by simpa using inv''⟩
    simp only [List.foldlM_cons, bind_ok]
    exact ⟨next,hn,hf⟩

/-- The producer accepts a coherent policy and lists the work its slots start. -/
theorem expandPolicy_work (h : Coherent policy) :
    ∃ plan, expandPolicy policy = .ok plan ∧
      plannedWork plan = startedWork policy [] (associations policy) := by
  have start : Expanded policy [] ⟨[],[],[]⟩ := ⟨by simp [mapGet],rfl⟩
  obtain ⟨state,hs,inv⟩ := expandSlot_run h (associations policy) [] _ start
    (fun _ he => coherent_known h he)
  refine ⟨⟨state.slots,state.executions.map sortMembers⟩,?_,?_⟩
  · simp [expandPolicy, hs, bind, Except.bind, pure, Except.pure]
  · have same : workEntry ∘ sortMembers = workEntry := rfl
    simpa [plannedWork, same] using inv.work

end Producer

section Members

variable {policy : Policy}

/-- Where the loop has put the slots in `done`: each stands in one execution of its recipe. -/
structure Placed (policy : Policy) (done : List Association) (state : Expansion) : Prop where
  shared : ∀ name index, (name,index) ∈ state.shared →
    ∃ e ∈ state.executions[index]?, e.recipe ∈ policy.recipes ∧ e.recipe.recipeId = name
  slots : ∀ e ∈ state.executions, e.members = e.slots.map ExpandedSlot.member ∧
    ∀ slot ∈ e.slots, ∃ entry ∈ done, slot = expandedSlot entry e.recipe ∧
      e.recipe.recipeId = entry.2.recipeId
  members : (state.executions.flatMap ExpandedExecution.members).Perm (done.map memberOf)

theorem flatMap_modify_addSlot {executions : List ExpandedExecution} {index : ℕ}
    {e : ExpandedExecution} (found : executions[index]? = some e) (expanded : ExpandedSlot) :
    ((executions.modify index (addSlot expanded)).flatMap ExpandedExecution.members).Perm
      (executions.flatMap ExpandedExecution.members ++ [expanded.member]) := by
  induction executions generalizing index with
  | nil => simp at found
  | cons first rest ih =>
    cases index with
    | zero =>
      simp only [List.modify_zero_cons, List.flatMap_cons, addSlot, List.append_assoc]
      exact List.Perm.append_left _ List.perm_append_comm
    | succ index =>
      simp only [List.modify_succ_cons, List.flatMap_cons, List.append_assoc]
      exact List.Perm.append_left _ (ih (by simpa using found))

theorem coherent_same_recipe (h : Coherent policy) {a b : Recipe} (ha : a ∈ policy.recipes)
    (hb : b ∈ policy.recipes) (same : a.recipeId = b.recipeId) : a = b :=
  List.inj_on_of_nodup_map h.recipesDistinct ha hb same

theorem expandSlot_places (h : Coherent policy) {done : List Association}
    {state state' : Expansion} (inv : Placed policy done state) {entry : Association}
    (known : entry.2.recipeId ∈ recipeNames policy)
    (step : expandSlot policy state entry = .ok state') : Placed policy (done ++ [entry]) state' := by
  obtain ⟨recipe,hm,name,found⟩ := coherent_recipe h known
  have later : ∀ e ∈ state.executions, ∀ slot ∈ e.slots, ∃ other ∈ done ++ [entry],
      slot = expandedSlot other e.recipe ∧ e.recipe.recipeId = other.2.recipeId := by
    intro e he slot hs
    obtain ⟨other,ho,placed⟩ := (inv.slots e he).2 slot hs
    exact ⟨other,by simp [ho],placed⟩
  simp only [expandSlot, found] at step
  cases hs : sharedExecution state recipe with
  | some index =>
    simp only [hs, pure_ok] at step
    subst step
    have entered : (recipe.recipeId,index) ∈ state.shared := by
      unfold sharedExecution at hs
      split at hs
      · exact mapGet_mem hs
      · simp at hs
    obtain ⟨e,he,inside,same⟩ := inv.shared _ _ entered
    have isRecipe := coherent_same_recipe h inside hm same
    refine ⟨?_,?_,?_⟩
    · intro other i hi
      obtain ⟨e',he',known'⟩ := inv.shared other i hi
      simp only [Option.mem_def] at he' ⊢
      by_cases eq : index = i
      · subst eq
        exact ⟨addSlot (expandedSlot entry recipe) e',by simp [he'],known'⟩
      · exact ⟨e',by simp [eq, he'],known'⟩
    · intro e' he'
      obtain ⟨i,hi,rfl⟩ := List.getElem_of_mem he'
      simp only [List.length_modify] at hi
      have old := inv.slots _ (List.getElem_mem hi)
      have oldSlots := later _ (List.getElem_mem hi)
      rw [List.getElem_modify]
      split
      · next eq =>
        subst eq
        have isE : state.executions[index] = e := by
          simpa [List.getElem?_eq_getElem hi] using he
        rw [isE] at old oldSlots ⊢
        refine ⟨by simp [addSlot, old.1],?_⟩
        intro slot hslot
        rcases List.mem_append.mp hslot with hslot | hslot
        · exact oldSlots slot hslot
        · obtain rfl := List.mem_singleton.mp hslot
          refine ⟨entry,by simp,?_,?_⟩
          · simp only [addSlot, isRecipe]
          · simp only [addSlot, isRecipe, name]
      · exact ⟨old.1,oldSlots⟩
    · rw [List.map_append]
      exact (flatMap_modify_addSlot he _).trans (inv.members.append_right _)
  | none =>
    simp only [hs, pure_ok] at step
    subst step
    refine ⟨?_,?_,?_⟩
    · intro other i hi
      have earlier : (other,i) ∈ state.shared → ∃ e ∈ (state.executions ++ [addSlot
          (expandedSlot entry recipe) ⟨recipe,distinctOf entry recipe,[],[]⟩])[i]?,
          e.recipe ∈ policy.recipes ∧ e.recipe.recipeId = other := by
        intro hi
        obtain ⟨e,he,known'⟩ := inv.shared other i hi
        refine ⟨e,?_,known'⟩
        simp only [Option.mem_def] at he ⊢
        obtain ⟨bound,_⟩ := List.getElem?_eq_some_iff.mp he
        rw [List.getElem?_append_left bound, he]
      simp only at hi
      split at hi
      · rcases List.mem_append.mp hi with hi | hi
        · exact earlier hi
        · obtain ⟨rfl,rfl⟩ := by simpa using hi
          exact ⟨addSlot (expandedSlot entry recipe) ⟨recipe,distinctOf entry recipe,[],[]⟩,by simp,
            hm,rfl⟩
      · exact earlier hi
    · intro e he
      rcases List.mem_append.mp he with he | he
      · exact ⟨(inv.slots e he).1,later e he⟩
      · obtain rfl := List.mem_singleton.mp he
        refine ⟨rfl,fun slot hslot => ⟨entry,by simp,?_,name⟩⟩
        simpa [addSlot] using hslot
    · rw [List.flatMap_append, List.map_append]
      exact inv.members.append_right _

theorem expandSlots_place (h : Coherent policy) {rest done : List Association}
    {state state' : Expansion} (inv : Placed policy done state)
    (known : ∀ entry ∈ rest, entry.2.recipeId ∈ recipeNames policy)
    (run : rest.foldlM (expandSlot policy) state = .ok state') :
    Placed policy (done ++ rest) state' := by
  induction rest generalizing done state with
  | nil =>
    obtain rfl := (pure_ok _ _).mp run
    simpa using inv
  | cons entry rest ih =>
    simp only [List.foldlM_cons, bind_ok] at run
    obtain ⟨next,step,run⟩ := run
    have placed := expandSlot_places h inv (known entry List.mem_cons_self) step
    simpa using ih placed (fun e he => known e (List.mem_cons_of_mem _ he)) run

theorem sortMembers_perm (e : ExpandedExecution) : (sortMembers e).members.Perm e.members :=
  List.perm_insertionSort _ e.members

/-- Every slot of the policy is a member of one physical execution, which runs its recipe. -/
theorem expandPolicy_members (h : Coherent policy) {plan : ExpandedPlan}
    (expanded : expandPolicy policy = .ok plan) :
    (plan.executions.flatMap ExpandedExecution.members).Perm ((associations policy).map memberOf) ∧
      ∀ e ∈ plan.executions, e.members.Perm (e.slots.map ExpandedSlot.member) ∧
        ∀ slot ∈ e.slots, ∃ entry ∈ associations policy, slot = expandedSlot entry e.recipe ∧
          e.recipe.recipeId = entry.2.recipeId := by
  simp only [expandPolicy, bind_ok, pure_ok] at expanded
  obtain ⟨state,run,rfl⟩ := expanded
  have start : Placed policy [] ⟨[],[],[]⟩ := ⟨by simp,by simp,List.Perm.nil⟩
  have placed := expandSlots_place h start (fun entry he => coherent_known h he) run
  rw [List.nil_append] at placed
  refine ⟨?_,?_⟩
  · refine List.Perm.trans ?_ placed.members
    rw [List.flatMap_map]
    exact List.Perm.flatMap_left _ (fun e _ => sortMembers_perm e)
  · intro execution planned
    obtain ⟨e,he,rfl⟩ := List.mem_map.mp planned
    obtain ⟨members,slots⟩ := placed.slots e he
    have sorted := sortMembers_perm e
    rw [members] at sorted
    exact ⟨sorted,slots⟩

/-- The pairs of claim and slot that a coherent policy names are distinct. -/
theorem associations_distinct (h : Coherent policy) :
    ((associations policy).map (fun entry => (entry.1.claimId,entry.2.slotId))).Nodup := by
  rw [associations, List.map_flatMap, List.nodup_flatMap]
  constructor
  · intro record hr
    rw [List.map_map]
    refine List.Nodup.of_map Prod.snd ?_
    rw [List.map_map]
    exact h.slotsDistinct record hr
  · have records := h.recordsDistinct
    rw [List.nodup_iff_pairwise_ne, List.pairwise_map] at records
    refine records.imp (fun {a b} apart => ?_)
    intro key ha hb
    simp only [List.map_map, List.mem_map, Function.comp_apply] at ha hb
    obtain ⟨_,_,rfl⟩ := ha
    obtain ⟨_,_,e⟩ := hb
    exact apart (congrArg Prod.fst e).symm

end Members

section Checker

variable {policy : Policy}

theorem startedWork_filter_distinct {name : ID} (hd : IsDistinct policy name)
    (before rest : List Association) :
    (startedWork policy before rest).filter (fun w => w.1 = name) =
      (rest.filter (fun entry => entry.2.recipeId = name)).map (startedEntry policy) := by
  induction rest generalizing before with
  | nil => rfl
  | cons entry rest ih =>
    by_cases e : entry.2.recipeId = name
    · have new : StartsExecution policy before entry := Or.inl (e ▸ hd)
      simp [startedWork, new, e, ih, startedEntry]
    · by_cases new : StartsExecution policy before entry <;>
        simp [startedWork, new, e, ih, startedEntry]

theorem startedWork_filter_fixed {name : ID} (hd : ¬ IsDistinct policy name)
    (before rest : List Association) :
    (startedWork policy before rest).filter (fun w => w.1 = name) =
      if (∃ b ∈ before, b.2.recipeId = name) ∨ ∀ b ∈ rest, b.2.recipeId ≠ name then []
      else [(name,none)] := by
  induction rest generalizing before with
  | nil => simp [startedWork]
  | cons entry rest ih =>
    by_cases e : entry.2.recipeId = name
    · by_cases seen : ∃ b ∈ before, b.2.recipeId = name
      · obtain ⟨b,hb,hn⟩ := seen
        have old : ¬ StartsExecution policy before entry :=
          not_or.mpr ⟨e ▸ hd,fun fresh => fresh b hb (hn.trans e.symm)⟩
        have seen' : ∃ b ∈ before ++ [entry], b.2.recipeId = name := ⟨b,by simp [hb],hn⟩
        rw [startedWork, if_neg old, ih, if_pos (Or.inl seen'), if_pos (Or.inl ⟨b,hb,hn⟩)]
      · have new : StartsExecution policy before entry :=
          Or.inr (fun b hb hn => seen ⟨b,hb,hn.trans e⟩)
        have seen' : ∃ b ∈ before ++ [entry], b.2.recipeId = name := ⟨entry,by simp,e⟩
        have first : ¬ ((∃ b ∈ before, b.2.recipeId = name) ∨
            ∀ b ∈ entry :: rest, b.2.recipeId ≠ name) :=
          not_or.mpr ⟨seen,fun h => h entry List.mem_cons_self e⟩
        rw [startedWork, if_pos new, List.filter_cons, if_pos (by simp [startedEntry, e]), ih,
          if_pos (Or.inl seen'), if_neg first]
        simp [startedEntry, e, hd]
    · have same : (startedWork policy before (entry :: rest)).filter (fun w => w.1 = name) =
          (startedWork policy (before ++ [entry]) rest).filter (fun w => w.1 = name) := by
        by_cases new : StartsExecution policy before entry <;>
          simp [startedWork, new, startedEntry, e]
      rw [same, ih]
      refine if_congr ?_ rfl rfl
      simp [e, or_and_right, exists_or]

theorem flatMap_slots (name : ID) (f : Association → WorkEntry) :
    policy.records.flatMap (fun record =>
      (record.executions.filter (fun slot => slot.recipeId = name)).map
        (fun slot => f (record,slot))) =
    ((associations policy).filter (fun entry => entry.2.recipeId = name)).map f := by
  simp [associations, List.filter_flatMap, List.map_flatMap, List.filter_map, Function.comp_def]

theorem coherent_named (h : Coherent policy) {recipe : Recipe} (hm : recipe ∈ policy.recipes) :
    ∃ entry ∈ associations policy, entry.2.recipeId = recipe.recipeId := by
  obtain ⟨record,hr,hu⟩ := List.mem_flatMap.mp (h.recipesUsed recipe hm)
  obtain ⟨slot,hs,e⟩ := List.mem_map.mp hu
  exact ⟨(record,slot),mem_associations.mpr ⟨hr,hs⟩,e⟩

/-- The checker lists the same work in blocks, one for each declared recipe. -/
theorem physicalExpansion_eq_grouped (h : Coherent policy) :
    physicalExpansion policy =
      grouped Prod.fst (recipeNames policy) (startedWork policy [] (associations policy)) := by
  rw [physicalExpansion, grouped, recipeNames, List.flatMap_map]
  refine List.flatMap_congr ?_
  intro recipe hm
  have mode := coherent_isDistinct h hm
  cases hd : recipe.determinism with
  | fixed =>
    have fixed : ¬ IsDistinct policy recipe.recipeId := by simp [mode, hd]
    obtain ⟨entry,he,e⟩ := coherent_named h hm
    have first : ¬ ((∃ b ∈ ([] : List Association), b.2.recipeId = recipe.recipeId) ∨
        ∀ b ∈ associations policy, b.2.recipeId ≠ recipe.recipeId) :=
      not_or.mpr ⟨by simp,fun none => none entry he e⟩
    rw [startedWork_filter_fixed fixed, if_neg first]
    rfl
  | distinct =>
    have distinct : IsDistinct policy recipe.recipeId := mode.mpr hd
    rw [startedWork_filter_distinct distinct, ← flatMap_slots]
    simp only [reduceCtorEq, ite_false]
    refine List.flatMap_congr (fun record _ => List.map_congr_left ?_)
    intro slot hslot
    have e : slot.recipeId = recipe.recipeId := by simpa using (List.mem_filter.mp hslot).2
    simp [startedEntry, e, distinct]

theorem startedWork_covered (before rest : List Association)
    (known : ∀ entry ∈ rest, entry.2.recipeId ∈ recipeNames policy) :
    ∀ w ∈ startedWork policy before rest, w.1 ∈ recipeNames policy := by
  induction rest generalizing before with
  | nil => simp [startedWork]
  | cons entry rest ih =>
    intro w hw
    have later := ih (before ++ [entry]) (fun e he => known e (List.mem_cons_of_mem _ he)) w
    rw [startedWork] at hw
    split at hw
    · rcases List.mem_cons.mp hw with rfl | hw
      · exact known entry List.mem_cons_self
      · exact later hw
    · exact later hw

/-- Started work is in recipe order when each starting slot looks back at no later recipe. -/
theorem startedWork_inKeyOrder (before rest : List Association) :
    (InKeyOrder Prod.fst (recipeNames policy) (startedWork policy before rest) ∧
      ∀ b ∈ before, ∀ w ∈ startedWork policy before rest,
        recipeIndex policy b ≤ (recipeNames policy).idxOf w.1) ↔
    Prefixwise (fun mid entry => StartsExecution policy (before ++ mid) entry →
      ∀ b ∈ before ++ mid, recipeIndex policy b ≤ recipeIndex policy entry) rest := by
  induction rest generalizing before with
  | nil => simp [startedWork, InKeyOrder, prefixwise_nil]
  | cons entry rest ih =>
    have shift := ih (before ++ [entry])
    simp only [List.append_assoc, List.singleton_append] at shift
    rw [prefixwise_cons, ← shift, List.append_nil]
    by_cases new : StartsExecution policy before entry
    · simp only [startedWork, new, ite_true, InKeyOrder, List.pairwise_cons, List.mem_cons,
        List.mem_append, or_imp, forall_and, forall_eq, true_imp_iff]
      simp only [startedEntry, recipeIndex]
      tauto
    · obtain ⟨b,hb,e⟩ : ∃ b ∈ before, b.2.recipeId = entry.2.recipeId := by
        simpa [StartsExecution] using (not_or.mp new).2
      have same : recipeIndex policy entry = recipeIndex policy b := by
        rw [recipeIndex, recipeIndex, e]
      simp only [startedWork, new, ite_false, false_imp_iff, true_and, List.mem_append,
        List.mem_singleton, or_imp, forall_and, forall_eq, same]
      exact ⟨fun h => ⟨h.1,h.2,h.2 b hb⟩,fun h => ⟨h.1,h.2.1⟩⟩

/-- The two lists agree exactly when first uses follow the declared recipes. -/
theorem startedWork_eq_physicalExpansion_iff (h : Coherent policy) :
    startedWork policy [] (associations policy) = physicalExpansion policy ↔
      RecipesFirstUsedInOrder policy := by
  have order := @startedWork_inKeyOrder policy [] (associations policy)
  simp only [List.not_mem_nil, false_imp_iff, implies_true, and_true, List.nil_append] at order
  rw [physicalExpansion_eq_grouped h, eq_comm, RecipesFirstUsedInOrder, ← order]
  exact grouped_eq_self_iff h.recipesDistinct
    (startedWork_covered [] _ (fun _ he => coherent_known h he))

end Checker

variable (H : List String → Hash)

/-- On every accepted policy the producer's work list is the checker's exactly
when slots first name recipes in declared order. -/
theorem plannedWork_eq_physicalExpansion_iff (policy : Policy)
    (accepted : validatePolicy H policy = .ok policy) :
    ∃ plan, expandPolicy policy = .ok plan ∧
      (plannedWork plan = physicalExpansion policy ↔ RecipesFirstUsedInOrder policy) := by
  have coherent := (validatePolicy_ok H accepted).2
  obtain ⟨plan,expanded,work⟩ := expandPolicy_work coherent
  refine ⟨plan,expanded,?_⟩
  rw [work]
  exact startedWork_eq_physicalExpansion_iff coherent

/-- A digest of a name list for concrete policies; the zero byte occurs in no name. -/
def joinNames (names : List String) : Hash := String.intercalate "\x00" names

def sampleSlot (slot recipe tool : String) : PolicySlot :=
  ⟨slot,recipe,tool,⟨"report.json",""⟩⟩

def samplePolicy (recipes : List Recipe) (slots : List PolicySlot) : Policy :=
  { policyId := "policy", intentPath := "intent.md", definitionFiles := []
    environment := ⟨[⟨"linux","x64"⟩],["PATH"],[],["PATH"]⟩
    toolchains := [], preflight := []
    claimChecker := ⟨"checker",["check"],".",[],[],some 60⟩
    recipes := recipes
    records := [⟨"claim",true,.boundedChecked,"scope",slots⟩]
    maxJobs := 2 }

def orderedPolicy : Policy :=
  samplePolicy [sampleRecipe "a" .fixed,sampleRecipe "b" .distinct]
    [sampleSlot "s1" "a" "t1",sampleSlot "s2" "b" "t2",sampleSlot "s3" "b" "t3"]

/-- The second declared recipe is the first one used. -/
def reorderedPolicy : Policy :=
  samplePolicy [sampleRecipe "a" .fixed,sampleRecipe "b" .distinct]
    [sampleSlot "s1" "b" "t1",sampleSlot "s2" "a" "t2"]

theorem plannedWork_orderedPolicy :
    ∃ plan, expandPolicy orderedPolicy = .ok plan ∧
      (plannedWork plan = physicalExpansion orderedPolicy ↔
        RecipesFirstUsedInOrder orderedPolicy) :=
  plannedWork_eq_physicalExpansion_iff joinNames orderedPolicy (by decide +kernel)

/-- An accepted policy whose two work lists differ. -/
theorem plannedWork_ne_physicalExpansion :
    ∃ policy plan, validatePolicy joinNames policy = .ok policy ∧
      expandPolicy policy = .ok plan ∧ plannedWork plan ≠ physicalExpansion policy := by
  refine ⟨reorderedPolicy,_,by decide +kernel,rfl,by decide +kernel⟩

end PolicyExpansion

end EvidenceV4
