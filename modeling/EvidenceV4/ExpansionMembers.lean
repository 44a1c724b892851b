import EvidenceV4.PolicyExpansion
import EvidenceV4.StoreDocument
import EvidenceV4.Utf8Order

/-!
# Members of planned executions

Every slot of an accepted policy is planned exactly once. A fixed recipe has
one execution that gathers all its slots, a distinct recipe has one execution
for each slot, and the member list of an execution passes the checks that a
descriptor makes on its membership.
-/

set_option autoImplicit false

namespace EvidenceV4

namespace ExpansionMembers

open CheckedExcept Schema PolicyDocument PolicyExpansion StoreDocument Utf8Order

abbrev SlotName := ID × ID

def associationName (entry : Association) : SlotName := (entry.1.claimId,entry.2.slotId)

def expandedName (slot : ExpandedSlot) : SlotName := (slot.claimId,slot.slotId)

def memberName (m : Member) : SlotName := (m.claimId,m.slotId)

/-- The slots that name one recipe. -/
def uses (name : ID) (entries : List Association) : List Association :=
  entries.filter (fun entry => entry.2.recipeId = name)

/-- Distinct slot and members of the executions of one recipe. -/
def executionsOf (executions : List ExpandedExecution) (name : ID) :
    List (Option DistinctSlot × List Member) :=
  (executions.filter (fun e => e.recipe.recipeId = name)).map (fun e => (e.distinct,e.members))

def ownExecution (entry : Association) : Option DistinctSlot × List Member :=
  (some ⟨entry.1.claimId,entry.2.slotId⟩,[memberOf entry])

/-- What the executions of one recipe hold after the slots in `done`. -/
def gathered (policy : Policy) (name : ID) (done : List Association) :
    List (Option DistinctSlot × List Member) :=
  if IsDistinct policy name then (uses name done).map ownExecution
  else if uses name done = [] then []
  else [(none,(uses name done).map memberOf)]

structure Gathered (policy : Policy) (done : List Association) (state : Expansion) : Prop where
  slots : state.slots.map expandedName = done.map associationName
  recipes : ∀ e ∈ state.executions, e.recipe ∈ policy.recipes
  executions : ∀ name, executionsOf state.executions name = gathered policy name done

section Loop

variable {policy : Policy}

/-- What one slot of the loop can do. -/
theorem expandSlot_cases (h : Coherent policy) {state state' : Expansion} {entry : Association}
    (known : entry.2.recipeId ∈ recipeNames policy)
    (step : expandSlot policy state entry = .ok state') :
    ∃ recipe ∈ policy.recipes, recipe.recipeId = entry.2.recipeId ∧
      state'.slots = state.slots ++ [expandedSlot entry recipe] ∧
      ((∃ index, sharedExecution state recipe = some index ∧
          state'.executions =
            state.executions.modify index (addSlot (expandedSlot entry recipe))) ∨
        (sharedExecution state recipe = none ∧
          state'.executions = state.executions ++ [addSlot (expandedSlot entry recipe)
            ⟨recipe,distinctOf entry recipe,[],[]⟩])) := by
  obtain ⟨recipe,hm,name,found⟩ := coherent_recipe h known
  simp only [expandSlot, found] at step
  cases hs : sharedExecution state recipe with
  | some index =>
    simp only [hs, pure_ok] at step
    subst step
    exact ⟨recipe,hm,name,rfl,Or.inl ⟨index,hs,rfl⟩⟩
  | none =>
    simp only [hs, pure_ok] at step
    subst step
    exact ⟨recipe,hm,name,rfl,Or.inr ⟨hs,rfl⟩⟩

theorem executionsOf_append (a b : List ExpandedExecution) (name : ID) :
    executionsOf (a ++ b) name = executionsOf a name ++ executionsOf b name := by
  simp [executionsOf]

theorem executionsOf_eq_nil {executions : List ExpandedExecution} {name : ID}
    (h : executionsOf executions name = []) : ∀ e ∈ executions, e.recipe.recipeId ≠ name := by
  simpa [executionsOf] using h

theorem executionsOf_modify_other {executions : List ExpandedExecution} {index : ℕ}
    {e : ExpandedExecution} {name : ID} (slot : ExpandedSlot)
    (found : executions[index]? = some e) (other : e.recipe.recipeId ≠ name) :
    executionsOf (executions.modify index (addSlot slot)) name = executionsOf executions name := by
  induction executions generalizing index with
  | nil => simp at found
  | cons first rest ih =>
    cases index with
    | zero =>
      obtain rfl : first = e := by simpa using found
      simp [executionsOf, addSlot, other]
    | succ index =>
      have later := ih (by simpa using found)
      rw [List.modify_succ_cons, ← List.singleton_append, executionsOf_append, later,
        ← executionsOf_append, List.singleton_append]

theorem executionsOf_modify {executions : List ExpandedExecution} {index : ℕ}
    {e : ExpandedExecution} {name : ID} {work : Option DistinctSlot × List Member}
    (slot : ExpandedSlot) (found : executions[index]? = some e) (same : e.recipe.recipeId = name)
    (only : executionsOf executions name = [work]) :
    executionsOf (executions.modify index (addSlot slot)) name =
      [(work.1,work.2 ++ [slot.member])] := by
  induction executions generalizing index with
  | nil => simp at found
  | cons first rest ih =>
    rw [← List.singleton_append, executionsOf_append] at only
    cases index with
    | zero =>
      obtain rfl : first = e := by simpa using found
      have one : executionsOf [first] name = [(first.distinct,first.members)] := by
        simp [executionsOf, same]
      rw [one] at only
      obtain ⟨rfl,none⟩ := List.cons.inj only
      rw [List.modify_zero_cons, ← List.singleton_append, executionsOf_append]
      change executionsOf rest name = [] at none
      rw [none]
      simp [executionsOf, addSlot, same]
    | succ index =>
      have inside : e ∈ rest := List.mem_of_getElem? (by simpa using found)
      have skipped : executionsOf [first] name = [] := by
        by_contra some
        have some' : executionsOf rest name = [] := by
          cases hf : executionsOf [first] name with
          | nil => exact absurd hf some
          | cons a as =>
            rw [hf] at only
            exact (List.append_eq_nil_iff.mp (List.cons.inj only).2).2
        exact executionsOf_eq_nil some' e inside same
      rw [skipped, List.nil_append] at only
      rw [List.modify_succ_cons, ← List.singleton_append, executionsOf_append, skipped,
        List.nil_append]
      exact ih (by simpa using found) only

theorem recipes_modify {executions : List ExpandedExecution}
    (h : ∀ e ∈ executions, e.recipe ∈ policy.recipes) (index : ℕ) (slot : ExpandedSlot) :
    ∀ e ∈ executions.modify index (addSlot slot), e.recipe ∈ policy.recipes := by
  intro e he
  obtain ⟨i,hi,rfl⟩ := List.getElem_of_mem he
  rw [List.length_modify] at hi
  have old := h _ (List.getElem_mem hi)
  rw [List.getElem_modify]
  split
  · exact old
  · exact old

theorem uses_concat (name : ID) (done : List Association) (entry : Association) :
    uses name (done ++ [entry]) =
      uses name done ++ if entry.2.recipeId = name then [entry] else [] := by
  simp [uses, List.filter_append, List.filter_cons]

theorem gathered_concat_other {name : ID} (done : List Association) {entry : Association}
    (other : entry.2.recipeId ≠ name) :
    gathered policy name (done ++ [entry]) = gathered policy name done := by
  simp [gathered, uses_concat, other]

theorem gathered_concat_distinct {name : ID} (distinct : IsDistinct policy name)
    (done : List Association) {entry : Association} (same : entry.2.recipeId = name) :
    gathered policy name (done ++ [entry]) =
      gathered policy name done ++ [ownExecution entry] := by
  simp [gathered, distinct, uses_concat, same]

theorem gathered_concat_fixed {name : ID} (fixed : ¬ IsDistinct policy name)
    (done : List Association) {entry : Association} (same : entry.2.recipeId = name) :
    gathered policy name (done ++ [entry]) =
      [(none,(uses name done).map memberOf ++ [memberOf entry])] := by
  simp [gathered, fixed, uses_concat, same]

/-- A recipe that already has a shared execution is fixed and has been used. -/
theorem sharedExecution_some {done : List Association} {state : Expansion}
    (inv : Expanded policy done state) {recipe : Recipe} {index : ℕ}
    (shared : sharedExecution state recipe = some index) :
    (recipe.recipeId,index) ∈ state.shared ∧ ¬ IsDistinct policy recipe.recipeId ∧
      uses recipe.recipeId done ≠ [] := by
  have fixed : recipe.determinism = .fixed := by
    by_contra hf
    simp [sharedExecution, hf] at shared
  have found : mapGet state.shared recipe.recipeId = some index := by
    simpa [sharedExecution, fixed] using shared
  obtain ⟨notDistinct,b,hb,same⟩ := (inv.shared recipe.recipeId).mp (found ▸ rfl)
  refine ⟨mapGet_mem found,notDistinct,?_⟩
  apply List.ne_nil_of_mem
  exact List.mem_filter.mpr ⟨hb,by simp [same]⟩

theorem sharedExecution_none {done : List Association} {state : Expansion}
    (inv : Expanded policy done state) {recipe : Recipe}
    (fixed : recipe.determinism = .fixed) (notDistinct : ¬ IsDistinct policy recipe.recipeId)
    (shared : sharedExecution state recipe = none) : uses recipe.recipeId done = [] := by
  have unseen : mapGet state.shared recipe.recipeId = none := by
    simpa [sharedExecution, fixed] using shared
  by_contra used
  obtain ⟨b,hb⟩ := List.exists_mem_of_ne_nil _ used
  have seen := (inv.shared recipe.recipeId).mpr
    ⟨notDistinct,b,(List.mem_filter.mp hb).1,by simpa using (List.mem_filter.mp hb).2⟩
  simp [unseen] at seen

theorem expandSlot_gathers (h : Coherent policy) {done : List Association}
    {state state' : Expansion} (inv : Expanded policy done state) (placed : Placed policy done state)
    (old : Gathered policy done state) {entry : Association}
    (known : entry.2.recipeId ∈ recipeNames policy)
    (step : expandSlot policy state entry = .ok state') :
    Gathered policy (done ++ [entry]) state' := by
  obtain ⟨recipe,hm,name,slots,how⟩ := expandSlot_cases h known step
  have mode := coherent_isDistinct h hm
  refine ⟨?_,?_,?_⟩
  · rw [slots, List.map_append, old.slots, List.map_append]
    rfl
  · rcases how with ⟨index,_,executions⟩ | ⟨_,executions⟩
    · rw [executions]
      exact recipes_modify old.recipes index _
    · rw [executions]
      intro e he
      rcases List.mem_append.mp he with he | he
      · exact old.recipes e he
      · obtain rfl := List.mem_singleton.mp he
        exact hm
  intro other
  rcases how with ⟨index,shared,executions⟩ | ⟨shared,executions⟩
  · obtain ⟨entered,fixed,used⟩ := sharedExecution_some inv shared
    obtain ⟨e,found,_,same⟩ := placed.shared _ _ entered
    rw [executions]
    by_cases here : recipe.recipeId = other
    · subst here
      have before := old.executions recipe.recipeId
      rw [gathered, if_neg fixed, if_neg used] at before
      rw [executionsOf_modify _ found same before, gathered_concat_fixed fixed done name.symm]
      rfl
    · rw [executionsOf_modify_other _ found (same ▸ here), old.executions,
        gathered_concat_other done (name ▸ here)]
  · rw [executions, executionsOf_append, old.executions]
    by_cases here : recipe.recipeId = other
    · subst here
      by_cases distinct : IsDistinct policy recipe.recipeId
      · rw [gathered_concat_distinct distinct done name.symm]
        simp [executionsOf, addSlot, distinctOf, mode.mp distinct, ownExecution, expandedSlot]
      · have fixed : recipe.determinism = .fixed := by
          cases hr : recipe.determinism with
          | fixed => rfl
          | distinct => exact absurd (mode.mpr hr) distinct
        have unused := sharedExecution_none inv fixed distinct shared
        rw [gathered_concat_fixed distinct done name.symm, gathered, if_neg distinct,
          if_pos unused, unused]
        simp [executionsOf, addSlot, distinctOf, fixed, expandedSlot]
    · rw [gathered_concat_other done (name ▸ here)]
      simp [executionsOf, addSlot, here]

theorem expandSlots_gather (h : Coherent policy) {rest done : List Association}
    {state state' : Expansion} (inv : Expanded policy done state) (placed : Placed policy done state)
    (old : Gathered policy done state)
    (known : ∀ entry ∈ rest, entry.2.recipeId ∈ recipeNames policy)
    (run : rest.foldlM (expandSlot policy) state = .ok state') :
    Gathered policy (done ++ rest) state' := by
  induction rest generalizing done state with
  | nil =>
    obtain rfl := (pure_ok _ _).mp run
    simpa using old
  | cons entry rest ih =>
    have first := known entry List.mem_cons_self
    obtain ⟨next,step,inv'⟩ := expandSlot_step h inv entry first
    have placed' := expandSlot_places h placed first step
    have gathered' := expandSlot_gathers h inv placed old first step
    simp only [List.foldlM_cons, step, bind, Except.bind] at run
    simpa using ih inv' placed' gathered' (fun e he => known e (List.mem_cons_of_mem _ he)) run

end Loop

section Order

def memberBytes (m : Member) : List (List UInt8) := [utf8Bytes m.claimId,utf8Bytes m.slotId]

theorem memberBytes_lt {a b : Member} :
    memberBytes a < memberBytes b ↔ utf8Bytes a.claimId < utf8Bytes b.claimId ∨
      a.claimId = b.claimId ∧ utf8Bytes a.slotId < utf8Bytes b.slotId := by
  simp [memberBytes, List.cons_lt_cons_iff, utf8Bytes_injective.eq_iff]

theorem memberOrder_iff (a b : Member) : memberOrder a b ↔ ¬ memberBytes b < memberBytes a := by
  rw [memberBytes_lt, memberOrder]
  rcases utf8Bytes_trichotomy a.claimId b.claimId with less | same | more
  · have apart : b.claimId ≠ a.claimId := by
      intro same
      rw [same] at less
      exact List.lt_irrefl _ less
    simp [utf8Compare_lt.mpr less, List.lt_asymm less, apart]
  · rw [same, utf8Compare_eq.mpr rfl]
    simp [List.lt_irrefl, ← utf8Compare_gt]
  · simp [utf8Compare_gt.mpr more, more]

theorem memberOrder_pairwise (ms : List Member) :
    (ms.insertionSort (fun a b => memberOrder a b)).Pairwise (fun a b => memberOrder a b) := by
  have total : Std.Total (fun a b : Member => memberOrder a b = true) := by
    constructor
    intro a b
    rw [memberOrder_iff, memberOrder_iff]
    exact List.le_total _ _
  have transitive : IsTrans Member (fun a b => memberOrder a b = true) := by
    constructor
    intro a b c
    rw [memberOrder_iff, memberOrder_iff, memberOrder_iff]
    exact List.le_trans
  exact List.pairwise_insertionSort _ ms

theorem ascii_utf8 {c : Char} (h : c.toNat < 128) : String.utf8EncodeChar c = [c.val.toUInt8] := by
  apply String.utf8EncodeChar_eq_singleton
  rw [Char.utf8Size_eq_one_iff, UInt32.le_iff_toNat_le]
  show c.toNat ≤ 127
  omega

theorem spelled_all {first rest P : Char → Bool} {value : String} (h : spelled first rest value)
    (hf : ∀ c, first c → P c) (hr : ∀ c, rest c → P c) : ∀ c ∈ value.toList, P c := by
  unfold spelled at h
  split at h
  · exact absurd h (by simp)
  · next c cs e =>
    rw [Bool.and_eq_true, List.all_eq_true] at h
    intro x hx
    rw [e] at hx
    rcases List.mem_cons.mp hx with rfl | hx
    · exact hf _ h.1
    · exact hr x (h.2 x hx)

def plainCharacter (c : Char) : Bool := 0 < c.toNat && c.toNat < 128

theorem letter_plain {c : Char} (h : isLetter c) : plainCharacter c := by
  simp only [isLetter, plainCharacter, Bool.or_eq_true, Bool.and_eq_true, decide_eq_true_eq] at h ⊢
  omega

theorem digit_plain {c : Char} (h : isDigit c) : plainCharacter c := by
  simp only [isDigit, plainCharacter, Bool.and_eq_true, decide_eq_true_eq] at h ⊢
  omega

theorem idGrammar_plain {value : String} (h : idGrammar value) :
    ∀ c ∈ value.toList, plainCharacter c := by
  apply spelled_all h
  · intro c hc
    rcases Bool.or_eq_true _ _ |>.mp hc with hc | hc
    · exact letter_plain hc
    · exact digit_plain hc
  · intro c hc
    simp only [Bool.or_eq_true, beq_iff_eq] at hc
    rcases hc with (((hc | hc) | rfl) | rfl) | rfl
    · exact letter_plain hc
    · exact digit_plain hc
    · rfl
    · rfl
    · rfl

/-- Every byte of an identifier is above the separator of joined keys. -/
theorem idGrammar_bytes {value : String} (h : idGrammar value) : ∀ b ∈ utf8Bytes value, 0 < b := by
  rw [utf8Bytes_eq]
  intro b hb
  obtain ⟨c,hc,inside⟩ := List.mem_flatMap.mp hb
  have plain := idGrammar_plain h c hc
  simp only [plainCharacter, Bool.and_eq_true, decide_eq_true_eq] at plain
  rw [ascii_utf8 plain.2] at inside
  obtain rfl := List.mem_singleton.mp inside
  rw [UInt8.lt_iff_toNat_lt]
  have value : c.val.toUInt8.toNat = c.toNat := by
    rw [UInt32.toNat_toUInt8]
    exact Nat.mod_eq_of_lt (by exact plain.2.trans (by decide))
  rw [value]
  exact plain.1

theorem memberKey_bytes (m : Member) :
    utf8Bytes (memberKey m) = utf8Bytes m.claimId ++ 0 :: utf8Bytes m.slotId := by
  have separator : utf8Bytes "\x00" = [0] := by decide
  rw [memberKey, utf8Bytes_append, utf8Bytes_append, separator, List.append_assoc,
    List.singleton_append]

/-- Joined keys order members as the pairs of their names. -/
theorem memberKey_lt {a b : Member} (hb : idGrammar b.claimId) (h : memberBytes a < memberBytes b) :
    utf8Bytes (memberKey a) < utf8Bytes (memberKey b) := by
  rw [memberKey_bytes, memberKey_bytes]
  rcases memberBytes_lt.mp h with claim | ⟨same,slot⟩
  · exact append_separator_lt _ _ (idGrammar_bytes hb) claim
  · rw [same]
    exact append_separator_lt_same _ slot

theorem memberBytes_injective {a b : Member} (h : memberBytes a = memberBytes b) :
    memberName a = memberName b := by
  simp only [memberBytes, List.cons.injEq, and_true, utf8Bytes_injective.eq_iff] at h
  exact Prod.ext h.1 h.2

/-- Sorted members with distinct names pass the order check of the descriptor. -/
theorem sorted_ascending {ms : List Member} (named : ∀ m ∈ ms, idGrammar m.claimId)
    (distinct : (ms.map memberName).Nodup) :
    Ascending ((ms.insertionSort (fun a b => memberOrder a b)).map memberKey) := by
  have perm := List.perm_insertionSort (fun a b => memberOrder a b) ms
  have distinct' := (perm.map memberName).nodup_iff.mpr distinct
  apply ascending_of_pairwise
  rw [List.pairwise_map]
  rw [List.nodup_iff_pairwise_ne, List.pairwise_map] at distinct'
  apply ((memberOrder_pairwise ms).and distinct').imp_of_mem
  intro a b _ hb ⟨order,apart⟩
  apply memberKey_lt (named b (perm.mem_iff.mp hb))
  rcases List.le_iff_lt_or_eq.mp (List.not_lt.mp ((memberOrder_iff a b).mp order)) with less | same
  · exact less
  · exact absurd (memberBytes_injective same) apart

end Order

def member : Validator Member := fun v w => do
  Schema.id v.claimId (w ++ ".claim_id")
  Schema.id v.slotId (w ++ ".slot_id")
  tool v.tool (w ++ ".tool")

def membersSchema : Validator (List Member) := Schema.set member memberKey 1

variable (D : Digests)

/-- The checks of a descriptor that do not concern its membership. -/
def validateBesidesMembership (x : ExecutionDescriptor) : Except String Unit := do
  ensure (Ascending (x.toolchain.map ToolIdentity.id)) "ExecutionDescriptor.toolchain"
    "set is duplicate or not UTF-8 ordered"
  validateClosure D x.closure
  validateEnvironmentIdentity x.environment
  forM x.toolchain (validateToolIdentity D)
  let required ← descriptorTools x
  CheckedExcept.check (required.length = x.toolchain.length)
    "descriptor includes undeclared tool identities"
  CheckedExcept.check (∀ t ∈ x.toolchain, t.id = "fv-producer" → t.producerRuntime)
    "reserved producer locator mismatch"
  CheckedExcept.check
    (x.recipe.buildCache.map BuildCache.system = x.buildCache.map BuildCacheIdentity.system)
    "descriptor cache system mismatch"

/-- The schema accepts the members, and the validator answers as if it did not look at them. -/
def MembershipAccepted (x : ExecutionDescriptor) : Prop :=
  membersSchema x.members "ExecutionDescriptor.members" = .ok () ∧
    ∀ D, validateExecutionDescriptor D x = validateBesidesMembership D x

structure PlannedOnce (policy : Policy) (plan : ExpandedPlan) : Prop where
  slotOnce : ∀ entry ∈ associations policy,
    (plan.slots.map expandedName).count (associationName entry) = 1
  memberOnce : ∀ entry ∈ associations policy,
    (plan.executions.flatMap (fun e => e.members.map memberName)).count (associationName entry) = 1
  onlySlots : ∀ slot ∈ plan.slots, ∃ entry ∈ associations policy,
    expandedName slot = associationName entry
  onlyMembers : ∀ e ∈ plan.executions, e.recipe ∈ policy.recipes ∧
    ∀ m ∈ e.members, ∃ entry ∈ associations policy, m = memberOf entry
  fixedRecipe : ∀ recipe ∈ policy.recipes, recipe.determinism = .fixed →
    ∃ members, executionsOf plan.executions recipe.recipeId = [(none,members)] ∧
      members.Perm ((uses recipe.recipeId (associations policy)).map memberOf)
  distinctRecipe : ∀ recipe ∈ policy.recipes, recipe.determinism = .distinct →
    executionsOf plan.executions recipe.recipeId =
      (uses recipe.recipeId (associations policy)).map ownExecution
  filled : ∀ e ∈ plan.executions, e.members ≠ []
  membership : ∀ e ∈ plan.executions, ∀ x : ExecutionDescriptor, x.recipe = e.recipe →
    x.members = e.members → x.distinctSlot = e.distinct → MembershipAccepted x

section Plan

variable {policy : Policy}

theorem policySchema_names {w : String} (h : policySchema policy w = .ok ()) :
    ∀ entry ∈ associations policy, idGrammar entry.1.claimId ∧ idGrammar entry.2.slotId ∧
      toolGrammar entry.2.tool := by
  simp only [policySchema, bind_ok] at h
  obtain ⟨_,_,_,_,_,_,_,_,_,_,_,_,_,_,_,_,_,hrecords,_⟩ := h
  intro entry he
  obtain ⟨hr,hs⟩ := mem_associations.mp he
  obtain ⟨place,record⟩ := (unique_ok hrecords).1.2 entry.1 hr
  simp only [policyRecord, bind_ok] at record
  obtain ⟨_,claim,_,_,slots⟩ := record
  obtain ⟨place',slot⟩ := (unique_ok slots).1.2 entry.2 hs
  simp only [policySlot, bind_ok] at slot
  obtain ⟨_,name,_,_,_,tool,_⟩ := slot
  simp only [Schema.id, Schema.tool, matching, ensure_ok] at claim name tool
  exact ⟨claim,name,tool⟩

theorem array_accepts {α : Type} {validate : Validator α} {least : ℕ} {v : List α} {w : String}
    (long : least ≤ v.length) (each : ∀ x ∈ v, ∀ place, validate x place = .ok ()) :
    array validate least v w = .ok () := by
  simp only [array, bind_ok, ensure_ok, forM_ok]
  refine ⟨⟨⟩,long,?_⟩
  intro entry inside
  exact each _ (List.fst_mem_of_mem_zipIdx inside) _

theorem membersSchema_accepts {ms : List Member} {w : String} (filled : ms ≠ [])
    (named : ∀ m ∈ ms, idGrammar m.claimId ∧ idGrammar m.slotId ∧ toolGrammar m.tool)
    (order : Ascending (ms.map memberKey)) : membersSchema ms w = .ok () := by
  have each : ∀ m ∈ ms, ∀ place, member m place = .ok () := by
    intro m hm place
    simp [member, Schema.id, Schema.tool, matching, bind_ok, ensure_ok, named m hm]
  simp only [membersSchema, Schema.set, bind_ok, ensure_ok]
  exact ⟨⟨⟩,array_accepts (List.length_pos_iff.mpr filled) each,order⟩

/-- Passing membership checks leave the other checks of a descriptor as they are. -/
theorem validateExecutionDescriptor_besides {x : ExecutionDescriptor} (filled : x.members ≠ [])
    (order : Ascending (x.members.map memberKey))
    (fixed : x.recipe.determinism = .fixed → x.distinctSlot = none)
    (distinct : x.recipe.determinism = .distinct → x.distinctSlot.isSome ∧
      x.members.map (fun m => some ⟨m.claimId,m.slotId⟩) = [x.distinctSlot]) :
    validateExecutionDescriptor D x = validateBesidesMembership D x := by
  have members : StoreDocument.members x.members "ExecutionDescriptor.members" = .ok () := by
    simp only [StoreDocument.members, bind_ok, ensure_ok]
    exact ⟨⟨⟩,filled,order⟩
  rw [validateExecutionDescriptor, members, check_of _ _ fixed, check_of _ _ distinct]
  rfl

theorem executionsOf_sortMembers (executions : List ExpandedExecution) (name : ID) :
    executionsOf (executions.map sortMembers) name = (executionsOf executions name).map
      (fun work => (work.1,work.2.insertionSort (fun a b => memberOrder a b))) := by
  rw [executionsOf, List.filter_map, List.map_map, executionsOf, List.map_map]
  rfl

/-- What the loop leaves behind when all slots are placed. -/
theorem expandPolicy_gathered (h : Coherent policy) :
    ∃ plan, expandPolicy policy = .ok plan ∧
      plan.slots.map expandedName = (associations policy).map associationName ∧
      (∀ e ∈ plan.executions, e.recipe ∈ policy.recipes) ∧
      ∀ name, executionsOf plan.executions name = (gathered policy name (associations policy)).map
        (fun work => (work.1,work.2.insertionSort (fun a b => memberOrder a b))) := by
  have known : ∀ entry ∈ associations policy, entry.2.recipeId ∈ recipeNames policy :=
    fun _ he => coherent_known h he
  have start : Expanded policy [] ⟨[],[],[]⟩ := ⟨by simp [mapGet],rfl⟩
  have placed : Placed policy [] ⟨[],[],[]⟩ := ⟨by simp,by simp,List.Perm.nil⟩
  have empty : Gathered policy [] ⟨[],[],[]⟩ := 
    ⟨rfl,by simp,by simp [executionsOf, gathered, uses]⟩
  obtain ⟨state,run,_⟩ := expandSlot_run h (associations policy) [] _ start known
  have final := expandSlots_gather h start placed empty known run
  rw [List.nil_append] at final
  refine ⟨⟨state.slots,state.executions.map sortMembers⟩,?_,final.slots,?_,?_⟩
  · simp [expandPolicy, run, bind, Except.bind, pure, Except.pure]
  · intro e he
    obtain ⟨e',he',rfl⟩ := List.mem_map.mp he
    exact final.recipes e' he'
  · intro name
    rw [executionsOf_sortMembers, final.executions]

/-- The two shapes of what the executions of one recipe hold. -/
theorem mem_gathered {name : ID} {done : List Association}
    {work : Option DistinctSlot × List Member} (h : work ∈ gathered policy name done) :
    (IsDistinct policy name ∧ ∃ entry ∈ uses name done, work = ownExecution entry) ∨
      (¬ IsDistinct policy name ∧ uses name done ≠ [] ∧
        work = (none,(uses name done).map memberOf)) := by
  rw [gathered] at h
  split_ifs at h with distinct unused
  · obtain ⟨entry,he,rfl⟩ := List.mem_map.mp h
    exact Or.inl ⟨distinct,entry,he,rfl⟩
  · simp at h
  · exact Or.inr ⟨distinct,unused,List.mem_singleton.mp h⟩

theorem gathered_members {name : ID} {done : List Association}
    {work : Option DistinctSlot × List Member} (h : work ∈ gathered policy name done) :
    work.2 ≠ [] ∧
      ∃ entries : List Association, entries.Sublist done ∧ work.2 = entries.map memberOf := by
  rcases mem_gathered h with ⟨_,entry,he,rfl⟩ | ⟨_,used,rfl⟩
  · refine ⟨by simp [ownExecution],[entry],?_,rfl⟩
    exact List.singleton_sublist.mpr (List.mem_filter.mp he).1
  · exact ⟨by simpa using used,uses name done,List.filter_sublist,rfl⟩

theorem map_memberName (entries : List Association) :
    (entries.map memberOf).map memberName = entries.map associationName := by
  rw [List.map_map]
  rfl

theorem associationNames_nodup (h : Coherent policy) :
    ((associations policy).map associationName).Nodup := associations_distinct h

theorem insertionSort_ne_nil {ms : List Member} (h : ms ≠ []) :
    ms.insertionSort (fun a b => memberOrder a b) ≠ [] := by
  intro none
  have perm := List.perm_insertionSort (fun a b => memberOrder a b) ms
  rw [none] at perm
  exact h perm.nil_eq.symm

/-- A descriptor of an execution passes the checks on its membership. -/
theorem gathered_membership (h : Coherent policy)
    (named : ∀ entry ∈ associations policy, idGrammar entry.1.claimId ∧
      idGrammar entry.2.slotId ∧ toolGrammar entry.2.tool)
    {recipe : Recipe} (hr : recipe ∈ policy.recipes) {work : Option DistinctSlot × List Member}
    (hw : work ∈ gathered policy recipe.recipeId (associations policy)) {x : ExecutionDescriptor}
    (hrecipe : x.recipe = recipe) (hdistinct : x.distinctSlot = work.1)
    (hmembers : x.members = work.2.insertionSort (fun a b => memberOrder a b)) :
    MembershipAccepted x := by
  have mode := coherent_isDistinct h hr
  obtain ⟨filled,entries,sub,same⟩ := gathered_members hw
  have perm := List.perm_insertionSort (fun a b => memberOrder a b) work.2
  have filled' : x.members ≠ [] := hmembers ▸ insertionSort_ne_nil filled
  have named' : ∀ m ∈ work.2, idGrammar m.claimId ∧ idGrammar m.slotId ∧ toolGrammar m.tool := by
    intro m hm
    rw [same] at hm
    obtain ⟨entry,he,rfl⟩ := List.mem_map.mp hm
    exact named entry (sub.subset he)
  have apart : (work.2.map memberName).Nodup := by
    rw [same, map_memberName]
    exact (associationNames_nodup h).sublist (sub.map associationName)
  have order : Ascending (x.members.map memberKey) := by
    rw [hmembers]
    exact sorted_ascending (fun m hm => (named' m hm).1) apart
  constructor
  · apply membersSchema_accepts filled' _ order
    intro m hm
    rw [hmembers] at hm
    exact named' m (perm.mem_iff.mp hm)
  · intro D
    apply validateExecutionDescriptor_besides D filled' order
    · intro fixed
      rw [hrecipe] at fixed
      have shared : ¬ IsDistinct policy recipe.recipeId := by simp [mode, fixed]
      rcases mem_gathered hw with ⟨own,_⟩ | ⟨_,_,rfl⟩
      · exact absurd own shared
      · exact hdistinct
    · intro distinct
      rw [hrecipe] at distinct
      have own : IsDistinct policy recipe.recipeId := mode.mpr distinct
      rcases mem_gathered hw with ⟨_,entry,_,rfl⟩ | ⟨shared,_⟩
      · rw [hmembers, hdistinct]
        exact ⟨rfl,rfl⟩
      · exact absurd own shared

end Plan

variable (H : List String → Hash)

/-- Every slot of an accepted policy stands in one slot entry and in one execution. -/
theorem policy_planned_once (policy : Policy) (accepted : validatePolicy H policy = .ok policy) :
    ∃ plan, expandPolicy policy = .ok plan ∧ PlannedOnce policy plan := by
  have coherent := (validatePolicy_ok H accepted).2
  have names : ∀ entry ∈ associations policy, idGrammar entry.1.claimId ∧
      idGrammar entry.2.slotId ∧ toolGrammar entry.2.tool := by
    simp only [validatePolicy, bind_ok] at accepted
    exact policySchema_names accepted.choose_spec.1
  have distinct := associationNames_nodup coherent
  obtain ⟨plan,expanded,slots,recipes,executions⟩ := expandPolicy_gathered coherent
  obtain ⟨covered,_⟩ := expandPolicy_members coherent expanded
  have placed : ∀ e ∈ plan.executions, ∃ work ∈ gathered policy e.recipe.recipeId
      (associations policy), e.distinct = work.1 ∧
        e.members = work.2.insertionSort (fun a b => memberOrder a b) := by
    intro e he
    have inside : (e.distinct,e.members) ∈ executionsOf plan.executions e.recipe.recipeId :=
      List.mem_map.mpr ⟨e,List.mem_filter.mpr ⟨he,by simp⟩,rfl⟩
    rw [executions] at inside
    obtain ⟨work,hw,e'⟩ := List.mem_map.mp inside
    exact ⟨work,hw,(congrArg Prod.fst e').symm,(congrArg Prod.snd e').symm⟩
  refine ⟨plan,expanded,?_,?_,?_,?_,?_,?_,?_,?_⟩
  · intro entry he
    rw [slots]
    exact List.count_eq_one_of_mem distinct (List.mem_map.mpr ⟨entry,he,rfl⟩)
  · intro entry he
    rw [← List.map_flatMap, (covered.map memberName).count_eq, map_memberName]
    exact List.count_eq_one_of_mem distinct (List.mem_map.mpr ⟨entry,he,rfl⟩)
  · intro slot hs
    have inside : expandedName slot ∈ (associations policy).map associationName :=
      slots ▸ List.mem_map.mpr ⟨slot,hs,rfl⟩
    obtain ⟨entry,he,same⟩ := List.mem_map.mp inside
    exact ⟨entry,he,same.symm⟩
  · intro e he
    refine ⟨recipes e he,?_⟩
    intro m hm
    have inside := covered.mem_iff.mp (List.mem_flatMap.mpr ⟨e,he,hm⟩)
    obtain ⟨entry,ha,same⟩ := List.mem_map.mp inside
    exact ⟨entry,ha,same.symm⟩
  · intro recipe hr fixed
    have mode : ¬ IsDistinct policy recipe.recipeId := by
      simp [coherent_isDistinct coherent hr, fixed]
    obtain ⟨entry,he,same⟩ := coherent_named coherent hr
    have used : uses recipe.recipeId (associations policy) ≠ [] :=
      List.ne_nil_of_mem (List.mem_filter.mpr ⟨he,by simp [same]⟩)
    rw [executions, gathered, if_neg mode, if_neg used]
    exact ⟨_,rfl,List.perm_insertionSort _ _⟩
  · intro recipe hr mode
    have own : IsDistinct policy recipe.recipeId := (coherent_isDistinct coherent hr).mpr mode
    rw [executions, gathered, if_pos own, List.map_map]
    rfl
  · intro e he
    obtain ⟨work,hw,_,members⟩ := placed e he
    rw [members]
    exact insertionSort_ne_nil (gathered_members hw).1
  · intro e he x hrecipe hmembers hdistinct
    obtain ⟨work,hw,own,members⟩ := placed e he
    exact gathered_membership coherent names (recipes e he) hw hrecipe (hdistinct.trans own)
      (hmembers.trans members)

/-- A policy whose slots come in another order than their names. -/
def sharedPolicy : Policy :=
  samplePolicy [sampleRecipe "a" .fixed,sampleRecipe "b" .distinct]
    [sampleSlot "s3" "a" "t1",sampleSlot "s1" "b" "t2",sampleSlot "s2" "a" "t3"]

theorem sharedPolicy_planned_once :
    ∃ plan, expandPolicy sharedPolicy = .ok plan ∧ PlannedOnce sharedPolicy plan :=
  policy_planned_once joinNames sharedPolicy (by decide +kernel)

end ExpansionMembers

end EvidenceV4
