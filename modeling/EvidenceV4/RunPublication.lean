import EvidenceV4.RunAssessment

/-!
# Whether an intact run can be published

The full assessment visits every slot of the plan once, and demotion along
dependencies changes nothing but a passing result. So the composed records obey
the rules of publication exactly when every slot does, and a slot breaks a rule
only when an eligible candidate meets an assessment that it does not replace.
-/

set_option autoImplicit false

namespace EvidenceV4

namespace RunPublication

open CheckedExcept StoreDocument RetainedFiles ExecutionArchive RetainedHistory
open CandidateSelection Generation PolicyExpansion RunAssessment

section Loop

variable {D} {s : Store} {events : List HistoryEvent} {common : CommonBindings}
  {physical : Physical D common} {a : Assessments}

def memberKeys (physical : Physical D common) : List SlotKey :=
  physical.expansion.members.map slotKey

/-- A loop that changes each key once, from what the key held. -/
theorem foldl_update {f : Member → ClaimSlot → ClaimSlot} {members : List Member}
    (distinct : (members.map slotKey).Nodup) (a : Assessments) :
    (∀ key ∉ members.map slotKey, members.foldl (fun current member =>
      Function.update current (slotKey member) (f member (current (slotKey member)))) a key = a key) ∧
    ∀ m ∈ members, members.foldl (fun current member =>
      Function.update current (slotKey member) (f member (current (slotKey member)))) a (slotKey m) =
        f m (a (slotKey m)) := by
  induction members generalizing a with
  | nil => simp
  | cons first rest ih =>
    obtain ⟨fresh,distinct⟩ := List.nodup_cons.mp distinct
    obtain ⟨frame,each⟩ := ih distinct
      (Function.update a (slotKey first) (f first (a (slotKey first))))
    refine ⟨?_,?_⟩
    · intro key outside
      rw [List.map_cons, List.mem_cons, not_or] at outside
      rw [List.foldl_cons, frame key outside.2, Function.update_of_ne outside.1]
    · intro m hm
      rw [List.foldl_cons]
      rcases List.mem_cons.mp hm with rfl | hm
      · rw [frame _ fresh, Function.update_self]
      · have apart : slotKey m ≠ slotKey first :=
          fun e => fresh (e ▸ List.mem_map_of_mem hm)
        rw [each m hm, Function.update_of_ne apart]

theorem assessSelections_ok (history : HistorySnapshot) (physical : Physical D common)
    {selections : List CandidateSelection}
    (distinct : (selections.map (fun selection => slotKey selection.member)).Nodup)
    (readable : ∀ selection ∈ selections, ∃ g,
      assessSelection D s selection (a (slotKey selection.member)) = .ok g) :
    (assessSelections D s history physical selections a).2 = false ∧
      (∀ key ∉ selections.map (fun selection => slotKey selection.member),
        (assessSelections D s history physical selections a).1 key = a key) ∧
      ∀ selection ∈ selections, assessSelection D s selection (a (slotKey selection.member)) =
        .ok ((assessSelections D s history physical selections a).1 (slotKey selection.member)) := by
  induction selections generalizing a with
  | nil => simp [assessSelections]
  | cons first rest ih =>
    obtain ⟨fresh,distinct⟩ := List.nodup_cons.mp distinct
    obtain ⟨g,assessed⟩ := readable first List.mem_cons_self
    have apart : ∀ selection ∈ rest, slotKey selection.member ≠ slotKey first.member :=
      fun selection hs e => fresh (List.mem_map.mpr ⟨selection,hs,e⟩)
    have kept : ∀ selection ∈ rest,
        Function.update a (slotKey first.member) g (slotKey selection.member) =
          a (slotKey selection.member) :=
      fun selection hs => Function.update_of_ne (apart selection hs) _ _
    obtain ⟨flag,frame,each⟩ := ih (a := Function.update a (slotKey first.member) g) distinct
      (fun selection hs => by
        rw [kept selection hs]
        exact readable selection (List.mem_cons_of_mem _ hs))
    have step : assessSelections D s history physical (first :: rest) a =
        assessSelections D s history physical rest (Function.update a (slotKey first.member) g) := by
      simp only [assessSelections, assessed]
    rw [step]
    refine ⟨flag,?_,?_⟩
    · intro key outside
      rw [List.map_cons, List.mem_cons, not_or] at outside
      rw [frame key outside.2, Function.update_of_ne outside.1]
    · intro selection hs
      rcases List.mem_cons.mp hs with rfl | hs
      · rw [frame _ fresh, Function.update_self, assessed]
      · rw [← kept selection hs]
        exact each selection hs

/-- The physical execution is assessed from candidates and not from known barriers only. -/
def Selectable (D : Digests) (s : Store) (events : List HistoryEvent) {common : CommonBindings}
    (physical : Physical D common) : Prop :=
  ∀ d ∈ physical.descriptor, KeyFaithful D s d events

/-- One physical execution of the assessment. -/
structure Assesses (D : Digests) (s : Store) (events : List HistoryEvent) {common : CommonBindings}
    (physical : Physical D common) (before after : Assessments × Bool) : Prop where
  frame : ∀ key ∉ memberKeys physical, after.1 key = before.1 key
  flag : after.2 = false ↔ before.2 = false ∧ Selectable D s events physical
  selected : before.2 = false → ∀ d, physical.descriptor = some d → KeyFaithful D s d events →
    ∀ m ∈ physical.expansion.members, ∃ selection, ExactSelection D s d events m selection ∧
      assessSelection D s selection (before.1 (slotKey m)) = .ok (after.1 (slotKey m))
  known : ¬ (before.2 = false ∧ ∃ d, physical.descriptor = some d ∧ KeyFaithful D s d events) →
    ∀ m ∈ physical.expansion.members,
      after.1 (slotKey m) = knownBarriers (snapshotOf D s events) m (before.1 (slotKey m))

theorem forall₂_members {members : List Member} {selections : List CandidateSelection}
    {d : ExecutionDescriptor}
    (h : List.Forall₂ (ExactSelection D s d events) members selections) :
    selections.map CandidateSelection.member = members := by
  induction h with
  | nil => rfl
  | cons head _ ih => rw [List.map_cons, ih, head.selected]

theorem retainKnownBarriers_assesses {before : Assessments × Bool} {flag : Bool}
    (distinct : (memberKeys physical).Nodup)
    (marked : flag = false ↔ before.2 = false ∧ Selectable D s events physical)
    (unselected : before.2 = false → ∀ d, physical.descriptor = some d →
      ¬ KeyFaithful D s d events) :
    Assesses D s events physical before
      (retainKnownBarriers D (snapshotOf D s events) physical before.1,flag) := by
  obtain ⟨frame,each⟩ := foldl_update (f := knownBarriers (snapshotOf D s events)) distinct before.1
  exact ⟨frame,marked,fun clean d hd faithful => absurd faithful (unselected clean d hd),
    fun _ => each⟩

/-- Each physical execution is assessed by its candidates, or by its known barriers when it has no
descriptor, when its selection fails, and after any selection failed. -/
theorem assessPhysical_assesses (chain : Chain D s events) (before : Assessments × Bool)
    (distinct : (memberKeys physical).Nodup)
    (held : ∀ m ∈ physical.expansion.members, ∃ slot : ExpandedSlot, slot.member = m ∧
      HeldFacts D s events physical.descriptor slot (before.1 (slotKey m))) :
    Assesses D s events physical before
      (assessPhysical D s (snapshotOf D s events) before physical) := by
  have recorded : (snapshotOf D s events).events = events := rfl
  unfold assessPhysical
  cases found : physical.descriptor with
  | none =>
    exact retainKnownBarriers_assesses distinct (by simp [Selectable, found]) (by simp [found])
  | some d =>
    obtain ⟨_,_,same,valid⟩ := physical.bound d found
    have returns : (∃ selections, selectCandidates D s d physical.expansion.members
        (snapshotOf D s events) = .ok selections) ↔ KeyFaithful D s d (snapshotOf D s events).events :=
      selectCandidates_returns chain valid (fun m hm => same ▸ hm)
    rw [recorded] at returns
    have selectable : Selectable D s events physical ↔ KeyFaithful D s d events := by
      simp [Selectable, found]
    dsimp only
    cases dirty : before.2 with
    | true =>
      rw [if_pos rfl]
      exact retainKnownBarriers_assesses distinct (by simp [dirty]) (by simp [dirty])
    | false =>
      rw [if_neg (by simp)]
      cases outcome : selectCandidates D s d physical.expansion.members (snapshotOf D s events) with
      | error message =>
        have unfaithful : ¬ KeyFaithful D s d events := by
          rw [← returns, outcome]
          simp
        refine retainKnownBarriers_assesses distinct ?_ ?_
        · simp [selectable, unfaithful]
        · rintro _ d' hd'
          obtain rfl := Option.some.inj (found.symm.trans hd')
          exact unfaithful
      | ok selections =>
        have faithful : KeyFaithful D s d events := returns.mp ⟨selections,outcome⟩
        have each := selectCandidates_each chain outcome
        have listed := forall₂_members each
        have keys : selections.map (fun selection => slotKey selection.member) =
            memberKeys physical := by
          rw [memberKeys, ← listed, List.map_map]
          rfl
        have readable : ∀ selection ∈ selections, ∃ g,
            assessSelection D s selection (before.1 (slotKey selection.member)) = .ok g := by
          intro selection hs
          obtain ⟨m,hm,exact_⟩ := forall₂_mem_right each hs
          obtain ⟨slot,rfl,facts⟩ := held m hm
          rw [found] at facts
          obtain ⟨g,assessed,_⟩ := assessSelection_outcome chain facts exact_
          exact ⟨g,exact_.selected ▸ assessed⟩
        obtain ⟨flag,frame,assessed⟩ := assessSelections_ok (snapshotOf D s events) physical
          (keys ▸ distinct) readable
        refine ⟨keys ▸ frame,?_,?_,?_⟩
        · simp only [flag, dirty, selectable, faithful, and_self]
        · intro _ d' hd' _ m hm
          obtain rfl := Option.some.inj (found.symm.trans hd')
          obtain ⟨selection,hs,exact_⟩ := forall₂_mem_left each hm
          exact ⟨selection,exact_,exact_.selected ▸ assessed selection hs⟩
        · exact fun excluded => absurd ⟨dirty,d,found,faithful⟩ excluded

/-- The facts of every assessment that the physical executions will read. -/
def Holds (D : Digests) (s : Store) (events : List HistoryEvent) {common : CommonBindings}
    (physicals : List (Physical D common)) (a : Assessments) : Prop :=
  ∀ p ∈ physicals, ∀ m ∈ p.expansion.members, ∃ slot : ExpandedSlot, slot.member = m ∧
    HeldFacts D s events p.descriptor slot (a (slotKey m))

theorem mem_memberKeys {m : Member} (hm : m ∈ physical.expansion.members) :
    slotKey m ∈ memberKeys physical :=
  List.mem_map_of_mem hm

/-- The run over all physical executions: each one is assessed once, from what its slots held. -/
theorem assessPhysicals_run (chain : Chain D s events) (physicals : List (Physical D common))
    (start : Assessments × Bool) (distinct : (physicals.flatMap memberKeys).Nodup)
    (holds : Holds D s events physicals start.1) :
    let final := physicals.foldl (assessPhysical D s (snapshotOf D s events)) start
    (∀ key ∉ physicals.flatMap memberKeys, final.1 key = start.1 key) ∧
      ∀ before p after, physicals = before ++ p :: after → ∃ mid mid',
        Assesses D s events p mid mid' ∧
        (mid.2 = false ↔ start.2 = false ∧ ∀ q ∈ before, Selectable D s events q) ∧
        ∀ key ∈ memberKeys p, mid.1 key = start.1 key ∧ final.1 key = mid'.1 key := by
  induction physicals generalizing start with
  | nil => simp
  | cons first rest ih =>
    rw [List.flatMap_cons, List.nodup_append] at distinct
    obtain ⟨own,others,apart⟩ := distinct
    have step := assessPhysical_assesses chain start own (holds first List.mem_cons_self)
    have untouched : ∀ p ∈ rest, ∀ key ∈ memberKeys p,
        (assessPhysical D s (snapshotOf D s events) start first).1 key = start.1 key :=
      fun p hp key hk => step.frame key
        (fun inside => apart key inside key (List.mem_flatMap.mpr ⟨p,hp,hk⟩) rfl)
    have later : Holds D s events rest
        (assessPhysical D s (snapshotOf D s events) start first).1 := by
      intro p hp m hm
      rw [untouched p hp _ (mem_memberKeys hm)]
      exact holds p (List.mem_cons_of_mem _ hp) m hm
    obtain ⟨frame,split⟩ := ih _ others later
    refine ⟨?_,?_⟩
    · intro key outside
      rw [List.flatMap_cons, List.mem_append, not_or] at outside
      rw [List.foldl_cons, frame key outside.2, step.frame key outside.1]
    · intro before p after e
      cases before with
      | nil =>
        obtain ⟨rfl,rfl⟩ := List.cons.inj e
        refine ⟨start,_,step,by simp,fun key hk => ⟨rfl,?_⟩⟩
        exact frame key (fun inside => apart key hk key inside rfl)
      | cons q before =>
        obtain ⟨rfl,tail⟩ := List.cons.inj e
        obtain ⟨mid,mid',assesses,flag,same⟩ := split before p after tail
        have hp : p ∈ rest := by simp [tail]
        refine ⟨mid,mid',assesses,?_,?_⟩
        · rw [flag, step.flag, List.forall_mem_cons, and_assoc]
        · intro key hk
          exact ⟨(same key hk).1.trans (untouched p hp key hk),(same key hk).2⟩

/-- The physical execution has a descriptor, and neither its selection nor one before it fails. -/
def Assessed (D : Digests) (s : Store) (events : List HistoryEvent) {common : CommonBindings}
    (physicals : List (Physical D common)) (p : Physical D common) (d : ExecutionDescriptor) :
    Prop :=
  p.descriptor = some d ∧ ∃ before after, physicals = before ++ p :: after ∧
    ∀ q ∈ before ++ [p], Selectable D s events q

/-- What the full assessment makes of one slot. -/
theorem assessFullHistory_slot (chain : Chain D s events) {physicals : List (Physical D common)}
    (distinct : (physicals.flatMap memberKeys).Nodup) (holds : Holds D s events physicals a)
    {p : Physical D common} (hp : p ∈ physicals) {slot : ExpandedSlot}
    (hm : slot.member ∈ p.expansion.members)
    (facts : HeldFacts D s events p.descriptor slot (a (slotKey slot.member))) :
    let g := assessFullHistory D s (snapshotOf D s events) physicals a (slotKey slot.member)
    ((∀ d, Assessed D s events physicals p d →
        Publishable D s events d slot.member (a (slotKey slot.member))) →
      HeldFacts D s events p.descriptor slot g ∧ Cleared D s events slot.member g) ∧
    ∀ d, Assessed D s events physicals p d →
      ¬ Publishable D s events d slot.member (a (slotKey slot.member)) →
      Refused events slot g := by
  intro g
  obtain ⟨_,split⟩ := assessPhysicals_run chain physicals (a,false) distinct holds
  have key := mem_memberKeys hm
  constructor
  · intro publishable
    obtain ⟨before,after,e⟩ := List.append_of_mem hp
    obtain ⟨mid,mid',assesses,flag,same⟩ := split before p after e
    obtain ⟨start,final⟩ := same _ key
    have isG : g = mid'.1 (slotKey slot.member) := final
    by_cases selected : mid.2 = false ∧ ∃ d, p.descriptor = some d ∧ KeyFaithful D s d events
    · obtain ⟨clean,d,hd,faithful⟩ := selected
      obtain ⟨selection,exact_,assessed⟩ := assesses.selected clean d hd faithful _ hm
      have reached : Assessed D s events physicals p d := by
        refine ⟨hd,before,after,e,?_⟩
        intro q hq
        rcases List.mem_append.mp hq with hq | hq
        · exact (flag.mp clean).2 q hq
        · obtain rfl := List.mem_singleton.mp hq
          intro d' hd'
          obtain rfl := Option.some.inj (hd.symm.trans hd')
          exact faithful
      rw [hd] at facts
      obtain ⟨g',assessed',settled,_⟩ := assessSelection_outcome chain facts exact_
      rw [start, assessed'] at assessed
      rw [isG, hd, ← Except.ok.inj assessed]
      exact settled (publishable d reached)
    · have known := assesses.known selected _ hm
      rw [start] at known
      rw [isG, known]
      exact knownBarriers_settled chain facts
  · rintro d ⟨hd,before,after,e,selectable⟩ refused
    obtain ⟨mid,mid',assesses,flag,same⟩ := split before p after e
    obtain ⟨start,final⟩ := same _ key
    have isG : g = mid'.1 (slotKey slot.member) := final
    have clean : mid.2 = false := flag.mpr ⟨rfl,fun q hq => selectable q (by simp [hq])⟩
    have faithful := selectable p (by simp) d hd
    obtain ⟨selection,exact_,assessed⟩ := assesses.selected clean d hd faithful _ hm
    rw [hd] at facts
    obtain ⟨g',assessed',_,refuses⟩ := assessSelection_outcome chain facts exact_
    rw [start, assessed'] at assessed
    rw [isG, ← Except.ok.inj assessed]
    exact refuses refused

end Loop

section Demotion

/-- The loop over dependencies only makes a passing claim incomplete. -/
def Demoted (claim claim' : UnsignedClaim) : Prop :=
  claim' = claim ∨ claim.result = .pass ∧ claim' = { claim with result := .incomplete }

theorem demoted_trans {a b c : UnsignedClaim} (h : Demoted a b) (h' : Demoted b c) :
    Demoted a c := by
  rcases h with rfl | ⟨pass,rfl⟩
  · exact h'
  · rcases h' with rfl | ⟨pass',_⟩
    · exact Or.inr ⟨pass,rfl⟩
    · simp at pass'

theorem forall₂_demoted_refl (claims : List UnsignedClaim) : List.Forall₂ Demoted claims claims :=
  List.forall₂_same.mpr (fun _ _ => Or.inl rfl)

theorem demoteRound_demoted (dependencies : ID → List ID) (done rest : List UnsignedClaim) :
    ∃ rest', (demoteRound dependencies done rest).1 = done ++ rest' ∧
      List.Forall₂ Demoted rest rest' := by
  induction rest generalizing done with
  | nil => exact ⟨[],by simp [demoteRound],.nil⟩
  | cons claim rest ih =>
    unfold demoteRound
    split
    · next lowered =>
      obtain ⟨rest',e,each⟩ := ih (done ++ [{ claim with result := .incomplete }])
      exact ⟨_ :: rest',by simp [e],.cons (Or.inr ⟨lowered.1,rfl⟩) each⟩
    · obtain ⟨rest',e,each⟩ := ih (done ++ [claim])
      exact ⟨claim :: rest',by simp [e],.cons (Or.inl rfl) each⟩

theorem forall₂_demoted_trans {a b c : List UnsignedClaim} (h : List.Forall₂ Demoted a b)
    (h' : List.Forall₂ Demoted b c) : List.Forall₂ Demoted a c := by
  induction h generalizing c with
  | nil =>
    cases h'
    exact .nil
  | cons head _ ih =>
    cases h' with
    | cons head' tail' => exact .cons (demoted_trans head head') (ih tail')

theorem demote_demoted (dependencies : ID → List ID) (remaining : ℕ) (claims : List UnsignedClaim) :
    List.Forall₂ Demoted claims (demote dependencies remaining claims) := by
  induction remaining generalizing claims with
  | zero => exact forall₂_demoted_refl claims
  | succ remaining ih =>
    obtain ⟨claims',e,each⟩ := demoteRound_demoted dependencies [] claims
    rw [List.nil_append] at e
    simp only [demote, e]
    split
    · exact forall₂_demoted_trans each (ih claims')
    · exact each

variable {D : Digests} {run : UUID} {common : CommonBindings} {a : Assessments}
  {record : PolicyRecord} {claim : UnsignedClaim}

/-- A claim as the loop left it keeps everything but a passing result. -/
theorem demoted_shape (h : Demoted (composeClaim run common a record) claim) :
    claim.claimId = record.claimId ∧ claim.common = common ∧
      claim.executions = record.executions.map (fun slot => a (record.claimId,slot.slotId)) ∧
      (claim.result = .pass → slotsResult claim.executions = .pass) ∧
      ResultAgrees (recordOf D claim) := by
  have same : ∀ c : UnsignedClaim, memberResult (recordOf D c) = slotsResult c.executions :=
    fun _ => rfl
  rcases h with rfl | ⟨pass,rfl⟩
  · refine ⟨rfl,rfl,rfl,id,?_⟩
    rw [ResultAgrees, same]
    split
    · next pass =>
      have result : (recordOf D (composeClaim run common a record)).result = .pass := pass
      simp [result]
    · rfl
  · refine ⟨rfl,rfl,rfl,by rintro ⟨⟩,?_⟩
    have passes : slotsResult (record.executions.map
      (fun slot => a (record.claimId,slot.slotId))) = .pass := pass
    rw [ResultAgrees, same]
    simp [composeClaim, passes, recordOf]

theorem slotsResult_pass {executions : List ClaimSlot} (h : slotsResult executions = .pass) :
    ∀ slot ∈ executions, slot.state = .pass := by
  unfold slotsResult at h
  split at h
  · simp at h
  · split at h
    · assumption
    · simp at h

end Demotion

section Rules

variable {D : Digests} {s s' : Store} {events : List HistoryEvent}

/-- What a slot passed in one store it passes in every later store with the same history. -/
theorem validateSlot_stable (history : HistorySnapshot) (claim : ClaimRecord) (slot : ClaimSlot) :
    Stable Extends (fun s => validateSlot D s history claim slot) := by
  unfold validateSlot
  refine stable_bind (stable_const _) (fun _ => stable_bind ?_ (fun _ => stable_bind ?_
    (fun _ => stable_const _)))
  · unfold validateSlotExecution
    cases slot.execution with
    | none => exact stable_const _
    | some ref => exact stable_bind (readExecution_stable _ _) (fun _ => stable_const _)
  · unfold validateSlotObservation
    cases slot.observation with
    | none => exact stable_const _
    | some observation => exact stable_bind (readFileRef_stable D _) (fun _ => stable_const _)

theorem snapshotOf_extends (grows : Extends s s') (chain : Chain D s events) :
    snapshotOf D s' events = snapshotOf D s events := by
  rw [snapshotOf, snapshotOf, headOf, headOf, chain_references grows chain]

variable {policy : Policy} {common : CommonBindings} {physicals : List (Physical D common)}

/-- The physical executions of an invocation are those of its plan. -/
structure Planned (D : Digests) (policy : Policy) {common : CommonBindings}
    (physicals : List (Physical D common)) : Prop where
  coherent : PolicyDocument.Coherent policy
  filled : ∀ record ∈ policy.records, record.executions ≠ []
  members : (physicals.flatMap (fun p => p.expansion.members)).Perm
    ((associations policy).map memberOf)
  slots : ∀ p ∈ physicals, p.expansion.members.Perm (p.expansion.slots.map ExpandedSlot.member) ∧
    ∀ slot ∈ p.expansion.slots, ∃ entry ∈ associations policy,
      slot = expandedSlot entry p.expansion.recipe ∧
        p.expansion.recipe.recipeId = entry.2.recipeId

theorem planned_of {H : List String → Hash} {result : Policy}
    (accepted : PolicyDocument.validatePolicy H policy = .ok result) {plan : ExpandedPlan}
    (expanded : expandPolicy policy = .ok plan)
    (shape : physicals.map Physical.expansion = plan.executions) : Planned D policy physicals := by
  have coherent := (PolicyDocument.validatePolicy_ok H accepted).2
  obtain ⟨members,slots⟩ := expandPolicy_members coherent expanded
  refine ⟨coherent,PolicyDocument.validatePolicy_filled H accepted,?_,?_⟩
  · rw [← shape, List.flatMap_map] at members
    exact members
  · exact fun p hp => slots p.expansion (shape ▸ List.mem_map_of_mem hp)

theorem Planned.distinct (h : Planned D policy physicals) :
    (physicals.flatMap memberKeys).Nodup := by
  have keys : (physicals.flatMap memberKeys).Perm
      ((associations policy).map (fun entry => (entry.1.claimId,entry.2.slotId))) := by
    have mapped := h.members.map slotKey
    rw [List.map_flatMap, List.map_map] at mapped
    exact mapped
  exact keys.nodup_iff.mpr (associations_distinct h.coherent)

/-- Every slot of a record stands in one physical execution. -/
theorem Planned.located (h : Planned D policy physicals) {entry : Association}
    (he : entry ∈ associations policy) : ∃ p ∈ physicals, ∃ slot ∈ p.expansion.slots,
      slot.member = memberOf entry ∧ slot.member ∈ p.expansion.members := by
  have hm : memberOf entry ∈ physicals.flatMap (fun p => p.expansion.members) :=
    h.members.mem_iff.mpr (List.mem_map_of_mem he)
  obtain ⟨p,hp,hm⟩ := List.mem_flatMap.mp hm
  obtain ⟨slot,hs,e⟩ := List.mem_map.mp ((h.slots p hp).1.mem_iff.mp hm)
  exact ⟨p,hp,slot,hs,e,e ▸ hm⟩

/-- A slot of the plan has the member, the names and the recipe of its place in the policy. -/
theorem Planned.slot (h : Planned D policy physicals) {p : Physical D common} (hp : p ∈ physicals)
    {slot : ExpandedSlot} (hs : slot ∈ p.expansion.slots) :
    slot.member = ⟨slot.claimId,slot.slotId,slot.tool⟩ ∧ slot.recipe = p.expansion.recipe ∧
      slot.recipe.recipeId = slot.recipeId ∧ slot.member ∈ p.expansion.members := by
  obtain ⟨perm,each⟩ := h.slots p hp
  have inside := perm.mem_iff.mpr (List.mem_map_of_mem hs)
  obtain ⟨entry,_,rfl,name⟩ := each slot hs
  exact ⟨rfl,rfl,name,inside⟩

theorem composed_of (h : Planned D policy physicals) {p : Physical D common} (hp : p ∈ physicals)
    {slot : ExpandedSlot} (hs : slot ∈ p.expansion.slots) {claim : ClaimRecord}
    (name : claim.claimId = slot.claimId) (shared : claim.common = common) :
    Composed p.descriptor slot claim := by
  obtain ⟨member,same,recipe,inside⟩ := h.slot hp hs
  refine ⟨by rw [member, name],recipe,?_⟩
  intro d hd
  obtain ⟨bindings,runs,lists,_⟩ := p.bound d hd
  exact ⟨bindings.trans shared.symm,runs.trans same.symm,lists ▸ inside⟩

variable {a : Assessments}

theorem holds_of (h : Planned D policy physicals)
    (held : ∀ p ∈ physicals, ∀ slot ∈ p.expansion.slots,
      Held D s events p.descriptor slot (a (slotKey slot.member))) :
    Holds D s events physicals a := by
  intro p hp m hm
  obtain ⟨slot,hs,rfl⟩ := List.mem_map.mp ((h.slots p hp).1.mem_iff.mp hm)
  exact ⟨slot,rfl,held_facts (held p hp slot hs)⟩

/-- Every slot that meets a candidate may be published over it. -/
def AllPublishable (D : Digests) (s : Store) (events : List HistoryEvent) {common : CommonBindings}
    (physicals : List (Physical D common)) (a : Assessments) : Prop :=
  ∀ p ∈ physicals, ∀ d, Assessed D s events physicals p d → ∀ m ∈ p.expansion.members,
    Publishable D s events d m (a (slotKey m))

end Rules

section Records

variable {D : Digests} {s s' : Store} {events : List HistoryEvent} {policy : Policy}
  {common : CommonBindings} {physicals : List (Physical D common)} {a : Assessments}
  {dependencies : ID → List ID} {run : UUID}

theorem composeClaims_mem {claim : UnsignedClaim}
    (h : claim ∈ composeClaims policy dependencies run common a) :
    ∃ record ∈ policy.records, Demoted (composeClaim run common a record) claim := by
  obtain ⟨c,hc,demoted⟩ := forall₂_mem_right (demote_demoted dependencies _ _) h
  obtain ⟨record,hr,rfl⟩ := List.mem_map.mp hc
  exact ⟨record,hr,demoted⟩

theorem composeClaims_of_record {record : PolicyRecord} (hr : record ∈ policy.records) :
    ∃ claim ∈ composeClaims policy dependencies run common a,
      Demoted (composeClaim run common a record) claim :=
  forall₂_mem_left (demote_demoted dependencies _ _) (List.mem_map_of_mem hr)

theorem passingSlot_of {descriptor : Option ExecutionDescriptor} {slot : ExpandedSlot}
    {f : ClaimSlot} (chain : Chain D s events)
    (facts : HeldFacts D s events descriptor slot f) (pass : f.state = .pass) : PassingSlot f := by
  obtain ⟨observation,ho,passed,b,hb,actual,_⟩ := facts.backed chain pass
  simp only [isActual, decide_eq_true_eq] at actual
  have executed := chain_executed chain hb actual.1 actual.2.1
  rw [actual.2.2] at executed
  obtain ⟨_,by_⟩ := facts.observation observation ho
  obtain ⟨_,receipt,_,_,valid,shape⟩ := by_.receipt
  simp only [validateObservationCheck, bind_ok, exists_unit, check_ok] at valid
  have result : receipt.result = .pass := by
    rw [shape] at passed
    exact passed
  refine ⟨pass,executed,observation,ho,passed,?_⟩
  rw [shape]
  exact (valid.2.2.2.2 result).1

/-- When every slot may be published, the record of a claim obeys every rule. -/
theorem record_satisfies (chain : Chain D s events) (grows : Extends s s')
    (planned : Planned D policy physicals)
    (held : ∀ p ∈ physicals, ∀ slot ∈ p.expansion.slots,
      Held D s events p.descriptor slot (a (slotKey slot.member)))
    (publishable : AllPublishable D s events physicals a) {record : PolicyRecord}
    (hr : record ∈ policy.records) {claim : UnsignedClaim}
    (demoted : Demoted (composeClaim run common
      (assessFullHistory D s (snapshotOf D s events) physicals a) record) claim) :
    SatisfiesRules D s' (snapshotOf D s' events) (recordOf D claim) := by
  obtain ⟨name,shared,executions,passes,agrees⟩ := demoted_shape (D := D) demoted
  have settled : ∀ policySlot ∈ record.executions, ∃ p ∈ physicals, ∃ slot ∈ p.expansion.slots,
      slot.claimId = record.claimId ∧ slot.slotId = policySlot.slotId ∧
      slot.tool = policySlot.tool ∧
      HeldFacts D s events p.descriptor slot
        (assessFullHistory D s (snapshotOf D s events) physicals a
          (record.claimId,policySlot.slotId)) ∧
      Cleared D s events slot.member
        (assessFullHistory D s (snapshotOf D s events) physicals a
          (record.claimId,policySlot.slotId)) := by
    intro policySlot hs
    obtain ⟨p,hp,slot,hslot,e,hm⟩ := planned.located
      (mem_associations.mpr (⟨hr,hs⟩ : (record,policySlot).1 ∈ policy.records ∧ _))
    have names := e
    rw [(planned.slot hp hslot).1] at names
    obtain ⟨claimName,slotName,toolName⟩ := Member.mk.inj names
    have key : slotKey slot.member = (record.claimId,policySlot.slotId) := by rw [e]; rfl
    have outcome := (assessFullHistory_slot chain planned.distinct (holds_of planned held) hp hm
      (held_facts (held p hp slot hslot))).1 (fun d hd => publishable p hp d hd _ hm)
    rw [key] at outcome
    exact ⟨p,hp,slot,hslot,claimName,slotName,toolName,outcome⟩
  refine ⟨?_,?_,agrees⟩
  · have slotIds : claim.executions.map ClaimSlot.slotId =
        record.executions.map PolicySlot.slotId := by
      rw [executions, List.map_map]
      refine List.map_congr_left (fun policySlot hs => ?_)
      obtain ⟨_,_,slot,_,_,slotName,_,facts,_⟩ := settled policySlot hs
      exact facts.identity.1.trans slotName
    have tools : claim.executions.map ClaimSlot.tool = record.executions.map PolicySlot.tool := by
      rw [executions, List.map_map]
      refine List.map_congr_left (fun policySlot hs => ?_)
      obtain ⟨_,_,slot,_,_,_,toolName,facts,_⟩ := settled policySlot hs
      exact facts.identity.2.1.trans toolName
    simp only [validateClaimRecord, distinctIds, bind_ok, exists_unit, Schema.ensure_ok, check_ok]
    refine ⟨⟨?_,?_⟩,rfl,?_,?_⟩
    · exact slotIds ▸ (by simpa using planned.filled record hr)
    · exact slotIds ▸ planned.coherent.slotsDistinct record hr
    · exact tools ▸ planned.coherent.toolsDistinct record hr
    · intro pass f hf
      have state := slotsResult_pass (passes pass) f hf
      have hf' : f ∈ claim.executions := hf
      rw [executions] at hf'
      obtain ⟨policySlot,hs,rfl⟩ := List.mem_map.mp hf'
      obtain ⟨_,_,_,_,_,_,_,facts,_⟩ := settled policySlot hs
      exact passingSlot_of chain facts state
  · intro f hf
    have hf' : f ∈ claim.executions := hf
    rw [executions] at hf'
    obtain ⟨policySlot,hs,rfl⟩ := List.mem_map.mp hf'
    obtain ⟨p,hp,slot,hslot,claimName,_,_,facts,cleared⟩ := settled policySlot hs
    have composed : Composed p.descriptor slot (recordOf D claim) :=
      composed_of planned hp hslot (name.trans claimName.symm) shared
    have accepted := validateSlot_ok chain facts composed cleared
    rw [snapshotOf_extends grows chain]
    exact validateSlot_stable _ _ _ s s' () grows accepted

/-- A slot that may not be published makes the record of its claim break a rule. -/
theorem record_refused (chain : Chain D s events)
    (planned : Planned D policy physicals)
    (held : ∀ p ∈ physicals, ∀ slot ∈ p.expansion.slots,
      Held D s events p.descriptor slot (a (slotKey slot.member)))
    (satisfied : ∀ claim ∈ composeClaims policy dependencies run common
      (assessFullHistory D s (snapshotOf D s events) physicals a),
      SatisfiesRules D s' (snapshotOf D s' events) (recordOf D claim)) :
    AllPublishable D s events physicals a := by
  intro p hp d hd m hm
  by_contra refused
  have hm' : m ∈ physicals.flatMap (fun p => p.expansion.members) :=
    List.mem_flatMap.mpr ⟨p,hp,hm⟩
  obtain ⟨entry,he,rfl⟩ := List.mem_map.mp (planned.members.mem_iff.mp hm')
  obtain ⟨slot,hs,e⟩ := List.mem_map.mp ((planned.slots p hp).1.mem_iff.mp hm)
  rw [← e] at refused hm
  have outcome := (assessFullHistory_slot chain planned.distinct (holds_of planned held) hp hm
    (held_facts (held p hp slot hs))).2 d hd refused
  obtain ⟨hrecord,hslot⟩ := mem_associations.mp he
  obtain ⟨claim,hc,demoted⟩ : ∃ claim ∈ composeClaims policy dependencies run common
        (assessFullHistory D s (snapshotOf D s events) physicals a),
      Demoted (composeClaim run common (assessFullHistory D s (snapshotOf D s events) physicals a)
        entry.1) claim := composeClaims_of_record hrecord
  obtain ⟨name,_,executions,_,_⟩ := demoted_shape (D := D) demoted
  have key : slotKey slot.member = (entry.1.claimId,entry.2.slotId) := by rw [e]; rfl
  have member : slot.member = ⟨(recordOf D claim).claimId,slot.slotId,slot.tool⟩ := by
    have names := e
    rw [(planned.slot hp hs).1] at names
    rw [(planned.slot hp hs).1, (Member.mk.inj names).1]
    exact congrArg (fun id => Member.mk id slot.slotId slot.tool) name.symm
  have inside : assessFullHistory D s (snapshotOf D s events) physicals a (slotKey slot.member) ∈
      (recordOf D claim).executions := by
    change _ ∈ claim.executions
    rw [executions, key]
    exact List.mem_map.mpr ⟨entry.2,hslot,rfl⟩
  exact validateSlot_refuses outcome member ((satisfied claim hc).slots _ inside)

/-- For every policy, retained history and set of assessments that an invocation can hold: the
claim records that it composes obey every slot and claim rule of publication, over every later
store with the same history, exactly when every slot that meets a candidate is publishable. -/
theorem composeClaims_satisfy_iff (D : Digests) (s : Store) (history : HistorySnapshot)
    (loaded : readHistory D s none = .ok history) (H : List String → Hash) (policy : Policy)
    (accepted : PolicyDocument.validatePolicy H policy = .ok policy) (plan : ExpandedPlan)
    (expanded : expandPolicy policy = .ok plan) (common : CommonBindings)
    (physicals : List (Physical D common))
    (shape : physicals.map Physical.expansion = plan.executions) (a : Assessments)
    (held : ∀ p ∈ physicals, ∀ slot ∈ p.expansion.slots,
      Held D s history.events p.descriptor slot (a (slotKey slot.member)))
    (dependencies : ID → List ID) (run : UUID) (s' : Store) (history' : HistorySnapshot)
    (grows : Extends s s') (loaded' : readHistory D s' (some history.view) = .ok history')
    (same : history'.events = history.events) :
    (∀ claim ∈ composeClaims policy dependencies run common
        (assessFullHistory D s history physicals a),
      SatisfiesRules D s' history' (recordOf D claim)) ↔
    AllPublishable D s history.events physicals a := by
  obtain ⟨chain,before⟩ := loadHistory_chain loaded
  obtain ⟨_,after⟩ := loadHistory_chain loaded'
  rw [same] at after
  have planned : Planned D policy physicals := planned_of accepted expanded shape
  rw [after, before]
  constructor
  · exact record_refused chain planned held
  · intro publishable claim hc
    obtain ⟨record,hr,demoted⟩ := composeClaims_mem hc
    exact record_satisfies chain grows planned held publishable hr demoted

end Records

section Samples

def runPolicy : Policy :=
  samplePolicy [PolicyDocument.sampleRecipe "recipe" .fixed]
    [sampleSlot "s1" "recipe" "t1",sampleSlot "s2" "recipe" "t2"]

def runSlot (slot tool : String) : ExpandedSlot :=
  expandedSlot (⟨"claim",true,.boundedChecked,"scope",
    [sampleSlot "s1" "recipe" "t1",sampleSlot "s2" "recipe" "t2"]⟩,sampleSlot slot "recipe" tool)
    (PolicyDocument.sampleRecipe "recipe" .fixed)

def runPhysical : Physical sampleDigests sampleCommon where
  expansion :=
    { recipe := PolicyDocument.sampleRecipe "recipe" .fixed, distinct := none
      members := sampleMembers, slots := [runSlot "s1" "t1",runSlot "s2" "t2"] }
  descriptor := some sampleDescriptor
  bound := by
    intro d hd
    obtain rfl := Option.some.inj hd
    exact ⟨rfl,rfl,rfl,by decide +kernel⟩

def idleAssessments : Assessments := fun key =>
  if key = ("claim","s1") then initialSlot (runSlot "s1" "t1") "not-selected"
  else initialSlot (runSlot "s2" "t2") "not-selected"

theorem composeClaims_satisfy_idle :
    (∀ claim ∈ composeClaims runPolicy (fun _ => []) "run" sampleCommon
        (assessFullHistory sampleDigests sampleStore (sampleHistory sampleStore sampleInputs)
          [runPhysical] idleAssessments),
      SatisfiesRules sampleDigests sampleStore (sampleHistory sampleStore sampleInputs)
        (recordOf sampleDigests claim)) ↔
    AllPublishable sampleDigests sampleStore (retain sampleInputs) [runPhysical] idleAssessments :=
  composeClaims_satisfy_iff sampleDigests sampleStore _ (by decide +kernel) joinNames runPolicy
    (by decide +kernel) ⟨[runSlot "s1" "t1",runSlot "s2" "t2"],[runPhysical.expansion]⟩
    (by decide +kernel) sampleCommon [runPhysical] rfl idleAssessments
    (by
      intro p hp slot hs
      obtain rfl := List.mem_singleton.mp hp
      simp only [runPhysical, List.mem_cons, List.not_mem_nil, or_false] at hs
      rcases hs with rfl | rfl
      · exact .initial "not-selected"
      · exact .initial "not-selected")
    (fun _ => []) "run" sampleStore _ (extends_refl _) (by decide +kernel) rfl

/-- A failed observation, a later execution with a passing observation, and one more observation of
it that ended in an error. -/
def supersededInputs : List EventInput :=
  [executionInput "a1" .pass,observationInput "r1" "a1" "s1" .fail,executionInput "a2" .pass,
    observationInput "r2" "a2" "s1" .pass,observationInput "r3" "a2" "s1" .error]

def supersededStore : Store where
  files := sampleExecutionFiles "a1" .pass ++ sampleExecutionFiles "a2" .pass ++
    sampleObservationFiles "r1" "a1" [("s1",.fail)] .fail ++
    sampleObservationFiles "r2" "a2" [("s1",.pass)] .pass ++
    sampleObservationFiles "r3" "a2" [("s1",.error)] .error ++
    historyFiles (retain supersededInputs)
  distinct := by decide +kernel

def supersededHistory : HistorySnapshot := sampleHistory supersededStore supersededInputs

/-- What the invocation holds that made the last observation, over the cached execution. -/
def supersededSlot : ClaimSlot :=
  { initialSlot (runSlot "s1" "t1") "halted-before-dispatch" with
    execution := some (sampleExecution "a2")
    state := slotState .error
    reason := none
    observation := some (observationRef ⟨observationPath "r3" "check.json","check-5r3",1⟩
      (sampleCheck "r3" "a2" [("s1",.error)] .error)) }

def supersededAssessments : Assessments := fun key =>
  if key = ("claim","s1") then supersededSlot
  else initialSlot (runSlot "s2" "t2") "halted-before-dispatch"

theorem supersededSlot_held : Held sampleDigests supersededStore (retain supersededInputs)
    (some sampleDescriptor) (runSlot "s1" "t1") supersededSlot :=
  .observed ⟨observationPath "r3" "check.json","check-5r3",1⟩
    (sampleCheck "r3" "a2" [("s1",.error)] .error)
    (canonical (.check (sampleCheck "r3" "a2" [("s1",.error)] .error)))
    (retain supersededInputs)[4] none
    (.observing (sampleExecution "a2") (retain supersededInputs)[2]
      (.initial "halted-before-dispatch") rfl rfl
      ⟨by decide +kernel,by decide +kernel,by decide +kernel,sampleArtifact "a2" .pass,
        by decide +kernel,rfl⟩)
    (by decide +kernel) (by decide +kernel) (by decide +kernel) (by decide +kernel)
    (by decide +kernel) (by decide +kernel) (by decide +kernel) (by decide +kernel)
    (by decide +kernel)

/-- The member's failure precedes its candidate, and publication still reports it as hidden. -/
theorem composeClaims_hide_superseded :
    readHistory sampleDigests supersededStore none = .ok supersededHistory ∧
    (∀ slot ∈ runPhysical.expansion.slots, Held sampleDigests supersededStore
      supersededHistory.events runPhysical.descriptor slot
      (supersededAssessments (slotKey slot.member))) ∧
    (selectCandidates sampleDigests supersededStore sampleDescriptor [sampleMember "s1" "t1"]
      supersededHistory).map (List.map (fun selection =>
        (selection.candidate.map Candidate.sequence,selection.blockingEvents.map
          HistoryRef.sequence))) = .ok [(some 3,[2])] ∧
    ∃ claim ∈ composeClaims runPolicy (fun _ => []) "run" sampleCommon
        (assessFullHistory sampleDigests supersededStore supersededHistory [runPhysical]
          supersededAssessments),
      ∃ slot ∈ claim.executions,
        validateSlot sampleDigests supersededStore supersededHistory (recordOf sampleDigests claim)
          slot = .error "v4 store: claim hides an unsuperseded canonical failure" := by
  refine ⟨by decide +kernel,?_,by decide +kernel,by decide +kernel⟩
  intro slot hs
  simp only [runPhysical, List.mem_cons, List.not_mem_nil, or_false] at hs
  rcases hs with rfl | rfl
  · exact supersededSlot_held
  · exact .initial "halted-before-dispatch"

end Samples

end RunPublication

end EvidenceV4
