import EvidenceV4.MigrationManifest

/-!
# The ids of a migrated manifest

The register of owners holds a legacy spelling under every id that it migrates
to. When no id has two owners, the migration of ids is injective on the spellings
that a manifest uses, so two obligations share an id only when a claim and a
target are spelled alike.
-/

set_option autoImplicit false

namespace EvidenceV4

namespace Migration

open CheckedExcept
open CheckerJson (PyString points)
open GateManifest (obligationId producerClaimId evidenceToolId)
open PolicyDocument (mapGet mapGet_mem mapGet_isSome mapGet_of_mem)
open PythonData

section Dedup

theorem dedup_step (values seen : List PyString) :
    (∀ name, name ∈ values.foldl (fun seen value =>
        if value ∈ seen then seen else seen ++ [value]) seen ↔ name ∈ seen ∨ name ∈ values) ∧
      (seen.Nodup → (values.foldl (fun seen value =>
        if value ∈ seen then seen else seen ++ [value]) seen).Nodup) := by
  induction values generalizing seen with
  | nil => simp
  | cons value values ih =>
    rw [List.foldl_cons]
    by_cases known : value ∈ seen
    · rw [if_pos known]
      obtain ⟨members,distinct⟩ := ih seen
      apply And.intro _ distinct
      intro name
      rw [members, List.mem_cons]
      constructor
      · exact Or.imp_right Or.inr
      · rintro (old | rfl | new)
        · exact .inl old
        · exact .inl known
        · exact .inr new
    · rw [if_neg known]
      obtain ⟨members,distinct⟩ := ih (seen ++ [value])
      constructor
      · intro name
        rw [members, List.mem_append, List.mem_singleton, List.mem_cons, or_assoc]
      · intro fresh
        apply distinct
        exact fresh.append (List.nodup_singleton value)
          (List.disjoint_singleton.mpr known)

@[simp] theorem mem_dedup {values : List PyString} {name : PyString} :
    name ∈ dedup values ↔ name ∈ values := by
  simpa [dedup] using (dedup_step values []).1 name

theorem dedup_nodup (values : List PyString) : (dedup values).Nodup :=
  (dedup_step values []).2 List.nodup_nil

theorem dedup_eq_nil {values : List PyString} : dedup values = [] ↔ values = [] := by
  simp only [List.eq_nil_iff_forall_not_mem, mem_dedup]

end Dedup

section Entries

variable {α : Type} {entries : List (PyString × α)} {key key' : PyString} {start value : α}
  {change : α → α}

theorem upsert_keys : (upsert entries key start change).map Prod.fst =
    if key ∈ entries.map Prod.fst then entries.map Prod.fst else entries.map Prod.fst ++ [key] := by
  unfold upsert
  split
  · rw [List.map_map]
    apply List.map_congr_left
    intro entry _
    by_cases same : entry.1 = key
    · simp [same]
    · simp [same]
  · rw [List.map_append]
    rfl

theorem mem_upsert_keys : key' ∈ (upsert entries key start change).map Prod.fst ↔
    key' ∈ entries.map Prod.fst ∨ key' = key := by
  rw [upsert_keys]
  by_cases known : key ∈ entries.map Prod.fst
  · rw [if_pos known]
    constructor
    · exact .inl
    · rintro (old | rfl)
      · exact old
      · exact known
  · rw [if_neg known, List.mem_append, List.mem_singleton]

theorem upsert_distinct (distinct : (entries.map Prod.fst).Nodup) :
    ((upsert entries key start change).map Prod.fst).Nodup := by
  rw [upsert_keys]
  by_cases known : key ∈ entries.map Prod.fst
  · rwa [if_pos known]
  · rw [if_neg known]
    exact distinct.append (List.nodup_singleton key) (List.disjoint_singleton.mpr known)

theorem mem_upsert : (key',value) ∈ upsert entries key start change ↔
    (key' ≠ key ∧ (key',value) ∈ entries) ∨ (key' = key ∧
      ((∃ old, (key,old) ∈ entries ∧ value = change old) ∨
        (key ∉ entries.map Prod.fst ∧ value = change start))) := by
  unfold upsert
  by_cases known : key ∈ entries.map Prod.fst
  · rw [if_pos known, List.mem_map]
    constructor
    · rintro ⟨⟨name,old⟩,member,same⟩
      by_cases here : name = key
      · subst here
        rw [if_pos rfl] at same
        obtain ⟨rfl,rfl⟩ := Prod.mk.inj same
        exact .inr ⟨rfl,.inl ⟨old,member,rfl⟩⟩
      · rw [if_neg here] at same
        obtain ⟨rfl,rfl⟩ := Prod.mk.inj same
        exact .inl ⟨here,member⟩
    · rintro (⟨apart,member⟩ | ⟨rfl,⟨old,member,rfl⟩ | ⟨missing,_⟩⟩)
      · exact ⟨_,member,if_neg apart⟩
      · exact ⟨_,member,if_pos rfl⟩
      · exact absurd known missing
  · rw [if_neg known, List.mem_append, List.mem_singleton, Prod.mk.injEq]
    constructor
    · rintro (member | ⟨rfl,rfl⟩)
      · exact .inl ⟨fun same => known (same ▸ List.mem_map.mpr ⟨_,member,rfl⟩),member⟩
      · exact .inr ⟨rfl,.inr ⟨known,rfl⟩⟩
    · rintro (⟨_,member⟩ | ⟨rfl,⟨old,member,_⟩ | ⟨_,rfl⟩⟩)
      · exact .inl member
      · exact absurd (List.mem_map.mpr ⟨_,member,rfl⟩) known
      · exact .inr ⟨rfl,rfl⟩

theorem upsert_fresh (fresh : key ∉ entries.map Prod.fst) :
    upsert entries key start change = entries ++ [(key,change start)] :=
  if_neg fresh

end Entries

section Owners

/-- The id is owned by the legacy spelling. -/
def Owns (owners : List (PyString × List PyString)) (migrated legacy : PyString) : Prop :=
  ∃ legacies, (migrated,legacies) ∈ owners ∧ legacy ∈ legacies

variable {owners : List (PyString × List PyString)} {migrated migrated' legacy legacy' : PyString}

theorem own_owns : Owns (own owners migrated legacy) migrated' legacy' ↔
    Owns owners migrated' legacy' ∨ (migrated' = migrated ∧ legacy' = legacy) := by
  unfold Owns own
  simp only [mem_upsert]
  constructor
  · rintro ⟨legacies,⟨_,member⟩ | ⟨rfl,⟨old,member,rfl⟩ | ⟨_,rfl⟩⟩,listed⟩
    · exact .inl ⟨legacies,member,listed⟩
    · by_cases known : legacy ∈ old
      · rw [if_pos known] at listed
        exact .inl ⟨old,member,listed⟩
      · rw [if_neg known, List.mem_append, List.mem_singleton] at listed
        rcases listed with listed | rfl
        · exact .inl ⟨old,member,listed⟩
        · exact .inr ⟨rfl,rfl⟩
    · rw [if_neg List.not_mem_nil, List.nil_append, List.mem_singleton] at listed
      exact .inr ⟨rfl,listed⟩
  · rintro (⟨legacies,member,listed⟩ | ⟨rfl,rfl⟩)
    · by_cases same : migrated' = migrated
      · subst same
        refine ⟨_,.inr ⟨rfl,.inl ⟨legacies,member,rfl⟩⟩,?_⟩
        split
        · exact listed
        · exact List.mem_append_left _ listed
      · exact ⟨legacies,.inl ⟨same,member⟩,listed⟩
    · by_cases known : migrated' ∈ owners.map Prod.fst
      · obtain ⟨⟨_,old⟩,member,rfl⟩ := List.mem_map.mp known
        refine ⟨_,.inr ⟨rfl,.inl ⟨old,member,rfl⟩⟩,?_⟩
        by_cases listed : legacy' ∈ old
        · rwa [if_pos listed]
        · rw [if_neg listed]
          exact List.mem_append_right _ (List.mem_singleton_self _)
      · exact ⟨_,.inr ⟨rfl,.inr ⟨known,rfl⟩⟩,by simp⟩

theorem own_distinct (distinct : (owners.map Prod.fst).Nodup) :
    ((own owners migrated legacy).map Prod.fst).Nodup :=
  upsert_distinct distinct

/-- An id with at most one owner has one. -/
theorem owner_unique (distinct : (owners.map Prod.fst).Nodup)
    (single : ∀ owner ∈ owners, owner.2.length ≤ 1) (first : Owns owners migrated legacy)
    (second : Owns owners migrated legacy') : legacy = legacy' := by
  obtain ⟨legacies,member,listed⟩ := first
  obtain ⟨legacies',member',listed'⟩ := second
  have same := List.inj_on_of_nodup_map distinct member member' rfl
  obtain ⟨_,rfl⟩ := Prod.mk.inj same
  have short := single _ member
  match legacies, short with
  | [_], _ => rw [List.mem_singleton.mp listed, List.mem_singleton.mp listed']

end Owners

section Conversion

variable {host : Host} {details : ClaimIndex} {converted : Converted} {claimId legacy : PyString}

theorem idStrings_some {value : PyData} {grammar : PyString → Bool} {names : List PyString}
    (h : idStrings value grammar = some names) :
    names ≠ [] ∧ names.Nodup ∧ ∀ name ∈ names, grammar name = true := by
  unfold idStrings at h
  split at h
  · next listed _ =>
    rw [Option.ite_none_right_eq_some] at h
    obtain ⟨⟨filled,each⟩,same⟩ := h
    obtain rfl := Option.some.inj same
    refine ⟨?_,dedup_nodup listed,?_⟩
    · intro none
      rw [dedup_eq_nil.mp none] at filled
      cases filled
    · intro name member
      exact List.all_eq_true.mp each name (mem_dedup.mp member)
  · cases h

/-- A migrated id is in the alphabet of the producer. -/
theorem evidenceClaimId_spelled {migrated : PyString} (h : evidenceClaimId legacy = some migrated) :
    producerClaimId migrated = true :=
  (Option.filter_eq_some_iff.mp h).2

/-- The ids of a converted claim come from its legacy spellings. -/
structure WellConverted (converted : Converted) : Prop where
  migrated : evidenceClaimId converted.claimId = some converted.migrated
  targets : ∀ target ∈ converted.targets, evidenceClaimId target.1 = some target.2
  filled : converted.targets ≠ []
  layersFilled : converted.layers ≠ []
  layersDistinct : converted.layers.Nodup
  layersSpelled : ∀ layer ∈ converted.layers, evidenceToolId layer = true

theorem mem_migratedTargets {targets : List PyString} {target : PyString × PyString} :
    target ∈ migratedTargets targets ↔
      target.1 ∈ targets ∧ evidenceClaimId target.1 = some target.2 := by
  obtain ⟨legacy,migrated⟩ := target
  simp only [migratedTargets, List.mem_filterMap, Option.map_eq_some_iff, Prod.mk.injEq]
  constructor
  · rintro ⟨_,member,_,found,rfl,rfl⟩
    exact ⟨member,found⟩
  · intro ⟨member,found⟩
    exact ⟨_,member,_,found,rfl,rfl⟩

theorem requiredTargets_ok {place : PyString} {claim : PyFields} {targets : List PyString} :
    requiredTargets host place claim = .ok targets ↔
      idStrings (get claim "required_targets") obligationId = some targets := by
  unfold requiredTargets
  cases idStrings (get claim "required_targets") obligationId with
  | none => simp
  | some names => simp

theorem requiredLayers_ok {place : PyString} {claim : PyFields} {layers : List PyString} :
    requiredLayers host place claim = .ok layers ↔
      idStrings (get claim "layers") evidenceToolId = some layers := by
  unfold requiredLayers
  cases idStrings (get claim "layers") evidenceToolId with
  | none => simp
  | some names => simp

/-- What a legacy claim declares, when it converts. -/
theorem convert_ok : convert host details claimId = .ok converted ↔
    ∃ claim migrated targets layers, mapGet details claimId = some claim ∧
      evidenceClaimId claimId = some migrated ∧
      idStrings (get claim "required_targets") obligationId = some targets ∧
      idStrings (get claim "layers") evidenceToolId = some layers ∧
      unprefixed targets = [] ∧ unmappable targets = [] ∧
      migrated ∉ dedup ((migratedTargets targets).map Prod.snd) ∧
      converted = ⟨claimId,claim,migrated,migratedTargets targets,layers⟩ := by
  unfold convert
  cases detail : mapGet details claimId with
  | none => simp
  | some claim =>
    cases named : evidenceClaimId claimId with
    | none => simp
    | some migrated =>
      simp only [convertTargets, requiredTargets_ok, requiredLayers_ok, bind_ok, check_ok, pure_ok,
        exists_unit, Option.some.injEq]
      constructor
      · rintro ⟨targets,listed,layers,tools,colon,mapped,apart,rfl⟩
        exact ⟨claim,migrated,targets,layers,rfl,rfl,listed,tools,colon,mapped,apart,rfl⟩
      · rintro ⟨_,_,targets,layers,rfl,rfl,listed,tools,colon,mapped,apart,rfl⟩
        exact ⟨targets,listed,layers,tools,colon,mapped,apart,rfl⟩

theorem convert_wellConverted (h : convert host details claimId = .ok converted) :
    WellConverted converted ∧ converted.claimId = claimId := by
  obtain ⟨claim,migrated,targets,layers,_,named,listed,tools,_,mapped,_,rfl⟩ := convert_ok.mp h
  obtain ⟨filled,_,_⟩ := idStrings_some listed
  obtain ⟨layersFilled,distinct,each⟩ := idStrings_some tools
  refine ⟨⟨named,?_,?_,layersFilled,distinct,each⟩,rfl⟩
  · exact fun target member => (mem_migratedTargets.mp member).2
  · intro none
    obtain ⟨target,member⟩ := List.exists_mem_of_ne_nil targets filled
    rcases maps : evidenceClaimId target with _ | id
    · have refused : target ∈ unmappable targets :=
        List.mem_filter.mpr ⟨member,by rw [maps]; rfl⟩
      rw [mapped] at refused
      exact List.not_mem_nil refused
    · have kept : (target,id) ∈ migratedTargets targets := mem_migratedTargets.mpr ⟨member,maps⟩
      exact List.ne_nil_of_mem kept none

end Conversion

section Registration

variable {s : Synthesis} {pairs : List (PyString × PyString)} {claims : List Converted}
  {converted : Converted}

/-- What the targets and claims that were registered leave in a synthesis. -/
structure Registers (s : Synthesis) (pairs : List (PyString × PyString))
    (claims : List Converted) : Prop where
  invariants : ∀ name, name ∈ s.invariants.map Prod.fst ↔
    name ∈ pairs.map Prod.fst ∧ isWitness name = false
  witnesses : ∀ name, name ∈ s.witnesses.map Prod.fst ↔
    name ∈ pairs.map Prod.fst ∧ isWitness name = true
  invariantsDistinct : (s.invariants.map Prod.fst).Nodup
  witnessesDistinct : (s.witnesses.map Prod.fst).Nodup
  idsDistinct : (s.targetIds.map Prod.fst).Nodup
  ids : ∀ pair ∈ pairs, pair ∈ s.targetIds
  ownersDistinct : (s.owners.map Prod.fst).Nodup
  owners : ∀ migrated legacy, Owns s.owners migrated legacy ↔ (legacy,migrated) ∈ pairs ∨
    ∃ claim ∈ claims, claim.migrated = migrated ∧ claim.claimId = legacy

def emptySynthesis : Synthesis := ⟨[],[],[],[],[],[]⟩

theorem registers_nothing : Registers emptySynthesis [] [] := by
  constructor <;> simp [emptySynthesis, Owns]

theorem mem_addClaim_keys {bucket : List (PyString × List PyString)}
    {target claimId name : PyString} : name ∈ (addClaim bucket target claimId).map Prod.fst ↔
      name ∈ bucket.map Prod.fst ∨ name = target :=
  mem_upsert_keys

theorem addTarget_registers {claimId : PyString} {target : PyString × PyString}
    (same : ∀ pair ∈ pairs, pair.1 = target.1 → pair = target) (h : Registers s pairs claims) :
    Registers (addTarget claimId s target) (pairs ++ [target]) claims := by
  have names : ∀ name, name ∈ (pairs ++ [target]).map Prod.fst ↔
      name ∈ pairs.map Prod.fst ∨ name = target.1 := by
    intro name
    simp
  constructor
  · intro name
    rw [names]
    by_cases kind : isWitness target.1 = true
    · simp only [addTarget, kind, if_true, h.invariants]
      constructor
      · exact fun old => ⟨.inl old.1,old.2⟩
      · rintro ⟨old | rfl,plain⟩
        · exact ⟨old,plain⟩
        · rw [kind] at plain
          cases plain
    · simp only [addTarget, if_neg kind, mem_addClaim_keys, h.invariants]
      constructor
      · rintro (old | rfl)
        · exact ⟨.inl old.1,old.2⟩
        · exact ⟨.inr rfl,Bool.not_eq_true _ ▸ kind⟩
      · rintro ⟨old | new,plain⟩
        · exact .inl ⟨old,plain⟩
        · exact .inr new
  · intro name
    rw [names]
    by_cases kind : isWitness target.1 = true
    · simp only [addTarget, kind, if_true, mem_addClaim_keys, h.witnesses]
      constructor
      · rintro (old | rfl)
        · exact ⟨.inl old.1,old.2⟩
        · exact ⟨.inr rfl,kind⟩
      · rintro ⟨old | new,witness⟩
        · exact .inl ⟨old,witness⟩
        · exact .inr new
    · simp only [addTarget, if_neg kind, h.witnesses]
      constructor
      · exact fun old => ⟨.inl old.1,old.2⟩
      · rintro ⟨old | rfl,witness⟩
        · exact ⟨old,witness⟩
        · exact absurd witness kind
  · simp only [addTarget]
    split
    · exact h.invariantsDistinct
    · exact upsert_distinct h.invariantsDistinct
  · simp only [addTarget]
    split
    · exact upsert_distinct h.witnessesDistinct
    · exact h.witnessesDistinct
  · show ((upsert s.targetIds target.1 target.2 (fun _ => target.2)).map Prod.fst).Nodup
    exact upsert_distinct h.idsDistinct
  · intro pair member
    rw [addTarget, mem_upsert]
    rcases List.mem_append.mp member with old | new
    · by_cases here : pair.1 = target.1
      · obtain rfl := same pair old here
        exact .inr ⟨rfl,.inl ⟨pair.2,h.ids pair old,rfl⟩⟩
      · exact .inl ⟨here,h.ids pair old⟩
    · obtain rfl := List.mem_singleton.mp new
      apply Or.inr
      apply And.intro rfl
      by_cases known : pair.1 ∈ s.targetIds.map Prod.fst
      · obtain ⟨⟨_,old⟩,found,rfl⟩ := List.mem_map.mp known
        exact .inl ⟨old,found,rfl⟩
      · exact .inr ⟨known,rfl⟩
  · rw [addTarget]
    exact own_distinct h.ownersDistinct
  · intro migrated legacy
    simp only [addTarget, own_owns, h.owners, List.mem_append, List.mem_singleton]
    constructor
    · rintro ((old | claim) | ⟨rfl,rfl⟩)
      · exact .inl (.inl old)
      · exact .inr claim
      · exact .inl (.inr rfl)
    · rintro ((old | rfl) | claim)
      · exact .inl (.inl old)
      · exact .inr ⟨rfl,rfl⟩
      · exact .inl (.inr claim)

/-- Targets that agree with each other on the id of a name. -/
def Functional (pairs : List (PyString × PyString)) : Prop :=
  ∀ pair ∈ pairs, evidenceClaimId pair.1 = some pair.2

theorem Functional.same {first second : PyString × PyString} (h : Functional pairs)
    (member : first ∈ pairs) (maps : evidenceClaimId second.1 = some second.2)
    (named : first.1 = second.1) : first = second := by
  apply Prod.ext named
  have maps' := h first member
  rw [named, maps] at maps'
  exact (Option.some.inj maps').symm

theorem addTargets_registers {claimId : PyString} {targets : List (PyString × PyString)}
    (functional : Functional pairs) (mapped : Functional targets) (h : Registers s pairs claims) :
    Registers (targets.foldl (addTarget claimId) s) (pairs ++ targets) claims := by
  induction targets generalizing s pairs with
  | nil => rwa [List.append_nil]
  | cons target targets ih =>
    obtain ⟨maps,mapped⟩ := List.forall_mem_cons.mp mapped
    rw [List.foldl_cons, List.append_cons]
    apply ih _ mapped
    · exact addTarget_registers (fun pair member => functional.same member maps) h
    · intro pair member
      rcases List.mem_append.mp member with old | new
      · exact functional pair old
      · exact List.mem_singleton.mp new ▸ maps

theorem register_registers {required : Bool} (functional : Functional pairs)
    (well : WellConverted converted) (h : Registers s pairs claims) :
    Registers (register required s converted) (pairs ++ converted.targets)
      (claims ++ [converted]) := by
  have inner := @addTargets_registers _ _ _ converted.claimId _ functional well.targets h
  refine { inner with
    ownersDistinct := own_distinct inner.ownersDistinct
    owners := ?_ }
  intro migrated legacy
  simp only [register, own_owns, inner.owners, List.mem_append, List.mem_singleton]
  constructor
  · rintro ((pair | ⟨claim,member,named⟩) | ⟨rfl,rfl⟩)
    · exact .inl pair
    · exact .inr ⟨claim,.inl member,named⟩
    · exact .inr ⟨converted,.inr rfl,rfl,rfl⟩
  · rintro (pair | ⟨claim,old | rfl,named,spelled⟩)
    · exact .inl (.inl pair)
    · exact .inl (.inr ⟨claim,old,named,spelled⟩)
    · exact .inr ⟨named.symm,spelled.symm⟩

end Registration

end Migration

end EvidenceV4
