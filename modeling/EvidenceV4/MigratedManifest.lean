import EvidenceV4.MigrationIds
import EvidenceV4.ProducerManifest

/-!
# The gate over a migrated manifest

The manifest that a synthesis of converted claims writes is readable by the gate:
its ids are in the alphabet of the producer, its claims rest on declared targets
and require tools. The gate refuses it only for an id declared twice, that is, for
a claim spelled like a target.
-/

set_option autoImplicit false

namespace EvidenceV4

namespace Migration

open CheckedExcept
open CheckerJson (PyString points)
open GateManifest (obligationId producerClaimId evidenceToolId loadManifest KindedEntry idOf kindsOf
  systemClaims allEntries)
open PolicyDocument (mapGet mapGet_mem mapGet_isSome mapGet_of_mem)
open ProducerManifest (Usable CollectionEntries Declares producer_spelled allEntries_declares
  rawEntries)
open PythonData

section Fields

variable {earlier later : PyFields} {key name : PyString} {value : PyData}

/-- The last field of a key decides. -/
theorem get_of_last (last : key ∉ later.map Prod.fst) :
    PythonData.get (earlier ++ (key,value) :: later) key = value := by
  have missing : later.reverse.find? (fun field => field.1 = key) = none := by
    apply List.find?_eq_none.mpr
    intro field member same
    exact last (List.mem_map.mpr ⟨field,List.mem_reverse.mp member,of_decide_eq_true same⟩)
  simp [PythonData.get, mapGet, List.find?_append, missing]

theorem get_of_head (apart : key ∉ later.map Prod.fst) :
    PythonData.get ((key,value) :: later) key = value :=
  @get_of_last [] later key value apart

theorem whenPresent_apart {present : Option PyData} (apart : name ≠ key) :
    name ∉ (whenPresent key present).map Prod.fst := by
  cases present with
  | none => exact List.not_mem_nil
  | some value => exact fun member => apart (List.mem_singleton.mp member)

theorem optional_apart {condition : Prop} [Decidable condition] (apart : name ≠ key) :
    name ∉ (if condition then [(key,value)] else []).map Prod.fst := by
  split
  · exact fun member => apart (List.mem_singleton.mp member)
  · exact List.not_mem_nil

end Fields

section Documents

variable {converted : Converted} {target migrated : PyString} {names : List PyString}

/-- What a synthesized obligation says beside its id. -/
def obligationRest (target migrated : PyString) (names : List PyString) (witness : Bool) : PyFields :=
  (if migrated ≠ target then [(points "legacy_id",.str target)] else []) ++
    (if witness then [(points "name",.str (bareName target))] else []) ++
    [(points "statement",.str (targetStatement target names))]

theorem obligation_usable {witness : Bool} (spelt : producerClaimId migrated = true) :
    Usable (obligation target migrated names witness)
      (migrated,(points "id",.str migrated) :: obligationRest target migrated names witness) := by
  refine ⟨?_,?_,spelt⟩
  · simp [obligation, obligationRest]
  · apply get_of_head
    simp only [obligationRest, List.map_append, List.mem_append, not_or]
    refine ⟨⟨optional_apart (by decide),optional_apart (by decide)⟩,?_⟩
    have apart : points "id" ≠ points "statement" := by decide
    exact fun member => apart (List.mem_singleton.mp member)

/-- What a system claim says in front of its dependencies, beside its id. -/
def claimHead (required : Bool) (converted : Converted) : PyFields :=
  (if converted.migrated ≠ converted.claimId then
      [(points "legacy_id",.str converted.claimId)] else []) ++
    [(points "required",.bool required)] ++
    whenPresent "statement" (asText (lookup (PythonData.get converted.claim "scope") "statement")) ++
    whenPresent "evidence_class" (asText (PythonData.get converted.claim "evidence_class"))

/-- What a system claim says behind its tools. -/
def claimTail (converted : Converted) : PyFields :=
  whenPresent "scope" (asObject (PythonData.get converted.claim "scope")) ++
    whenPresent "waiver" (asObject (PythonData.get converted.claim "waiver")) ++
    (if uninterpreted converted.claim = [] then [] else
      [(points "legacy_fields",.dict (uninterpreted converted.claim))])

def claimFields (required : Bool) (converted : Converted) : PyFields :=
  (points "id",.str converted.migrated) :: (claimHead required converted ++
    (points "depends_on",strings converted.dependsOn) ::
      (points "required_evidence",strings converted.layers) :: claimTail converted)

theorem systemClaim_fields (required : Bool) (converted : Converted) :
    systemClaim required converted = .dict (claimFields required converted) := by
  simp [systemClaim, claimFields, claimHead, claimTail]

theorem claimHead_apart {required : Bool} {name : PyString}
    (apart : name ∉ [points "legacy_id",points "required",points "statement",
      points "evidence_class"]) : name ∉ (claimHead required converted).map Prod.fst := by
  simp only [List.mem_cons, List.not_mem_nil, or_false, not_or] at apart
  simp only [claimHead, List.map_append, List.mem_append, not_or]
  refine ⟨⟨⟨optional_apart apart.1,?_⟩,whenPresent_apart apart.2.2.1⟩,
    whenPresent_apart apart.2.2.2⟩
  exact fun member => apart.2.1 (List.mem_singleton.mp member)

theorem claimTail_apart {name : PyString}
    (apart : name ∉ [points "scope",points "waiver",points "legacy_fields"]) :
    name ∉ (claimTail converted).map Prod.fst := by
  simp only [List.mem_cons, List.not_mem_nil, or_false, not_or] at apart
  simp only [claimTail, List.map_append, List.mem_append, not_or]
  refine ⟨⟨whenPresent_apart apart.1,whenPresent_apart apart.2.1⟩,?_⟩
  split
  · exact List.not_mem_nil
  · exact fun member => apart.2.2 (List.mem_singleton.mp member)

theorem claim_evidence (required : Bool) (converted : Converted) :
    PythonData.get (claimFields required converted) "required_evidence" =
      strings converted.layers := by
  rw [claimFields, List.append_cons, ← List.cons_append]
  exact get_of_last (claimTail_apart (by decide))

theorem claim_depends (required : Bool) (converted : Converted) :
    PythonData.get (claimFields required converted) "depends_on" =
      strings converted.dependsOn := by
  rw [claimFields, ← List.cons_append]
  apply get_of_last
  rw [List.map_cons, List.mem_cons, not_or]
  have apart : points "depends_on" ≠ points "required_evidence" := by decide
  exact ⟨apart,claimTail_apart (by decide)⟩

theorem claim_usable {required : Bool} (spelt : producerClaimId converted.migrated = true) :
    Usable (systemClaim required converted) (converted.migrated,claimFields required converted) := by
  refine ⟨systemClaim_fields required converted,?_,spelt⟩
  apply get_of_head
  simp only [List.map_append, List.map_cons, List.mem_append, List.mem_cons, not_or]
  exact ⟨claimHead_apart (by decide),by decide,by decide,claimTail_apart (by decide)⟩

end Documents

section Declared

variable {s : Synthesis} {pairs : List (PyString × PyString)} {claims : List Converted}
  {required : Converted → Bool} {library : Library}

def manifestFields (s : Synthesis) (note : PyData) : PyFields :=
  [(points "version",.int 1),(points "invariants",.list (obligations s s.invariants false)),
    (points "witnesses",.list (obligations s s.witnesses true)),
    (points "system_claims",.list s.systemClaims),(points "migration",note)]

/-- The id that a target was given. -/
def givenId (s : Synthesis) (target : PyString) : PyString := (mapGet s.targetIds target).getD []

/-- The targets of a bucket in the order of their ids. -/
def ordered (s : Synthesis) (bucket : List (PyString × List PyString)) :
    List (PyString × List PyString) :=
  bucket.insertionSort (fun a b => givenId s a.1 ≤ givenId s b.1)

def obligationEntries (s : Synthesis) (bucket : List (PyString × List PyString)) (witness : Bool) :
    List (PyString × PyFields) :=
  (ordered s bucket).map (fun entry => (givenId s entry.1,(points "id",.str (givenId s entry.1)) ::
    obligationRest entry.1 (givenId s entry.1) entry.2 witness))

def claimEntries (required : Converted → Bool) (claims : List Converted) :
    List (PyString × PyFields) :=
  claims.map (fun claim => (claim.migrated,claimFields (required claim) claim))

/-- The entries of the synthesized manifest, collection by collection. -/
def synthesizedParts (s : Synthesis) (required : Converted → Bool) (claims : List Converted) :
    List (List KindedEntry) :=
  [(obligationEntries s s.invariants false).map (fun entry => (entry,.invariant)),
    (obligationEntries s s.witnesses true).map (fun entry => (entry,.witness)),
    (claimEntries required claims).map (fun entry => (entry,.systemClaim))]

theorem obligations_ordered (s : Synthesis) (bucket : List (PyString × List PyString))
    (witness : Bool) : obligations s bucket witness = (ordered s bucket).map (fun entry =>
      obligation entry.1 (givenId s entry.1) entry.2 witness) :=
  rfl

theorem obligations_usable {bucket : List (PyString × List PyString)} {witness : Bool}
    (spelt : ∀ entry ∈ bucket, producerClaimId (givenId s entry.1) = true) :
    List.Forall₂ Usable (obligations s bucket witness) (obligationEntries s bucket witness) := by
  rw [obligations_ordered, obligationEntries, List.forall₂_map_left_iff, List.forall₂_map_right_iff,
    List.forall₂_same]
  intro entry member
  have inBucket : entry ∈ bucket := (List.perm_insertionSort _ _).mem_iff.mp member
  exact obligation_usable (spelt entry inBucket)

theorem claims_usable (well : ∀ claim ∈ claims, WellConverted claim) :
    List.Forall₂ Usable (claims.map (fun claim => systemClaim (required claim) claim))
      (claimEntries required claims) := by
  rw [claimEntries, List.forall₂_map_left_iff, List.forall₂_map_right_iff, List.forall₂_same]
  intro claim member
  exact claim_usable (evidenceClaimId_spelled (well claim member).migrated)

theorem manifest_declares {note : PyData}
    (spelt : ∀ entry ∈ s.invariants ++ s.witnesses, producerClaimId (givenId s entry.1) = true)
    (well : ∀ claim ∈ claims, WellConverted claim)
    (written : s.systemClaims = claims.map (fun claim => systemClaim (required claim) claim)) :
    Declares (manifestFields s note) (synthesizedParts s required claims).flatten := by
  refine ⟨_,.cons ⟨_,_,rfl,?_,rfl⟩ (.cons ⟨_,_,rfl,?_,rfl⟩ (.cons ⟨_,_,rfl,?_,rfl⟩ .nil)),rfl⟩
  · apply obligations_usable
    exact fun entry member => spelt entry (List.mem_append_left _ member)
  · apply obligations_usable
    exact fun entry member => spelt entry (List.mem_append_right _ member)
  · rw [written]
    exact claims_usable well

end Declared

section Distinct

variable {s : Synthesis} {claims : List Converted} {required : Converted → Bool}

/-- A synthesis of converted claims in which no id has two owners. -/
structure Synthesized (s : Synthesis) (required : Converted → Bool) (claims : List Converted) :
    Prop where
  registers : Registers s (claims.flatMap Converted.targets) claims
  well : ∀ claim ∈ claims, WellConverted claim
  distinct : (claims.map Converted.claimId).Nodup
  single : ∀ owner ∈ s.owners, owner.2.length ≤ 1
  written : s.systemClaims = claims.map (fun claim => systemClaim (required claim) claim)

/-- No claim is spelled like a target of a claim. -/
def ClaimsApart (claims : List Converted) : Prop :=
  ∀ claim ∈ claims, ∀ other ∈ claims, claim.claimId ∉ other.targets.map Prod.fst

theorem Synthesized.functional (h : Synthesized s required claims) :
    Functional (claims.flatMap Converted.targets) := by
  intro pair member
  obtain ⟨claim,listed,target⟩ := List.mem_flatMap.mp member
  exact (h.well claim listed).targets pair target

theorem Synthesized.given (h : Synthesized s required claims) {pair : PyString × PyString}
    (member : pair ∈ claims.flatMap Converted.targets) : givenId s pair.1 = pair.2 := by
  rw [givenId, mapGet_of_mem h.registers.idsDistinct (h.registers.ids pair member)]
  rfl

/-- A name in a bucket is a target with the id that it was given. -/
theorem Synthesized.paired (h : Synthesized s required claims) {name : PyString}
    (member : name ∈ (s.invariants ++ s.witnesses).map Prod.fst) :
    (name,givenId s name) ∈ claims.flatMap Converted.targets := by
  have listed : name ∈ (claims.flatMap Converted.targets).map Prod.fst := by
    rw [List.map_append, List.mem_append, h.registers.invariants, h.registers.witnesses] at member
    exact member.elim And.left And.left
  obtain ⟨pair,found,rfl⟩ := List.mem_map.mp listed
  rwa [h.given found]

theorem Synthesized.owned (h : Synthesized s required claims) {name : PyString}
    (member : name ∈ (s.invariants ++ s.witnesses).map Prod.fst) :
    Owns s.owners (givenId s name) name :=
  (h.registers.owners _ _).mpr (.inl (h.paired member))

/-- Names that share an id are one name. -/
theorem Synthesized.given_injective (h : Synthesized s required claims) {name name' : PyString}
    (first : name ∈ (s.invariants ++ s.witnesses).map Prod.fst)
    (second : name' ∈ (s.invariants ++ s.witnesses).map Prod.fst)
    (same : givenId s name = givenId s name') : name = name' :=
  owner_unique h.registers.ownersDistinct h.single (same ▸ h.owned first) (h.owned second)

theorem Synthesized.claim_owned (h : Synthesized s required claims) {claim : Converted}
    (member : claim ∈ claims) : Owns s.owners claim.migrated claim.claimId :=
  (h.registers.owners _ _).mpr (.inr ⟨claim,member,rfl,rfl⟩)

theorem obligationEntries_ids (bucket : List (PyString × List PyString)) (witness : Bool) :
    (obligationEntries s bucket witness).map Prod.fst =
      ((ordered s bucket).map Prod.fst).map (givenId s) := by
  simp only [obligationEntries, List.map_map]
  rfl

theorem mem_ordered_names {bucket : List (PyString × List PyString)} {name : PyString} :
    name ∈ (ordered s bucket).map Prod.fst ↔ name ∈ bucket.map Prod.fst :=
  ((List.perm_insertionSort _ bucket).map Prod.fst).mem_iff

theorem Synthesized.bucket_distinct (h : Synthesized s required claims)
    {bucket : List (PyString × List PyString)} {witness : Bool}
    (inside : ∀ name ∈ bucket.map Prod.fst, name ∈ (s.invariants ++ s.witnesses).map Prod.fst)
    (distinct : (bucket.map Prod.fst).Nodup) :
    ((obligationEntries s bucket witness).map Prod.fst).Nodup := by
  rw [obligationEntries_ids]
  apply List.Nodup.map_on
  · intro name first name' second same
    exact h.given_injective (inside _ (mem_ordered_names.mp first))
      (inside _ (mem_ordered_names.mp second)) same
  · exact ((List.perm_insertionSort _ bucket).map Prod.fst).nodup_iff.mpr distinct

theorem claimEntries_ids (required : Converted → Bool) (claims : List Converted) :
    (claimEntries required claims).map Prod.fst = claims.map Converted.migrated := by
  simp [claimEntries]

theorem Synthesized.claims_distinct (h : Synthesized s required claims) :
    ((claimEntries required claims).map Prod.fst).Nodup := by
  rw [claimEntries_ids]
  apply List.Nodup.map_on _ (List.Nodup.of_map _ h.distinct)
  intro claim first claim' second same
  have named : claim.claimId = claim'.claimId :=
    owner_unique h.registers.ownersDistinct h.single (same ▸ h.claim_owned first)
      (h.claim_owned second)
  exact List.inj_on_of_nodup_map h.distinct first second named

theorem parts_ids (s : Synthesis) (required : Converted → Bool) (claims : List Converted) :
    (synthesizedParts s required claims).flatten.map idOf =
      (obligationEntries s s.invariants false).map Prod.fst ++
        ((obligationEntries s s.witnesses true).map Prod.fst ++
          (claimEntries required claims).map Prod.fst) := by
  simp only [synthesizedParts, List.flatten_cons, List.flatten_nil, List.append_nil,
    List.map_append, List.map_map]
  rfl

/-- Invariants and witnesses never share an id. -/
theorem Synthesized.kinds_apart (h : Synthesized s required claims) :
    ((obligationEntries s s.invariants false).map Prod.fst).Disjoint
      ((obligationEntries s s.witnesses true).map Prod.fst) := by
  rw [obligationEntries_ids, obligationEntries_ids]
  intro id first second
  obtain ⟨name,invariant,rfl⟩ := List.mem_map.mp first
  obtain ⟨name',witness,same⟩ := List.mem_map.mp second
  rw [mem_ordered_names] at invariant witness
  have either : ∀ {name}, name ∈ s.invariants.map Prod.fst ∨ name ∈ s.witnesses.map Prod.fst →
      name ∈ (s.invariants ++ s.witnesses).map Prod.fst := by
    intro name member
    rwa [List.map_append, List.mem_append]
  obtain rfl := h.given_injective (either (.inr witness)) (either (.inl invariant)) same
  have plain := ((h.registers.invariants _).mp invariant).2
  rw [((h.registers.witnesses _).mp witness).2] at plain
  cases plain

/-- Every target is an invariant or a witness, under the id it migrates to. -/
theorem Synthesized.target_listed (h : Synthesized s required claims) {pair : PyString × PyString}
    (member : pair ∈ claims.flatMap Converted.targets) :
    pair.2 ∈ (obligationEntries s s.invariants false).map Prod.fst ++
      (obligationEntries s s.witnesses true).map Prod.fst := by
  have listed := List.mem_map_of_mem (f := Prod.fst) member
  rw [List.mem_append, obligationEntries_ids, obligationEntries_ids, List.mem_map, List.mem_map]
  by_cases witness : isWitness pair.1 = true
  · exact .inr ⟨pair.1,mem_ordered_names.mpr ((h.registers.witnesses _).mpr ⟨listed,witness⟩),
      h.given member⟩
  · exact .inl ⟨pair.1,mem_ordered_names.mpr ((h.registers.invariants _).mpr
      ⟨listed,Bool.not_eq_true _ ▸ witness⟩),h.given member⟩

theorem Synthesized.listed_target (h : Synthesized s required claims) {id : PyString}
    (member : id ∈ (obligationEntries s s.invariants false).map Prod.fst ++
      (obligationEntries s s.witnesses true).map Prod.fst) :
    ∃ pair ∈ claims.flatMap Converted.targets, pair.2 = id := by
  rw [obligationEntries_ids, obligationEntries_ids, ← List.map_append] at member
  obtain ⟨name,listed,rfl⟩ := List.mem_map.mp member
  rw [List.mem_append, mem_ordered_names, mem_ordered_names, ← List.mem_append,
    ← List.map_append] at listed
  exact ⟨_,h.paired listed,rfl⟩

/-- The ids of the manifest differ exactly when no claim is spelled like a target. -/
theorem Synthesized.ids_distinct_iff (h : Synthesized s required claims) :
    ((synthesizedParts s required claims).flatten.map idOf).Nodup ↔ ClaimsApart claims := by
  rw [parts_ids, ← List.append_assoc]
  constructor
  · intro distinct claim first other second spelled
    obtain ⟨pair,target,same⟩ := List.mem_map.mp spelled
    have member : pair ∈ claims.flatMap Converted.targets :=
      List.mem_flatMap.mpr ⟨other,second,target⟩
    have maps := h.functional pair member
    rw [same, (h.well claim first).migrated] at maps
    apply List.disjoint_of_nodup_append distinct (h.target_listed member)
    rw [claimEntries_ids, ← Option.some.inj maps]
    exact List.mem_map_of_mem first
  · intro apart
    apply List.Nodup.append
    · apply List.Nodup.append
      · apply h.bucket_distinct _ h.registers.invariantsDistinct
        intro name member
        rw [List.map_append]
        exact List.mem_append_left _ member
      · apply h.bucket_distinct _ h.registers.witnessesDistinct
        intro name member
        rw [List.map_append]
        exact List.mem_append_right _ member
      · exact h.kinds_apart
    · exact h.claims_distinct
    · intro id first second
      obtain ⟨pair,member,rfl⟩ := h.listed_target first
      rw [claimEntries_ids] at second
      obtain ⟨claim,listed,same⟩ := List.mem_map.mp second
      have owned : Owns s.owners pair.2 pair.1 := (h.registers.owners _ _).mpr (.inl member)
      have named : claim.claimId = pair.1 :=
        owner_unique h.registers.ownersDistinct h.single (same ▸ h.claim_owned listed) owned
      obtain ⟨other,found,target⟩ := List.mem_flatMap.mp member
      exact apart claim listed other found (List.mem_map.mpr ⟨pair,target,named.symm⟩)

end Distinct

section Loaded

variable {s : Synthesis} {claims : List Converted} {required : Converted → Bool}
  {library : Library} {note : PyData}

theorem Synthesized.entries_read (h : Synthesized s required claims) :
    allEntries library (manifestFields s note) =
      .ok (synthesizedParts s required claims).flatten := by
  apply allEntries_declares.mpr
  constructor
  · intro collection member
    simp only [GateManifest.collections, List.mem_cons, List.not_mem_nil, or_false] at member
    rcases member with rfl | rfl | rfl
    · rintro ⟨⟩
    · rintro ⟨⟩
    · rintro ⟨⟩
  · apply manifest_declares _ h.well h.written
    intro entry member
    have paired := h.paired (List.mem_map_of_mem member)
    exact evidenceClaimId_spelled (h.functional _ paired)

theorem systemClaims_parts : systemClaims (synthesizedParts s required claims).flatten =
    claimEntries required claims := by
  simp [systemClaims, synthesizedParts, List.filter_append, List.filter_map, Function.comp_def]

def groundsOf (claim : Converted) : GateManifest.ClaimGrounds :=
  (claim.migrated,claim.dependsOn,claim.layers)

/-- A target is declared under a kind that a claim may rest on. -/
theorem Synthesized.target_declared (h : Synthesized s required claims)
    (distinct : ((synthesizedParts s required claims).flatten.map idOf).Nodup)
    {pair : PyString × PyString} (member : pair ∈ claims.flatMap Converted.targets) :
    ∃ kind, mapGet (kindsOf (synthesizedParts s required claims).flatten) pair.2 = some kind ∧
      kind ≠ .systemClaim := by
  have keys : ((kindsOf (synthesizedParts s required claims).flatten).map Prod.fst).Nodup := by
    simpa only [kindsOf, List.map_map, Function.comp_def] using distinct
  have declared : ∀ {entry : PyString × PyFields} {kind : ObligationKind},
      (entry,kind) ∈ (synthesizedParts s required claims).flatten →
      mapGet (kindsOf (synthesizedParts s required claims).flatten) entry.1 = some kind :=
    fun found => mapGet_of_mem keys (List.mem_map.mpr ⟨_,found,rfl⟩)
  rcases List.mem_append.mp (h.target_listed member) with listed | listed
  · obtain ⟨entry,found,same⟩ := List.mem_map.mp listed
    refine ⟨.invariant,same ▸ declared ?_,by rintro ⟨⟩⟩
    exact List.mem_flatten.mpr ⟨_,List.mem_cons_self,List.mem_map.mpr ⟨entry,found,rfl⟩⟩
  · obtain ⟨entry,found,same⟩ := List.mem_map.mp listed
    refine ⟨.witness,same ▸ declared ?_,by rintro ⟨⟩⟩
    exact List.mem_flatten.mpr ⟨_,List.mem_cons_of_mem _ List.mem_cons_self,
      List.mem_map.mpr ⟨entry,found,rfl⟩⟩

theorem Synthesized.claim_valid (h : Synthesized s required claims)
    (distinct : ((synthesizedParts s required claims).flatten.map idOf).Nodup) {claim : Converted}
    (member : claim ∈ claims) :
    GateManifest.validateSystemClaim library
      (kindsOf (synthesizedParts s required claims).flatten)
      (claim.migrated,claimFields (required claim) claim) =
        .ok (claim.dependsOn,claim.layers) := by
  have well := h.well claim member
  have listed : ∀ name ∈ claim.dependsOn, ∃ pair ∈ claim.targets, pair.2 = name := by
    intro name depends
    exact List.mem_map.mp (mem_dedup.mp depends)
  apply GateManifest.validateSystemClaim_ok.mpr
  refine ⟨⟨claim_depends _ claim,?_,?_,dedup_nodup _⟩,?_,claim_evidence _ claim,well.layersFilled,
    well.layersSpelled,well.layersDistinct⟩
  · intro none
    exact well.filled (List.map_eq_nil_iff.mp (dedup_eq_nil.mp none))
  · intro name depends
    obtain ⟨pair,target,rfl⟩ := listed name depends
    exact producer_spelled (evidenceClaimId_spelled (well.targets pair target))
  · intro name depends
    obtain ⟨pair,target,rfl⟩ := listed name depends
    exact h.target_declared distinct (List.mem_flatMap.mpr ⟨claim,member,target⟩)

/-- Without a claim spelled like a target, the gate loads the manifest. -/
theorem Synthesized.loaded (h : Synthesized s required claims) (apart : ClaimsApart claims) :
    loadManifest library (.dict (manifestFields s note)) = .ok (GateManifest.obligationsOf
      (synthesizedParts s required claims).flatten (claims.map groundsOf)) := by
  have distinct := h.ids_distinct_iff.mpr apart
  apply GateManifest.loadManifest_ok.mpr
  refine ⟨_,_,_,rfl,h.entries_read,distinct,?_,rfl⟩
  rw [systemClaims_parts, claimEntries, List.forall₂_map_left_iff, List.forall₂_map_right_iff,
    List.forall₂_same]
  exact fun claim member => ⟨rfl,h.claim_valid distinct member⟩

theorem Synthesized.loaded_apart (h : Synthesized s required claims)
    {obligations : GateManifest.Obligations}
    (loaded : loadManifest library (.dict (manifestFields s note)) = .ok obligations) :
    ClaimsApart claims := by
  obtain ⟨manifest,entries,_,same,read,distinct,_⟩ := GateManifest.loadManifest_ok.mp loaded
  obtain rfl := PyData.dict.inj same
  obtain rfl := Except.ok.inj (read.symm.trans h.entries_read)
  exact h.ids_distinct_iff.mp distinct

theorem loaded_evidence (entries : List KindedEntry) (claims : List Converted) :
    (GateManifest.obligationsOf entries (claims.map groundsOf)).evidence =
      claims.map (fun claim => (claim.migrated,claim.layers)) := by
  simp [GateManifest.obligationsOf, groundsOf, Function.comp_def]

end Loaded

end Migration

end EvidenceV4
