import EvidenceV4.MigratedManifest
import EvidenceV4.MigrationRun

/-!
# The claims of a migration that blocks nothing

In a run without a report every claim of the legacy manifests is named once and
converts, and the planned manifest is the document of their synthesis. It is a
function of the legacy tree: nothing else that a migration reads has a part in it.
-/

set_option autoImplicit false

namespace EvidenceV4

namespace Migration

open CheckerJson (PyString points)
open GateManifest (obligationId evidenceToolId)
open PolicyDocument (mapGet mapGet_mem mapGet_isSome mapGet_of_mem)
open PythonData
open Raising (Keeps keeps_pure keeps_lift keeps_modify keeps_bind keeps_forM keeps_ite)

section Reading

variable {project : Project} {host : Host} {plan plan' : Plan} {relative : PyString}

/-- The object that a legacy document holds. -/
def legacyFields (project : Project) (host : Host) (path : PyString) : Option PyFields :=
  match project.readLegacy path with
  | .ok data => (parseDocument host data).bind fieldsOf
  | .error _ => none

theorem readBytes_ran {path : PyString} {data : Option Bytes}
    (ran : readBytes project path plan = (.ok data,plan')) (clean : ¬ Refused plan') :
    plan' = plan ∧ ∃ bytes, data = some bytes ∧ project.readLegacy path = .ok bytes := by
  unfold readBytes at ran
  rcases held : project.readLegacy path with error | bytes
  · simp only [held] at ran
    exact absurd (reported_refused ran) clean
  · simp only [held] at ran
    obtain ⟨rfl,rfl⟩ := Raising.pure_ran.mp ran
    exact ⟨rfl,bytes,rfl,rfl⟩

/-- A document that is read without a report is the one in the file. -/
theorem readJson_ran {path : PyString} {document : PyData}
    (ran : readJson project host path plan = (.ok document,plan')) (clean : ¬ Refused plan') :
    plan' = plan ∧ ∃ data, project.readLegacy path = .ok data ∧
      parseDocument host data = some document := by
  obtain ⟨data,middle,read,ran⟩ := Raising.bind_ran.mp ran
  cases data with
  | none =>
    obtain ⟨_,rfl⟩ := Raising.pure_ran.mp ran
    obtain ⟨_,_,missing,_⟩ := readBytes_ran read clean
    cases missing
  | some bytes =>
    rcases parsed : parseDocument host bytes with _ | document'
    · simp only [parsed] at ran
      exact absurd (reported_refused ran) clean
    · simp only [parsed] at ran
      obtain ⟨rfl,rfl⟩ := Raising.pure_ran.mp ran
      obtain ⟨rfl,_,same,held⟩ := readBytes_ran read clean
      obtain rfl := Option.some.inj same
      exact ⟨rfl,_,held,parsed⟩

/-- A claim of a manifest with its id. -/
def namedClaim : PyData → Option (PyString × PyFields)
  | .dict claim => (textOf (PythonData.get claim "claim_id")).map (fun name => (name,claim))
  | _ => none

/-- The claims of a manifest by id. -/
def namedClaims (document : PyFields) : ClaimIndex :=
  ((entriesOf (PythonData.get document "claims")).getD []).filterMap namedClaim

theorem indexClaim_ran {index index' : ClaimIndex} {entry : PyData × ℕ}
    (ran : indexClaim host relative index entry plan = (.ok index',plan'))
    (clean : ¬ Refused plan') : plan' = plan ∧ ∃ claim, namedClaim entry.1 = some claim ∧
      claim.1 ∉ index.map Prod.fst ∧ index' = index ++ [claim] := by
  obtain ⟨value,position⟩ := entry
  cases value with
  | dict claim =>
    simp only [indexClaim, indexNamed] at ran
    rcases found : (textOf (PythonData.get claim "claim_id")).filter obligationId with _ | name
    · simp only [found] at ran
      exact absurd (reported_refused ran) clean
    · simp only [found] at ran
      by_cases known : name ∈ index.map Prod.fst
      · rw [if_pos known] at ran
        exact absurd (reported_refused ran) clean
      · rw [if_neg known] at ran
        obtain ⟨rfl,rfl⟩ := Raising.pure_ran.mp ran
        have text := (Option.filter_eq_some_iff.mp found).1
        refine ⟨rfl,(name,claim),?_,known,rfl⟩
        rw [namedClaim, text]
        rfl
  | _ => exact absurd (reported_refused ran) clean

theorem keeps_indexClaims (project : Project) {entries : List (PyData × ℕ)} (index : ClaimIndex) :
    Keeps Refused (entries.foldlM (indexClaim host relative) index) := by
  have tolerates : Tolerates project (fun _ => True) Refused := refused_tolerates
  exact keeps_foldlM (fun _ _ => keeps_indexClaim tolerates) index

theorem indexClaims_ran (project : Project) {entries : List PyData} {k : ℕ} {index index' : ClaimIndex}
    (ran : (entries.zipIdx k).foldlM (indexClaim host relative) index plan = (.ok index',plan'))
    (clean : ¬ Refused plan') (distinct : (index.map Prod.fst).Nodup) :
    plan' = plan ∧ index' = index ++ entries.filterMap namedClaim ∧
      (index'.map Prod.fst).Nodup := by
  induction entries generalizing k index plan with
  | nil =>
    obtain ⟨rfl,rfl⟩ := Raising.pure_ran.mp ran
    exact ⟨rfl,by simp,distinct⟩
  | cons entry entries ih =>
    rw [List.zipIdx_cons, List.foldlM_cons] at ran
    obtain ⟨_,middle,first,rest,clear⟩ := clean_bind
      (fun index => keeps_indexClaims project index) ran clean
    obtain ⟨rfl,claim,named,fresh,rfl⟩ := indexClaim_ran first clear
    have distinct' : ((index ++ [claim]).map Prod.fst).Nodup := by
      rw [List.map_append]
      exact distinct.append (List.nodup_singleton _) (List.disjoint_singleton.mpr fresh)
    obtain ⟨rfl,rfl,distinct''⟩ := ih rest distinct'
    refine ⟨rfl,?_,distinct''⟩
    rw [List.filterMap_cons_some named, List.append_assoc, List.singleton_append]

/-- The claims that are read without a report are those of the file, each named once. -/
theorem legacyClaimIndex_ran {schema : PyString} {index : ClaimIndex} {fields : PyFields}
    (ran : legacyClaimIndex project host relative schema plan = (.ok (some (index,fields)),plan'))
    (clean : ¬ Refused plan') : plan' = plan ∧ legacyFields project host relative = some fields ∧
      index = namedClaims fields ∧ (index.map Prod.fst).Nodup := by
  obtain ⟨document,middle,read,ran⟩ := Raising.bind_ran.mp ran
  cases document with
  | dict fields' =>
    rcases sound : documentDefect host schema fields' with _ | defect
    rotate_left
    · simp only [sound] at ran
      obtain ⟨_,_,_,ran⟩ := Raising.bind_ran.mp ran
      cases (Raising.pure_ran.mp ran).1
    · simp only [sound] at ran
      obtain ⟨found,later,indexed,ran⟩ := Raising.bind_ran.mp ran
      obtain ⟨same,rfl⟩ := Raising.pure_ran.mp ran
      obtain ⟨rfl,rfl⟩ := Prod.mk.inj (Option.some.inj same)
      obtain ⟨rfl,rfl,distinct⟩ := indexClaims_ran project indexed clean List.nodup_nil
      obtain ⟨rfl,data,held,parsed⟩ := readJson_ran read clean
      refine ⟨rfl,?_,List.nil_append _,distinct⟩
      simp [legacyFields, held, parsed, fieldsOf]
  | none => cases (Raising.pure_ran.mp ran).1
  | _ =>
    obtain ⟨_,_,_,ran⟩ := Raising.bind_ran.mp ran
    cases (Raising.pure_ran.mp ran).1

/-- The files of the inventory are those that can be read. -/
def Lists (project : Project) (plan : Plan) : Prop :=
  plan.legacyFiles = project.files.map Prod.fst

theorem inventoried_ran {present : Bool} (lists : Lists project plan)
    (ran : inventoried relative plan = (.ok present,plan')) : plan' = plan ∧
      (present = true ↔ relative ∈ project.files.map Prod.fst) := by
  obtain ⟨same,rfl⟩ := Raising.asking_ran.mp ran
  refine ⟨rfl,?_⟩
  rw [← (CheckedExcept.pure_ok _ _).mp same, List.contains_iff_mem, lists]

theorem legacyFields_absent (absent : relative ∉ project.files.map Prod.fst) :
    legacyFields project host relative = none := by
  have missing : mapGet project.files relative = none := by
    rw [← mapGet_isSome] at absent
    simpa using absent
  simp [legacyFields, Project.readLegacy, missing]

/-- A manifest that may be absent has the claims of its file. -/
theorem loadIndex_ran {schema : PyString} {present : Bool} {index : ClaimIndex} {fields : PyFields}
    (ran : loadIndex project host present relative schema plan = (.ok (some (index,fields)),plan'))
    (clean : ¬ Refused plan') (listed : present = true ↔ relative ∈ project.files.map Prod.fst) :
    plan' = plan ∧ present = (legacyFields project host relative).isSome ∧
      fields = (legacyFields project host relative).getD [] ∧ index = namedClaims fields ∧
      (index.map Prod.fst).Nodup := by
  cases present with
  | true =>
    obtain ⟨rfl,held,rfl,distinct⟩ := legacyClaimIndex_ran ran clean
    rw [held]
    exact ⟨rfl,rfl,rfl,rfl,distinct⟩
  | false =>
    obtain ⟨same,rfl⟩ := Raising.pure_ran.mp ran
    obtain ⟨rfl,rfl⟩ := Prod.mk.inj (Option.some.inj same)
    rw [legacyFields_absent (fun member => Bool.false_ne_true (listed.mpr member))]
    exact ⟨rfl,rfl,rfl,rfl,List.nodup_nil⟩

end Reading

section Synthesizing

variable {host : Host} {plan plan' : Plan} {details : ClaimIndex} {flags : List (PyString × Bool)}
  {s s' : Synthesis}

def flagOf (flags : List (PyString × Bool)) (claim : Converted) : Bool :=
  (mapGet flags claim.claimId).getD false

def registerAll (required : Converted → Bool) (claims : List Converted) (s : Synthesis) :
    Synthesis :=
  claims.foldl (fun s claim => register (required claim) s claim) s

theorem reportFields_ran {converted : Converted} {u : Unit}
    (ran : reportFields host converted plan = (.ok u,plan')) :
    plan'.claimLayers = plan.claimLayers := by
  unfold reportFields at ran
  split at ran
  · obtain ⟨_,rfl⟩ := Raising.pure_ran.mp ran
    rfl
  · obtain rfl := Raising.modify_ran.mp ran
    rfl

/-- A claim without a report converts, and its layers are recorded. -/
theorem migrateClaim_ran {claimId : PyString}
    (ran : migrateClaim host details flags s claimId plan = (.ok s',plan'))
    (clean : ¬ Refused plan') : ∃ converted, convert host details claimId = .ok converted ∧
      s' = register (flagOf flags converted) s converted ∧
      plan'.claimLayers = upsert plan.claimLayers claimId converted.layers
        (fun _ => converted.layers) := by
  unfold migrateClaim at ran
  rcases found : convert host details claimId with refusal | converted
  · simp only [found] at ran
    exact absurd (reported_refused ran) clean
  · simp only [found] at ran
    obtain ⟨_,middle,reported,ran⟩ := Raising.bind_ran.mp ran
    obtain ⟨_,later,recorded,ran⟩ := Raising.bind_ran.mp ran
    obtain ⟨rfl,rfl⟩ := Raising.pure_ran.mp ran
    obtain rfl := Raising.modify_ran.mp recorded
    refine ⟨converted,rfl,?_,?_⟩
    · rw [flagOf, (convert_wellConverted found).2]
    · rw [reportFields_ran reported]

theorem keeps_claims (project : Project) {ids : List PyString} (s : Synthesis) :
    Keeps Refused (ids.foldlM (migrateClaim host details flags) s) := by
  have tolerates : ToleratesClaims project (fun _ => True) Refused := refused_claims
  exact keeps_foldlM (fun _ _ => keeps_migrateClaim tolerates) s

def layersOf (claims : List Converted) : List (PyString × List PyString) :=
  claims.map (fun claim => (claim.claimId,claim.layers))

/-- Without a report, every id converts and the synthesis registers all claims in order. -/
theorem claims_ran (project : Project) {ids : List PyString}
    (ran : ids.foldlM (migrateClaim host details flags) s plan = (.ok s',plan'))
    (clean : ¬ Refused plan') (distinct : ids.Nodup)
    (fresh : ∀ id ∈ ids, id ∉ plan.claimLayers.map Prod.fst) :
    ∃ claims, List.Forall₂ (fun id claim => convert host details id = .ok claim) ids claims ∧
      s' = registerAll (flagOf flags) claims s ∧
      plan'.claimLayers = plan.claimLayers ++ layersOf claims := by
  induction ids generalizing s plan with
  | nil =>
    obtain ⟨rfl,rfl⟩ := Raising.pure_ran.mp ran
    exact ⟨[],.nil,rfl,(List.append_nil _).symm⟩
  | cons id ids ih =>
    rw [List.foldlM_cons] at ran
    obtain ⟨_,middle,first,rest,clear⟩ := clean_bind (fun s => keeps_claims project s) ran clean
    obtain ⟨claim,converts,rfl,layers⟩ := migrateClaim_ran first clear
    obtain ⟨new,distinct⟩ := List.nodup_cons.mp distinct
    have named := (convert_wellConverted converts).2
    rw [upsert_fresh (fresh id List.mem_cons_self)] at layers
    have fresh' : ∀ other ∈ ids, other ∉ middle.claimLayers.map Prod.fst := by
      intro other member
      rw [layers, List.map_append, List.mem_append, not_or]
      apply And.intro (fresh other (List.mem_cons_of_mem _ member))
      intro same
      obtain rfl : other = id := List.mem_singleton.mp same
      exact new member
    obtain ⟨claims,each,rfl,layers'⟩ := ih rest distinct fresh'
    refine ⟨claim :: claims,.cons converts each,rfl,?_⟩
    rw [layers', layers, layersOf, layersOf, List.map_cons, named, List.append_assoc]
    rfl

theorem registerAll_registers {required : Converted → Bool} {claims done : List Converted}
    (h : Registers s (done.flatMap Converted.targets) done)
    (before : ∀ claim ∈ done, WellConverted claim) (well : ∀ claim ∈ claims, WellConverted claim) :
    Registers (registerAll required claims s) ((done ++ claims).flatMap Converted.targets)
      (done ++ claims) := by
  induction claims generalizing s done with
  | nil => rwa [List.append_nil]
  | cons claim claims ih =>
    obtain ⟨here,well⟩ := List.forall_mem_cons.mp well
    rw [List.append_cons, registerAll, List.foldl_cons]
    apply ih _ _ well
    · rw [List.flatMap_append, List.flatMap_singleton]
      apply register_registers _ here h
      intro pair member
      obtain ⟨other,listed,target⟩ := List.mem_flatMap.mp member
      exact (before other listed).targets pair target
    · intro other member
      rcases List.mem_append.mp member with old | new
      · exact before other old
      · exact List.mem_singleton.mp new ▸ here

theorem addTargets_written {claimId : PyString} {targets : List (PyString × PyString)} :
    (targets.foldl (addTarget claimId) s).systemClaims = s.systemClaims := by
  induction targets generalizing s with
  | nil => rfl
  | cons target targets ih =>
    rw [List.foldl_cons, ih]
    rfl

theorem registerAll_written {required : Converted → Bool} {claims : List Converted} :
    (registerAll required claims s).systemClaims =
      s.systemClaims ++ claims.map (fun claim => systemClaim (required claim) claim) := by
  induction claims generalizing s with
  | nil => exact (List.append_nil _).symm
  | cons claim claims ih =>
    rw [registerAll, List.foldl_cons]
    show (registerAll required claims _).systemClaims = _
    rw [ih, register, addTargets_written, List.map_cons, List.append_assoc]
    rfl

end Synthesizing

section Spelling

variable {host : Host} {details : ClaimIndex} {converted : Converted}

/-- The texts among the required targets of a claim. -/
def targetsOf (claim : PyFields) : List PyString :=
  ((entriesOf (PythonData.get claim "required_targets")).getD []).filterMap textOf

theorem mapM_texts {entries : List PyData} {names : List PyString}
    (h : entries.mapM textOf = some names) : entries.filterMap textOf = names := by
  induction entries generalizing names with
  | nil =>
    obtain rfl := Option.some.inj h
    rfl
  | cons entry entries ih =>
    rw [List.mapM_cons] at h
    obtain ⟨name,text,h⟩ := Option.bind_eq_some_iff.mp h
    obtain ⟨rest,texts,h⟩ := Option.bind_eq_some_iff.mp h
    obtain rfl := Option.some.inj h
    rw [List.filterMap_cons_some text, ih texts]

theorem idStrings_texts {value : PyData} {grammar : PyString → Bool} {names : List PyString}
    (h : idStrings value grammar = some names) :
    names = dedup (((entriesOf value).getD []).filterMap textOf) := by
  unfold idStrings at h
  split at h
  · next listed texts =>
    rw [Option.ite_none_right_eq_some] at h
    obtain ⟨entries,found,texts⟩ := Option.bind_eq_some_iff.mp texts
    rw [found, Option.getD_some, mapM_texts texts]
    exact (Option.some.inj h.2).symm
  · cases h

theorem convert_found {claimId : PyString} (h : convert host details claimId = .ok converted) :
    mapGet details claimId = some converted.claim := by
  obtain ⟨claim,migrated,targets,layers,found,_,_,_,_,_,_,rfl⟩ := convert_ok.mp h
  exact found

/-- A converted claim rests on the targets that it names, all of them. -/
theorem convert_targets {claimId name : PyString} (h : convert host details claimId = .ok converted) :
    name ∈ converted.targets.map Prod.fst ↔ name ∈ targetsOf converted.claim := by
  obtain ⟨claim,migrated,targets,layers,_,_,listed,_,_,mapped,_,rfl⟩ := convert_ok.mp h
  have texts : name ∈ targetsOf claim ↔ name ∈ targets := by
    rw [idStrings_texts listed, mem_dedup]
    rfl
  rw [texts, List.mem_map]
  constructor
  · rintro ⟨pair,member,rfl⟩
    exact (mem_migratedTargets.mp member).1
  · intro member
    rcases maps : evidenceClaimId name with _ | id
    · have refused : name ∈ unmappable targets :=
        List.mem_filter.mpr ⟨member,by rw [maps]; rfl⟩
      rw [mapped] at refused
      exact absurd refused List.not_mem_nil
    · exact ⟨(name,id),mem_migratedTargets.mpr ⟨member,maps⟩,rfl⟩

/-- No claim is spelled like a target of a claim. -/
def SpelledApart (claims : ClaimIndex) : Prop :=
  ∀ claim ∈ claims, ∀ other ∈ claims, claim.1 ∉ targetsOf other.2

end Spelling

section Planning

variable {project : Project} {host : Host} {plan plan' : Plan} {s : Synthesis}

/-- The claims that the legacy manifests name and that convert. -/
def convertedClaims (host : Host) (details required : ClaimIndex) : List Converted :=
  (dedup (details.map Prod.fst ++ required.map Prod.fst)).filterMap
    (fun id => (convert host details id).toOption)

/-- The claims of a legacy tree that convert. -/
def migratedClaims (project : Project) (host : Host) : List Converted :=
  convertedClaims host (namedClaims ((legacyFields project host legacyClaims).getD []))
    (namedClaims ((legacyFields project host legacyObligations).getD []))

def migratedFlag (project : Project) (host : Host) : Converted → Bool :=
  flagOf (requiredFlags (namedClaims ((legacyFields project host legacyObligations).getD [])))

def migratedSynthesis (project : Project) (host : Host) : Synthesis :=
  registerAll (migratedFlag project host) (migratedClaims project host) emptySynthesis

/-- The manifest that the legacy manifests migrate to. -/
def migratedManifest (project : Project) (host : Host) : PyData :=
  manifestDocument (migratedSynthesis project host)
    (claimSources (legacyFields project host legacyClaims).isSome
      (legacyFields project host legacyObligations).isSome)
    ((legacyFields project host legacyClaims).getD [])

theorem checkRequired_quiet (entry : PyString × PyFields) : Quiet (checkRequired host entry) := by
  intro plan u plan' ran clean
  unfold checkRequired at ran
  generalize PythonData.get entry.2 "required" = value at ran
  cases value with
  | bool value => exact (Raising.pure_ran.mp ran).2.symm
  | _ => exact absurd (unsupported_refused ran) clean

theorem keeps_checkRequired (project : Project) (entry : PyString × PyFields) :
    Keeps Refused (checkRequired host entry) := by
  have tolerates : Tolerates project (fun _ => True) Refused := refused_tolerates
  unfold checkRequired
  split
  · exact keeps_pure _
  · exact keeps_unsupported tolerates

/-- Without a report, every id has at most one owner. -/
theorem reportCollisions_ran (project : Project) {u : Unit}
    (ran : reportCollisions host s plan = (.ok u,plan')) (clean : ¬ Refused plan') : plan' = plan ∧ ∀ owner ∈ s.owners, owner.2.length ≤ 1 := by
  have tolerates : Tolerates project (fun _ => True) Refused := refused_tolerates
  have keeps : ∀ owner, Keeps Refused (reportOwners host owner) :=
    fun _ => keeps_ite (keeps_pure _) (keeps_unsupported tolerates)
  have quiet : ∀ owner, Quiet (reportOwners host owner) := by
    intro owner plan u plan' ran clean
    unfold reportOwners at ran
    split at ran
    · exact (Raising.pure_ran.mp ran).2.symm
    · exact absurd (unsupported_refused ran) clean
  obtain ⟨_,middle,first,rest,clear⟩ := clean_bind (fun _ => keeps_forM (fun i _ => keeps i))
    ran clean
  constructor
  · rw [quiet_forM keeps quiet _ _ _ rest clean]
    unfold reportDoubled at first
    split at first
    · exact (Raising.pure_ran.mp first).2.symm
    · exact absurd (unsupported_refused first) clear
  · intro owner member
    have listed := (List.perm_insertionSort (fun a b => a.1 ≤ b.1) s.owners).mem_iff.mpr member
    obtain ⟨before,after,passed,still⟩ := forM_clean keeps rest clean owner listed
    by_contra long
    rw [reportOwners, if_neg long] at passed
    exact still (unsupported_refused passed)

/-- What runs keep of a computation that succeeds. -/
theorem kept {α : Type} {invariant : Plan → Prop} {x : Step α} {a : α} (keeps : Keeps invariant x)
    (ran : x plan = (.ok a,plan')) (held : invariant plan) : invariant plan' := by
  have after := keeps plan held
  rwa [ran] at after

/-- The manifest is written once, with the bytes of the synthesized document. -/
theorem writeManifest_ran (project : Project) {hasClaims hasObligations : Bool} {document : PyFields}
    {u : Unit} (fresh : Unwritten obligationsPath plan)
    (ran : writeManifest host s hasClaims hasObligations document plan = (.ok u,plan')) :
    coverage plan' = coverage plan ∧ ∃ data, Settled obligationsPath data plan' ∧ canonicalJson host
      (manifestDocument s (claimSources hasClaims hasObligations) document) = .ok data := by
  obtain ⟨_,required,modified,ran⟩ := Raising.bind_ran.mp ran
  obtain rfl := Raising.modify_ran.mp modified
  obtain ⟨_,reported,reports,ran⟩ := Raising.bind_ran.mp ran
  obtain ⟨data,_,lifted,ran⟩ := Raising.bind_ran.mp ran
  obtain ⟨encoded,rfl⟩ := Raising.lift_ran.mp lifted
  obtain ⟨_,written,write,mapping⟩ := Raising.bind_ran.mp ran
  have tolerates : Tolerates project (fun path => path ≠ obligationsPath ∧ True)
      (fun p => Unwritten obligationsPath p ∧ coverage p = coverage plan) :=
    unwritten_tolerates.both coverage_tolerates
  obtain ⟨fresh',same⟩ := kept (keeps_forM (fun document _ =>
    keeps_ite (keeps_pure _) (keeps_deviation tolerates))) reports ⟨fresh,rfl⟩
  obtain ⟨settled,rfl⟩ := planWrite_settles fresh' write
  have tolerates' : Tolerates project (fun path => path ≠ obligationsPath ∧ True)
      (fun p => Settled obligationsPath data p ∧ coverage p = coverage plan) :=
    settled_tolerates.both coverage_tolerates
  have maps : Keeps (fun p => Settled obligationsPath data p ∧ coverage p = coverage plan)
      (mapManifest s hasClaims hasObligations) := by
    unfold mapManifest
    apply keeps_bind
    · exact keeps_forM (fun _ _ => keeps_mapped tolerates')
    · intro _
      exact keeps_forM (fun _ _ => keeps_mapped tolerates')
  obtain ⟨settled',same'⟩ := kept maps mapping ⟨settled,same⟩
  exact ⟨same',data,settled',encoded⟩

theorem convertedClaims_eq {details required : ClaimIndex} {claims : List Converted}
    (each : List.Forall₂ (fun id claim => convert host details id = .ok claim)
      (dedup (details.map Prod.fst ++ required.map Prod.fst)) claims) :
    convertedClaims host details required = claims := by
  unfold convertedClaims
  generalize dedup (details.map Prod.fst ++ required.map Prod.fst) = ids at each ⊢
  induction each with
  | nil => rfl
  | cons converts _ ih =>
    rw [List.filterMap_cons, converts, ih]
    rfl

/-- All ids of the manifests convert. -/
def Converts (host : Host) (details required : ClaimIndex) : Prop :=
  List.Forall₂ (fun id claim => convert host details id = .ok claim)
    (dedup (details.map Prod.fst ++ required.map Prod.fst)) (convertedClaims host details required)

theorem Converts.well {details required : ClaimIndex} (h : Converts host details required) :
    (∀ claim ∈ convertedClaims host details required, WellConverted claim) ∧
      ((convertedClaims host details required).map Converted.claimId).Nodup := by
  constructor
  · intro claim member
    obtain ⟨id,_,converts⟩ := CheckedExcept.forall₂_mem_right h member
    exact (convert_wellConverted converts).1
  · have ids : (convertedClaims host details required).map Converted.claimId =
        dedup (details.map Prod.fst ++ required.map Prod.fst) := by
      have named := h.imp (fun _ _ converts => (convert_wellConverted converts).2.symm)
      exact (List.forall₂_eq_eq_eq ▸ List.forall₂_map_right_iff.mpr named :
        _ = (convertedClaims host details required).map Converted.claimId).symm
    rw [ids]
    exact dedup_nodup _

def synthesisOf (host : Host) (details required : ClaimIndex) : Synthesis :=
  registerAll (flagOf (requiredFlags required)) (convertedClaims host details required)
    emptySynthesis

/-- The manifest of the claims is planned, and all of them convert without a collision. -/
structure ManifestPlanned (host : Host) (details required : ClaimIndex) (document : PyFields)
    (hasClaims hasObligations : Bool) (plan : Plan) : Prop where
  written : ∃ data, Settled obligationsPath data plan ∧ canonicalJson host
    (manifestDocument (synthesisOf host details required) (claimSources hasClaims hasObligations)
      document) = .ok data
  named : (details.map Prod.fst).Nodup
  layers : plan.claimLayers = layersOf (convertedClaims host details required)
  converts : Converts host details required
  filled : convertedClaims host details required ≠ []
  synthesized : Synthesized (synthesisOf host details required) (flagOf (requiredFlags required))
    (convertedClaims host details required)

theorem keeps_synthesize {project : Project} {details required : ClaimIndex}
    {invariant : Plan → Prop} {paths : PyString → Prop}
    (tolerates : ToleratesClaims project paths invariant) :
    Keeps invariant (synthesize host details required) :=
  keeps_foldlM (fun _ _ => keeps_migrateClaim tolerates) _

/-- The manifest of the claims is written once, or none is. -/
theorem migrateIndexes_ran (project : Project) {hasClaims hasObligations : Bool}
    {required details : ClaimIndex} {document : PyFields} {u : Unit}
    (named : (details.map Prod.fst).Nodup)
    (fresh : Unwritten obligationsPath plan) (start : plan.claimLayers = [])
    (ran : migrateIndexes host hasClaims hasObligations required details document plan =
      (.ok u,plan')) (clean : ¬ Refused plan') : Unwritten obligationsPath plan' ∨
      ManifestPlanned host details required document hasClaims hasObligations plan' := by
  have unwritten : ToleratesClaims project (· ≠ obligationsPath) (Unwritten obligationsPath) :=
    unwritten_claims
  have refused : ToleratesClaims project (fun _ => True) Refused := refused_claims
  have keeps : ∀ s : Synthesis, Keeps Refused
      (if s.systemClaims.isEmpty then keepManifests (claimSources hasClaims hasObligations).reverse
        else writeManifest host s hasClaims hasObligations document) :=
    fun s => keeps_ite (keeps_forM (fun _ _ => keeps_preserved refused.toTolerates))
      (keeps_writeManifest refused trivial)
  obtain ⟨s,_,synthesis,ran,clear⟩ := clean_bind
    (fun s => keeps_bind (keeps_reportCollisions refused.toTolerates) (fun _ => keeps s)) ran clean
  obtain ⟨_,middle,collisions,last,clear'⟩ := clean_bind (fun _ => keeps s) ran clean
  obtain ⟨rfl,single⟩ := reportCollisions_ran project collisions clear'
  have fresh' := kept (keeps_synthesize unwritten) synthesis fresh
  obtain ⟨claims,each,same,layers⟩ := claims_ran project synthesis clear (dedup_nodup _)
    (fun _ _ => by rw [start]; exact List.not_mem_nil)
  obtain rfl := convertedClaims_eq each
  obtain rfl : s = synthesisOf host details required := same
  have written : (synthesisOf host details required).systemClaims =
      (convertedClaims host details required).map (fun claim =>
        systemClaim (flagOf (requiredFlags required) claim) claim) := registerAll_written
  by_cases empty : (synthesisOf host details required).systemClaims.isEmpty = true
  · apply Or.inl
    rw [if_pos empty] at last
    exact kept (keeps_forM (fun _ _ => keeps_preserved unwritten.toTolerates)) last fresh'
  · apply Or.inr
    rw [if_neg empty] at last
    obtain ⟨same,written'⟩ := writeManifest_ran project fresh' last
    have converts : Converts host details required := each
    refine ⟨written',named,?_,converts,?_,?_⟩
    · have layers' : plan'.claimLayers = middle.claimLayers :=
        congrArg (fun known => known.2.1) same
      rw [layers', layers, start, List.nil_append]
    · intro none
      rw [written, none] at empty
      exact empty rfl
    · have registered : Registers (synthesisOf host details required)
          ((convertedClaims host details required).flatMap Converted.targets)
          (convertedClaims host details required) := by
        have all := @registerAll_registers _ (flagOf (requiredFlags required)) _ []
          registers_nothing nofun converts.well.1
        rwa [List.nil_append] at all
      exact ⟨registered,converts.well.1,converts.well.2,single,written⟩

/-- The claims that convert are apart when the claims of the manifest are spelled apart. -/
theorem Converts.apart_iff {details required : ClaimIndex} (h : Converts host details required)
    (named : (details.map Prod.fst).Nodup) :
    ClaimsApart (convertedClaims host details required) ↔ SpelledApart details := by
  have back : ∀ claim ∈ convertedClaims host details required,
      (claim.claimId,claim.claim) ∈ details ∧
        ∀ name, name ∈ claim.targets.map Prod.fst ↔ name ∈ targetsOf claim.claim := by
    intro claim member
    obtain ⟨id,_,converts⟩ := CheckedExcept.forall₂_mem_right h member
    rw [(convert_wellConverted converts).2]
    exact ⟨mapGet_mem (convert_found converts),fun name => convert_targets converts⟩
  have forth : ∀ entry ∈ details, ∃ claim ∈ convertedClaims host details required,
      claim.claimId = entry.1 ∧ claim.claim = entry.2 := by
    intro entry member
    have listed : entry.1 ∈ dedup (details.map Prod.fst ++ required.map Prod.fst) :=
      mem_dedup.mpr (List.mem_append_left _ (List.mem_map_of_mem member))
    obtain ⟨claim,found,converts⟩ := CheckedExcept.forall₂_mem_left h listed
    refine ⟨claim,found,(convert_wellConverted converts).2,?_⟩
    have detail := convert_found converts
    rw [mapGet_of_mem named member] at detail
    exact (Option.some.inj detail).symm
  constructor
  · intro apart entry first other second spelled
    obtain ⟨claim,found,same,_⟩ := forth entry first
    obtain ⟨claim',found',_,same'⟩ := forth other second
    apply apart claim found claim' found'
    rw [(back claim' found').2, same, same']
    exact spelled
  · intro apart claim first other second spelled
    rw [(back other second).2] at spelled
    exact apart _ (back claim first).1 _ (back other second).1 spelled

/-- The claims of both manifests, read in a run without a report. -/
theorem migrateObligations_ran {u : Unit} (lists : Lists project plan)
    (fresh : Unwritten obligationsPath plan) (start : plan.claimLayers = [])
    (ran : migrateObligations project host plan = (.ok u,plan')) (clean : ¬ Refused plan') :
    Unwritten obligationsPath plan' ∨ ManifestPlanned host
      (namedClaims ((legacyFields project host legacyClaims).getD []))
      (namedClaims ((legacyFields project host legacyObligations).getD []))
      ((legacyFields project host legacyClaims).getD [])
      (legacyFields project host legacyClaims).isSome
      (legacyFields project host legacyObligations).isSome plan' := by
  have refused : ToleratesClaims project (fun _ => True) Refused := refused_claims
  obtain ⟨hasObligations,_,asked,ran₁⟩ := Raising.bind_ran.mp ran
  obtain ⟨rfl,obligationsListed⟩ := inventoried_ran lists asked
  obtain ⟨hasClaims,_,asked',ran₂⟩ := Raising.bind_ran.mp ran₁
  obtain ⟨rfl,claimsListed⟩ := inventoried_ran lists asked'
  have keepsDetails : ∀ required, Keeps Refused
      (migrateDetails project host hasClaims hasObligations required) := by
    intro required
    unfold migrateDetails
    apply keeps_bind (keeps_loadIndex refused.toTolerates)
    intro details
    split
    · exact keeps_pure _
    · exact keeps_migrateIndexes refused trivial
  have unwritten : Tolerates project (· ≠ obligationsPath) (Unwritten obligationsPath) :=
    unwritten_tolerates
  obtain ⟨read,loaded,loading,ran₃⟩ := Raising.bind_ran.mp ran₂
  cases read with
  | none =>
    obtain ⟨_,rfl⟩ := Raising.pure_ran.mp ran₃
    exact .inl (kept (keeps_loadIndex unwritten) loading fresh)
  | some read =>
    obtain ⟨required,fields⟩ := read
    obtain ⟨_,checked,checking,ran₄,clear⟩ := clean_bind (fun _ => keepsDetails required) ran₃ clean
    have clear' : ¬ Refused loaded :=
      clean_before (keeps_forM (fun entry _ => keeps_checkRequired project entry)) checking clear
    obtain rfl := quiet_forM (keeps_checkRequired project) checkRequired_quiet _ _ _ checking clear
    obtain ⟨rfl,rfl,rfl,rfl,_⟩ := loadIndex_ran loading clear' obligationsListed
    obtain ⟨read,later,loading',ran₅⟩ := Raising.bind_ran.mp ran₄
    cases read with
    | none =>
      obtain ⟨_,rfl⟩ := Raising.pure_ran.mp ran₅
      exact .inl (kept (keeps_loadIndex unwritten) loading' fresh)
    | some read =>
      obtain ⟨details,document⟩ := read
      have clear'' : ¬ Refused later :=
        clean_before (keeps_migrateIndexes refused trivial) ran₅ clean
      obtain ⟨rfl,rfl,rfl,rfl,named⟩ := loadIndex_ran loading' clear'' claimsListed
      exact migrateIndexes_ran project named fresh start ran₅ clean

end Planning

end Migration

end EvidenceV4
