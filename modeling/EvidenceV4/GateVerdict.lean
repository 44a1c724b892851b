import EvidenceV4.GateRun
import Mathlib.Data.List.Induction

/-!
# What a verified run of the gate says

The checks of a record are spread over stages that hide one another. Read off a
clean record, they say that every execution passed with an admissible class, that
the required tools are among them, and that an assumption is covered by a waiver
that names who granted it. A run is verified when each claim it must judge has
exactly one record and that record is clean and passes.
-/

set_option autoImplicit false

namespace EvidenceV4

namespace GateVerdict

open CheckedExcept
open CheckerJson (PyString points)
open Findings
open GateManifest (Obligations Flat loadManifest loadManifest_flat)
open GateRecord
open GateRun
open GateValidation
open PolicyDocument (mapGet mapGet_mem mapGet_isSome mapGet_of_mem)
open PythonData
open RepositoryTree

variable {library : Library} {args : Arguments} {project : Project}

section Index

def names (claim : PyString) (record : PyData) : Bool :=
  decide (textOf (lookup record "claim_id") = some claim)

/-- The records of a claim, in the order they were read. -/
def recordsOf (records : List PyData) (claim : PyString) : List PyData :=
  records.filter (names claim)

theorem indexRecord_other {index : RecordIndex} {record : PyData} {claim : PyString}
    (other : names claim record = false) :
    mapGet (indexRecord index record).byClaim claim = mapGet index.byClaim claim ∧
      (claim ∈ (indexRecord index record).duplicates ↔ claim ∈ index.duplicates) := by
  unfold indexRecord
  cases named : lookup record "claim_id" with
  | str found =>
    have differs : found ≠ claim := by simpa [names, named, textOf] using other
    simp only
    constructor
    · simp [mapGet, differs]
    · by_cases again : (mapGet index.byClaim found).isSome = true
      · simp [again, differs.symm]
      · simp [again]
  | _ => exact ⟨rfl,Iff.rfl⟩

theorem indexRecord_named {index : RecordIndex} {record : PyData} {claim : PyString}
    (named : names claim record = true) :
    mapGet (indexRecord index record).byClaim claim = some record ∧
      (claim ∈ (indexRecord index record).duplicates ↔
        claim ∈ index.duplicates ∨ (mapGet index.byClaim claim).isSome = true) := by
  unfold indexRecord
  cases found : lookup record "claim_id" with
  | str other =>
    obtain rfl : other = claim := by simpa [names, found, textOf] using named
    simp only
    constructor
    · simp [mapGet]
    · by_cases again : (mapGet index.byClaim other).isSome = true
      · simp [again]
      · simp [again]
  | _ => simp [names, found, textOf] at named

/-- The index holds the last record of each claim and knows which have several. -/
theorem indexRecords_spec (records : List PyData) (claim : PyString) :
    mapGet (indexRecords records).byClaim claim = (recordsOf records claim).getLast? ∧
      (claim ∈ (indexRecords records).duplicates ↔ 2 ≤ (recordsOf records claim).length) := by
  induction records using List.reverseRecOn with
  | nil => simp [indexRecords, recordsOf, mapGet]
  | append_singleton records record ih =>
    have step : indexRecords (records ++ [record]) = indexRecord (indexRecords records) record := by
      simp [indexRecords]
    rw [step]
    by_cases named : names claim record = true
    · have grown : recordsOf (records ++ [record]) claim = recordsOf records claim ++ [record] := by
        simp [recordsOf, named]
      rw [grown]
      obtain ⟨held,several⟩ := @indexRecord_named (indexRecords records) _ _ named
      refine ⟨by rw [held, List.getLast?_append]; rfl,?_⟩
      rw [several, ih.2, ih.1]
      cases recordsOf records claim with
      | nil => simp
      | cons first rest => simp
    · have same : recordsOf (records ++ [record]) claim = recordsOf records claim := by
        simp [recordsOf, named]
      rw [same]
      obtain ⟨held,several⟩ := @indexRecord_other (indexRecords records) _ _
        (Bool.not_eq_true _ ▸ named)
      exact ⟨held.trans ih.1,several.trans ih.2⟩

end Index

section Records

variable {tree : Tree} {record : PyData} {fields bindings : PyFields} {expect : Expectations}
  {kind : Option ObligationKind} {evidence : Option (List PyString)}

/-- A waiver that records which one it is, who granted it and over what. -/
def Attributable (waiver : PyData) : Prop :=
  ∃ fields, waiver = .dict fields ∧ ∀ field ∈ waiverFields, written (get fields field) = true

/-- The record or one of its executions rests on an assumed or unverified class. -/
def Assumes (record : PyData) : Prop :=
  assumed (lookup record "evidence_class") = true ∨
    ∃ execution ∈ executionsOf record, assumed (lookup execution "evidence_class") = true

theorem waiverDefects_clean {waiver : PyData} (clean : waiverDefects library waiver = [])
    (granted : truthy waiver = true) : Attributable waiver := by
  unfold waiverDefects at clean
  rw [if_neg (by simp [granted])] at clean
  cases waiver with
  | dict fields =>
    simp only [finding_nil, List.filter_eq_nil_iff] at clean
    refine ⟨fields,rfl,?_⟩
    intro field member
    simpa using clean field member
  | _ => simp at clean

theorem assumedEvidence_nil : assumedEvidence record = [] ↔ ¬ Assumes record := by
  rw [assumedEvidence, List.append_eq_nil_iff, Assumes, not_or]
  apply and_congr
  · by_cases rests : assumed (lookup record "evidence_class") = true
    · simp [rests]
    · simp [rests]
  · simp only [List.filterMap_eq_nil_iff, ite_eq_right_iff, reduceCtorEq, imp_false, not_exists,
      not_and]
    constructor
    · intro none execution member
      obtain ⟨i,placed⟩ := mem_zipIdx_of_mem member
      exact none (execution,i) placed
    · intro none entry member
      exact none entry.1 (List.fst_mem_of_mem_zipIdx member)

theorem executionsOf_list {executions : List PyData} (held : record = .dict fields)
    (bound : get fields "bindings" = .dict bindings)
    (listed : get bindings "executions" = .list executions) : executionsOf record = executions := by
  subst held
  simp [executionsOf, lookup, bound, listed, entriesOf]

/-- What the gate reads of an execution that it accepts. -/
structure Admitted (kind : Option ObligationKind) (execution : PyData) : Prop where
  classed : ∃ name ∈ evidenceClasses, lookup execution "evidence_class" = .str name ∧
    ∀ k ∈ kind, name ∈ compatibility k

theorem cohort_admitted (held : record = .dict fields)
    (bound : get fields "bindings" = .dict bindings)
    (clean : cohortDefects library tree fields bindings kind = .ok []) :
    ∀ execution ∈ executionsOf record, Admitted kind execution ∧
      (lookup record "result" = .str "PASS" → lookup execution "result" = .str "PASS") := by
  obtain ⟨primary,rest,last,listed,visits,_⟩ := cohortDefects_clean.mp clean
  rw [executionsOf_list held bound listed]
  intro execution member
  obtain ⟨i,placed⟩ := mem_zipIdx_of_mem member
  obtain ⟨s,m,step⟩ := visits.each _ placed
  obtain ⟨entry,reads,judged,_⟩ := executionDefects_clean.mp step
  obtain ⟨same,_⟩ := readableEntry_fields.mp reads
  obtain rfl : execution = .dict entry := same
  obtain ⟨_,classed,_,_,_,resulted,_⟩ := entryDefects_clean.mp judged
  constructor
  · exact ⟨classDefects_clean.mp classed⟩
  · intro passed
    obtain ⟨name,_,shown,rule⟩ := resultDefects_clean.mp resulted
    have beneath : isPass (get fields "result") = true := by
      subst held
      exact equal_str.mpr passed
    simp only [beneathPass, finding_nil] at rule
    rw [lookup, shown, rule beneath]

theorem executionsOf_single (held : record = .dict fields)
    (bound : get fields "bindings" = .dict bindings) (older : cohortSchema bindings = false) :
    executionsOf record = [] := by
  subst held
  have absent : get bindings "executions" = .none := by
    have lacks : has bindings "executions" = false := (Bool.or_eq_false_iff.mp older).2
    rw [has, Option.isSome_eq_false_iff, Option.isNone_iff_eq_none] at lacks
    rw [PythonData.get, lacks]
    rfl
  simp [executionsOf, lookup, bound, absent, entriesOf]

theorem mem_passingTools {tool : PyString} (held : record = .dict fields)
    (bound : get fields "bindings" = .dict bindings) : tool ∈ passingTools bindings ↔
      ∃ execution ∈ executionsOf record, lookup execution "result" = .str "PASS" ∧
        lookup execution "tool" = .str tool := by
  subst held
  have same : executionsOf (.dict fields) = (entriesOf (get bindings "executions")).getD [] := by
    simp [executionsOf, lookup, bound]
  simp only [passingTools, same, List.mem_filterMap]
  apply exists_congr
  intro execution
  apply and_congr_right
  intro _
  rw [← equal_str, ← isPass]
  by_cases passed : isPass (lookup execution "result") = true
  · cases tooled : lookup execution "tool" <;> simp [passed, textOf]
  · simp [passed]

/-- A clean record is an object with bindings, and the stages of its check are clean. -/
theorem valid_parts (clean : validateRecord library tree record expect kind evidence = .ok []) :
    ∃ fields bindings, record = .dict fields ∧ get fields "bindings" = .dict bindings ∧
      (∃ name ∈ results, lookup record "result" = .str name) ∧
      waiverDefects library (lookup record "waiver") = [] ∧
      boundDefects library tree fields bindings expect kind evidence = .ok [] := by
  obtain ⟨fields,bindings,rfl,bound,_,topped,shape,later⟩ := validateRecord_clean.mp clean
  obtain ⟨_,_,_,resulted,_⟩ := topDefects_clean.mp topped
  rw [shapeDefects, List.append_eq_nil_iff] at shape
  exact ⟨fields,bindings,rfl,bound,resulted,shape.2,later⟩

theorem valid_executions (clean : validateRecord library tree record expect kind evidence = .ok []) :
    ∀ execution ∈ executionsOf record, Admitted kind execution ∧
      (lookup record "result" = .str "PASS" → lookup execution "result" = .str "PASS") := by
  obtain ⟨fields,bindings,held,bound,_,_,later⟩ := valid_parts clean
  obtain ⟨_,_,_,_,_,_,inTree,_⟩ := boundDefects_clean.mp later
  by_cases v3 : cohortSchema bindings = true
  · exact cohort_admitted held bound ((treeDefects_cohort v3).mp inTree).2
  · rw [executionsOf_single held bound (Bool.not_eq_true _ ▸ v3)]
    exact fun _ member => absurd member List.not_mem_nil

theorem valid_coverage (clean : validateRecord library tree record expect kind evidence = .ok [])
    (passes : lookup record "result" = .str "PASS") : ∀ tools ∈ evidence, ∀ tool ∈ tools,
      ∃ execution ∈ executionsOf record, lookup execution "result" = .str "PASS" ∧
        lookup execution "tool" = .str tool := by
  obtain ⟨fields,bindings,held,bound,_,_,later⟩ := valid_parts clean
  obtain ⟨_,_,_,_,_,_,_,covered⟩ := boundDefects_clean.mp later
  intro tools given tool member
  have passed : isPass (get fields "result") = true := by
    subst held
    exact equal_str.mpr passes
  have complete := covered passed
  rw [Option.mem_def.mp given, coverageDefects, finding_nil, List.filter_eq_nil_iff] at complete
  rw [← mem_passingTools held bound]
  simpa using complete tool member

theorem validStatus_pass {waived : Bool} (valid : ∃ name ∈ results,
    lookup record "result" = .str name) (passes : validStatus record = .pass waived) :
    lookup record "result" = .str "PASS" ∧
      (Assumes record → truthy (lookup record "waiver") = true) := by
  obtain ⟨name,listed,shown⟩ := valid
  unfold validStatus at passes
  by_cases failed : equal (lookup record "result") (.str "FAIL") = true
  · rw [if_pos failed] at passes
    cases passes
  by_cases partly : equal (lookup record "result") (.str "INCOMPLETE") = true
  · rw [if_neg failed, if_pos partly] at passes
    cases passes
  rw [if_neg failed, if_neg partly] at passes
  rw [equal_str, shown] at failed partly
  have result : name = "PASS" := by
    simp only [results, List.mem_cons, List.not_mem_nil, or_false] at listed
    rcases listed with passed | rfl | rfl
    · exact passed
    · exact absurd rfl failed
    · exact absurd rfl partly
  subst result
  refine ⟨shown,?_⟩
  intro assumes
  have sources : assumedEvidence record ≠ [] := fun none => assumedEvidence_nil.mp none assumes
  by_cases granted : truthy (lookup record "waiver") = true
  · exact granted
  · rw [if_pos ⟨sources,Bool.not_eq_true _ ▸ granted⟩] at passes
    cases passes

theorem validStatus_fail (failed : lookup record "result" = .str "FAIL") :
    validStatus record = .fail :=
  if_pos (equal_str.mpr failed)

end Records

section Required

variable {prepared : GateRun.Prepared} {obligations : Obligations} {inputs : ManifestInputs}
  {claim name : PyString} {required : List PyString}

def Named (args : Arguments) (obligations : Obligations) (claim : PyString) : Prop :=
  match args.require with
  | some text => claim ∈ requestedClaims text
  | none => claim ∈ obligations.required

/-- A claim that the run names or that a required system claim rests on. -/
inductive RequiredClaim (args : Arguments) (obligations : Obligations) : PyString → Prop where
  | named {claim : PyString} (h : Named args obligations claim) :
      RequiredClaim args obligations claim
  | ground {claim name : PyString} {rests : List PyString}
      (above : RequiredClaim args obligations claim)
      (h : (claim,rests) ∈ obligations.depends) (member : name ∈ rests) :
      RequiredClaim args obligations name

@[simp] theorem lift_ok {α : Type} {x : Except PyError α} {a : α} :
    lift x = .ok a ↔ x = .ok a := by
  cases x <;> simp [lift, Except.mapError]

@[simp] theorem refuse_ok {α : Type} {message : PyString} {a : α} :
    (refuse message : Except Stop α) = .ok a ↔ False := by
  simp [refuse]

theorem expandClaim_members {state : Expansion} :
    name ∈ (expandClaim obligations state claim).1 ↔ name ∈ state.1 ∨
      (mapGet obligations.kinds claim = some .systemClaim ∧
        ∃ rests, mapGet obligations.depends claim = some rests ∧ name ∈ rests) := by
  unfold expandClaim
  by_cases system : mapGet obligations.kinds claim = some .systemClaim
  · simp only [system, if_true]
    rcases Option.eq_none_or_eq_some (mapGet obligations.depends claim) with found | ⟨rests,found⟩
    · simp [found]
    · simp only [found, Option.getD_some, Option.some.injEq, true_and, exists_eq_left']
      by_cases added : rests.filter (fun name => name ∉ state.1) = []
      · rw [if_pos added]
        constructor
        · exact .inl
        · rintro (held | member)
          · exact held
          · by_contra absent
            exact List.filter_eq_nil_iff.mp added name member (by simpa using absent)
      · rw [if_neg added, List.mem_append, List.mem_filter]
        by_cases held : name ∈ state.1
        · simp [held]
        · simp [held]
  · simp [system]

theorem expandRequired_members : name ∈ (expandRequired obligations required).1 ↔
    name ∈ required ∨ ∃ claim ∈ required, mapGet obligations.kinds claim = some .systemClaim ∧
      ∃ rests, mapGet obligations.depends claim = some rests ∧ name ∈ rests := by
  have step : ∀ (claims : List PyString) (state : Expansion),
      name ∈ (claims.foldl (expandClaim obligations) state).1 ↔ name ∈ state.1 ∨
        ∃ claim ∈ claims, mapGet obligations.kinds claim = some .systemClaim ∧
          ∃ rests, mapGet obligations.depends claim = some rests ∧ name ∈ rests := by
    intro claims
    induction claims with
    | nil => simp
    | cons claim claims ih =>
      intro state
      rw [List.foldl_cons, ih, expandClaim_members, or_assoc]
      simp
  exact step required (required,[])

theorem emptyObligations_flat : Flat emptyObligations :=
  ⟨rfl,List.nodup_nil,rfl,rfl,fun _ member => absurd member List.not_mem_nil⟩

theorem manifestInputs_flat (h : manifestInputs library args = .ok inputs) :
    Flat inputs.obligations ∧ (args.manifest = none → inputs.obligations = emptyObligations) := by
  unfold manifestInputs at h
  cases given : args.manifest with
  | none =>
    simp only [given, pure_ok] at h
    subst h
    exact ⟨emptyObligations_flat,fun _ => rfl⟩
  | some file =>
    simp only [given, bind_ok, pure_ok] at h
    obtain ⟨document,_,obligations,loaded,_,_,rfl⟩ := h
    exact ⟨loadManifest_flat loaded,by rintro ⟨⟩⟩

theorem requestedOf_named (h : requestedOf args obligations = .ok required) :
    claim ∈ required ↔ Named args obligations claim := by
  unfold requestedOf at h
  unfold Named
  cases asked : args.require with
  | some text =>
    by_cases none : requestedClaims text = []
    · simp [asked, none] at h
    · simp only [asked, none, if_false, pure_ok] at h
      exact h ▸ Iff.rfl
  | none =>
    by_cases given : args.manifest.isSome = true
    · simp only [asked, given, if_true, pure_ok] at h
      exact h ▸ Iff.rfl
    · simp [asked, given] at h

theorem prepare_ok : prepare library args = .ok prepared ↔
    ∃ requested, loadRecords args.documents = .ok prepared.records ∧
      manifestInputs library args = .ok prepared.inputs ∧
      requestedOf args prepared.inputs.obligations = .ok requested ∧
      unknownRequired args prepared.inputs.obligations requested = [] ∧
      prepared.required =
        sortedNames (expansionOf args prepared.inputs.obligations requested).1 ∧
      prepared.expansion = (expansionOf args prepared.inputs.obligations requested).2 := by
  simp only [prepare, bind_ok, lift_ok]
  constructor
  · rintro ⟨records,loaded,inputs,read,requested,asked,h⟩
    by_cases known : unknownRequired args inputs.obligations requested = []
    · simp only [known, if_true, pure_ok] at h
      subst h
      exact ⟨requested,loaded,read,asked,known,rfl,rfl⟩
    · simp [known] at h
  · rintro ⟨requested,loaded,read,asked,known,required,expansion⟩
    refine ⟨_,loaded,_,read,requested,asked,?_⟩
    simp only [known, if_true, pure_ok, ← required, ← expansion]

/-- A system claim of a flat manifest is one by its kind, and what it rests on is found. -/
theorem flat_claim {rests : List PyString} (flat : Flat obligations)
    (h : (claim,rests) ∈ obligations.depends) :
    mapGet obligations.kinds claim = some .systemClaim ∧
      mapGet obligations.depends claim = some rests := by
  have distinct : (obligations.kinds.map Prod.fst).Nodup := flat.required ▸ flat.distinct
  have listed : claim ∈ obligations.depends.map Prod.fst := List.mem_map.mpr ⟨_,h,rfl⟩
  rw [flat.claims] at listed
  obtain ⟨entry,member,rfl⟩ := List.mem_map.mp listed
  obtain ⟨member,system⟩ := List.mem_filter.mp member
  have kind : entry.2 = .systemClaim := by simpa using system
  constructor
  · exact mapGet_of_mem distinct (kind ▸ member)
  · apply mapGet_of_mem _ h
    rw [flat.claims]
    exact (List.filter_sublist.map Prod.fst).nodup distinct

theorem flat_grounds {rests : List PyString} (flat : Flat obligations)
    (h : (claim,rests) ∈ obligations.depends) (member : name ∈ rests) :
    name ∈ obligations.required ∧ mapGet obligations.kinds name ≠ some .systemClaim := by
  obtain ⟨kind,found,other⟩ := flat.grounds _ h name member
  constructor
  · rw [flat.required]
    exact List.mem_map.mpr ⟨_,mapGet_mem found,rfl⟩
  · rw [found]
    exact fun same => other (Option.some.inj same)

/-- The claims to judge are closed under dependencies and hold nothing else. -/
theorem prepare_required (h : prepare library args = .ok prepared) :
    claim ∈ prepared.required ↔ RequiredClaim args prepared.inputs.obligations claim := by
  obtain ⟨requested,_,read,asked,_,whole,_⟩ := prepare_ok.mp h
  obtain ⟨flat,bare⟩ := manifestInputs_flat read
  rw [whole, mem_sortedNames, expansionOf]
  by_cases both : args.require.isSome = true ∧ args.manifest.isSome = true
  · rw [if_pos both, expandRequired_members]
    constructor
    · rintro (named | ⟨above,named,_,rests,found,member⟩)
      · exact .named ((requestedOf_named asked).mp named)
      · exact .ground (.named ((requestedOf_named asked).mp named)) (mapGet_mem found) member
    · intro required
      induction required with
      | named named => exact .inl ((requestedOf_named asked).mpr named)
      | ground _ rests member ih =>
        obtain ⟨system,found⟩ := flat_claim flat rests
        rcases ih with named | ⟨_,_,_,_,deeper,below⟩
        · exact .inr ⟨_,named,system,_,found,member⟩
        · exact absurd system (flat_grounds flat (mapGet_mem deeper) below).2
  · rw [if_neg both]
    constructor
    · exact fun named => .named ((requestedOf_named asked).mp named)
    · intro required
      induction required with
      | named named => exact (requestedOf_named asked).mpr named
      | ground _ rests member _ =>
        rw [requestedOf_named asked, Named]
        cases require : args.require with
        | none => exact (flat_grounds flat rests member).1
        | some text =>
          have absent : args.manifest = none := by
            rw [require, Option.isSome_some, eq_self, true_and] at both
            exact Option.not_isSome_iff_eq_none.mp both
          rw [bare absent] at rests
          exact absurd rests List.not_mem_nil

end Required

section Runs

variable {prepared : GateRun.Prepared} {expect : Expectations} {rows : List Judgement}
  {report : GateRun.Report}
  {tree : Tree} {claim : PyString} {record : PyData}

/-- The one record by which a claim of a verified run is discharged. -/
structure Discharged (library : Library) (tree : Tree) (prepared : GateRun.Prepared)
    (expect : Expectations) (claim : PyString) (record : PyData) : Prop where
  sole : recordsOf prepared.records claim = [record]
  valid : validateRecord library tree record expect (mapGet prepared.inputs.obligations.kinds claim)
    (mapGet prepared.inputs.obligations.evidence claim) = .ok []
  unshared : sharedArtifactDefects library prepared.required (indexRecords prepared.records) claim
    record = []
  passes : lookup record "result" = .str "PASS"
  executions : ∀ execution ∈ executionsOf record, lookup execution "result" = .str "PASS" ∧
    Admitted (mapGet prepared.inputs.obligations.kinds claim) execution
  coverage : ∀ tools ∈ mapGet prepared.inputs.obligations.evidence claim, ∀ tool ∈ tools,
    ∃ execution ∈ executionsOf record, lookup execution "result" = .str "PASS" ∧
      lookup execution "tool" = .str tool
  waiver : Assumes record → Attributable (lookup record "waiver")

theorem sole_record (single : claim ∉ (indexRecords prepared.records).duplicates)
    (held : mapGet (indexRecords prepared.records).byClaim claim = some record) :
    recordsOf prepared.records claim = [record] := by
  obtain ⟨last,several⟩ := indexRecords_spec prepared.records claim
  rw [held] at last
  rw [several] at single
  cases listed : recordsOf prepared.records claim with
  | nil => simp [listed] at last
  | cons first rest =>
    cases rest with
    | nil => simpa [listed, eq_comm] using last
    | cons second rest =>
      rw [listed] at single
      simp at single

theorem judged_sole (sole : recordsOf prepared.records claim = [record]) :
    claim ∉ (indexRecords prepared.records).duplicates ∧
      mapGet (indexRecords prepared.records).byClaim claim = some record := by
  obtain ⟨last,several⟩ := indexRecords_spec prepared.records claim
  rw [last, several, sole]
  exact ⟨by simp,rfl⟩

theorem judgeClaim_pass {waived : Bool} (h : judgeClaim library tree prepared expect
    (indexRecords prepared.records) claim = .ok (.pass waived)) :
    ∃ record, Discharged library tree prepared expect claim record := by
  unfold judgeClaim at h
  by_cases several : claim ∈ (indexRecords prepared.records).duplicates
  · simp [several] at h
  rw [if_neg several] at h
  cases held : mapGet (indexRecords prepared.records).byClaim claim with
  | none => simp [held] at h
  | some record =>
    simp only [held, bind_ok, pure_ok] at h
    obtain ⟨defects,valid,status⟩ := h
    by_cases clean : defects ++ sharedArtifactDefects library prepared.required
        (indexRecords prepared.records) claim record = []
    · rw [if_pos clean] at status
      obtain ⟨rfl,unshared⟩ := List.append_eq_nil_iff.mp clean
      obtain ⟨_,_,_,_,resulted,granted,_⟩ := valid_parts valid
      obtain ⟨passes,assumes⟩ := validStatus_pass resulted status
      refine ⟨record,sole_record several held,valid,unshared,passes,?_,valid_coverage valid passes,?_⟩
      · intro execution member
        obtain ⟨admitted,passed⟩ := valid_executions valid execution member
        exact ⟨passed passes,admitted⟩
      · exact fun rests => waiverDefects_clean granted (assumes rests)
    · rw [if_neg clean] at status
      cases status

theorem judgeClaim_fail (sole : recordsOf prepared.records claim = [record])
    (valid : validateRecord library tree record expect
      (mapGet prepared.inputs.obligations.kinds claim)
      (mapGet prepared.inputs.obligations.evidence claim) = .ok [])
    (unshared : sharedArtifactDefects library prepared.required (indexRecords prepared.records)
      claim record = []) (failed : lookup record "result" = .str "FAIL") :
    judgeClaim library tree prepared expect (indexRecords prepared.records) claim = .ok .fail := by
  obtain ⟨single,held⟩ := judged_sole sole
  rw [judgeClaim, if_neg single]
  simp only [held, bind_ok, pure_ok]
  refine ⟨[],valid,?_⟩
  rw [unshared, List.append_nil, if_pos rfl, validStatus_fail failed]

theorem judgeAll_ok : judgeAll library tree prepared expect = .ok rows ↔
    List.Forall₂ (fun claim row => judgeClaim library tree prepared expect
        (indexRecords prepared.records) claim = .ok row.status ∧
      row = ⟨claim,(mapGet (indexRecords prepared.records).byClaim claim).getD .none,row.status⟩)
      prepared.required rows := by
  rw [judgeAll, mapM_ok]
  apply Iff.of_eq
  congr 1
  ext claim row
  simp only [bind_ok, pure_ok]
  constructor
  · rintro ⟨status,judged,rfl⟩
    exact ⟨judged,rfl⟩
  · rintro ⟨judged,same⟩
    exact ⟨row.status,judged,same.symm⟩

theorem status_passes {row : Judgement} (failed : failedMessage library row = none)
    (incomplete : incompleteMessage row = none) : ∃ waived, row.status = .pass waived := by
  cases status : row.status with
  | pass waived => exact ⟨waived,rfl⟩
  | fail => simp [failedMessage, status] at failed
  | _ => simp [incompleteMessage, status] at incomplete

theorem conclude_zero {failed incomplete : List PyString} {verified : PyString} :
    (conclude failed incomplete verified).2 = 0 ↔ failed = [] ∧ incomplete = [] := by
  unfold conclude
  by_cases fails : failed = []
  · by_cases lacks : incomplete = []
    · simp [fails, lacks]
    · simp [fails, lacks]
  · simp [fails]

/-- The token of a verified run stands in no other verdict. -/
theorem conclude_verified {failed incomplete : List PyString} {verified : PyString}
    (shown : ("VERIFIED" : PyString) <+: (conclude failed incomplete verified).1) :
    (conclude failed incomplete verified).2 = 0 := by
  unfold conclude at shown ⊢
  by_cases fails : failed = []
  · by_cases lacks : incomplete = []
    · simp [fails, lacks]
    · simp only [fails, lacks, ne_eq, not_true_eq_false, if_false, not_false_eq_true,
        if_true] at shown
      exact absurd shown (by decide)
  · simp only [fails, ne_eq, not_false_eq_true, if_true] at shown
    exact absurd shown (by decide)

theorem aggregate_zero (h : (aggregate library args prepared rows).code = 0) :
    prepared.required ≠ [] ∧ ∀ row ∈ rows, ∃ waived, row.status = .pass waived := by
  obtain ⟨failed,incomplete⟩ := conclude_zero.mp h
  obtain ⟨nonempty,lacking⟩ := List.append_eq_nil_iff.mp incomplete
  constructor
  · intro none
    simp [none] at nonempty
  · intro row member
    exact status_passes (List.filterMap_eq_nil_iff.mp failed row member)
      (List.filterMap_eq_nil_iff.mp lacking row member)

theorem aggregate_failed {row : Judgement} (member : row ∈ rows) (failed : row.status = .fail) :
    (aggregate library args prepared rows).code = 1 := by
  have reported : rows.filterMap (failedMessage library) ≠ [] := by
    intro none
    have silent := List.filterMap_eq_nil_iff.mp none row member
    simp [failedMessage, failed] at silent
  exact congrArg Prod.snd (if_pos reported)

theorem main_ok (h : main library args project = .ok report) :
    (∃ message, report = errorReport message) ∨
    ∃ prepared expect rows, prepare library args = .ok prepared ∧
      expectations args project prepared = .ok expect ∧
      judgeAll library project.tree prepared expect = .ok rows ∧
      report = aggregate library args prepared rows := by
  unfold main at h
  cases prepares : prepare library args with
  | error stop =>
    cases stop with
    | refused message =>
      simp only [prepares, pure_ok] at h
      exact .inl ⟨message,h.symm⟩
    | raised error =>
      by_cases known : reported error = true
      · simp only [prepares, known, if_true, pure_ok] at h
        exact .inl ⟨_,h.symm⟩
      · simp [prepares, known] at h
  | ok prepared =>
    cases expects : expectations args project prepared with
    | error stop =>
      cases stop with
      | refused message =>
        simp only [prepares, expects, pure_ok] at h
        exact .inl ⟨message,h.symm⟩
      | raised error => simp [prepares, expects] at h
    | ok expect =>
      simp only [prepares, expects, bind_ok, pure_ok] at h
      obtain ⟨rows,judged,rfl⟩ := h
      exact .inr ⟨prepared,expect,rows,rfl,expects,judged,rfl⟩

theorem main_of (prepares : prepare library args = .ok prepared)
    (expects : expectations args project prepared = .ok expect) :
    main library args project =
      (judgeAll library project.tree prepared expect >>= fun rows =>
        pure (aggregate library args prepared rows)) := by
  simp only [main, prepares, expects]

/-- The exit code of a verified run, or its verdict token, was printed. -/
def ShowsVerified (report : GateRun.Report) : Prop :=
  report.code = 0 ∨ ("VERIFIED" : PyString) <+: report.verdict

theorem shown_code (h : main library args project = .ok report) (shows : ShowsVerified report) :
    report.code = 0 := by
  rcases shows with code | token
  · exact code
  rcases main_ok h with ⟨message,rfl⟩ | ⟨prepared,expect,rows,_,_,_,rfl⟩
  · exact absurd token (by simp only [errorReport]; decide)
  · exact conclude_verified token

theorem verified_run (ran : main library args project = .ok report)
    (shows : ShowsVerified report) : ∃ prepared expect, prepare library args = .ok prepared ∧
      expectations args project prepared = .ok expect ∧ prepared.required ≠ [] ∧
      ∀ claim ∈ prepared.required, ∃ record,
        Discharged library project.tree prepared expect claim record := by
  have code := shown_code ran shows
  rcases main_ok ran with ⟨message,rfl⟩ | ⟨prepared,expect,rows,prepares,expects,judged,rfl⟩
  · cases code
  · obtain ⟨nonempty,pass⟩ := aggregate_zero code
    refine ⟨prepared,expect,prepares,expects,nonempty,?_⟩
    intro claim required
    obtain ⟨row,member,status,_⟩ := forall₂_mem_left (judgeAll_ok.mp judged) required
    obtain ⟨waived,passed⟩ := pass row member
    exact judgeClaim_pass (passed ▸ status)

/-- A verified run judged at least one claim, all that the claims rest on, and each of them is
discharged by its one record. A claim whose one record is valid and fails decides the exit code
of a run that judges it, whatever else the run meets. -/
theorem verified_discharges_and_failure_decides (library : Library) (args : Arguments)
    (project : Project) :
    (∀ report, main library args project = .ok report → ShowsVerified report →
      ∃ prepared expect, prepare library args = .ok prepared ∧
        expectations args project prepared = .ok expect ∧ prepared.required ≠ [] ∧
        (∀ claim, claim ∈ prepared.required ↔
          RequiredClaim args prepared.inputs.obligations claim) ∧
        ∀ claim ∈ prepared.required, ∃ record,
          Discharged library project.tree prepared expect claim record) ∧
    (∀ prepared expect claim record, prepare library args = .ok prepared →
      expectations args project prepared = .ok expect → claim ∈ prepared.required →
      recordsOf prepared.records claim = [record] →
      validateRecord library project.tree record expect
        (mapGet prepared.inputs.obligations.kinds claim)
        (mapGet prepared.inputs.obligations.evidence claim) = .ok [] →
      sharedArtifactDefects library prepared.required (indexRecords prepared.records) claim
        record = [] →
      lookup record "result" = .str "FAIL" → exitCode (main library args project) = 1) := by
  constructor
  · intro report ran shows
    obtain ⟨prepared,expect,prepares,expects,nonempty,discharged⟩ := verified_run ran shows
    exact ⟨prepared,expect,prepares,expects,nonempty,fun _ => prepare_required prepares,discharged⟩
  · intro prepared expect claim record prepares expects required sole valid unshared failed
    rw [main_of prepares expects]
    cases judged : judgeAll library project.tree prepared expect with
    | error e => rfl
    | ok rows =>
      obtain ⟨row,member,status,_⟩ := forall₂_mem_left (judgeAll_ok.mp judged) required
      rw [judgeClaim_fail sole valid unshared failed] at status
      exact aggregate_failed member (Except.ok.inj status).symm

section Samples

def sampleToolchain : PyData :=
  .dict [("executable",.str "/bin/run"),("sha256",.str (List.replicate 64 48)),
    ("version",.str "1"),("version_exit_code",.int 0)]

def sampleExecution (tool run path : PyString) : PyData :=
  .dict [("tool",.str tool),("evidence_class",.str "code-enforced"),("command",.list [.str "run"]),
    ("cwd",.str "."),("toolchain_digests",sampleToolchain),("raw_output_path",.str path),
    ("raw_output_hash",.str "d"),("result",.str "PASS"),("run_id",.str run)]

def sampleBindings (run path : PyString) (executions : List PyData) : PyFields :=
  [("source_snapshot",.str "s"),("intent_hash",.str "i"),("obligation_manifest_hash",.str "d"),
    ("profile",.str producerProfile),("required_targets",.list [.str "c"]),
    ("environment_policy",.str "e"),("toolchain_digests",sampleToolchain),
    ("command",.list [.str "run"]),("configuration",.dict [("cwd",.str ".")]),("seeds",.none),
    ("raw_output_path",.str path),("raw_output_hash",.str "d"),
    ("parser_schema_version",.str evidenceSchemaV3),("run_id",.str run),
    ("intent_path",.str "intent.md"),("executions",.list executions)]

def sampleRecord (result : PyString) (bindings : PyFields) : PyData :=
  .dict [("claim_id",.str "c"),("required",.bool true),("evidence_class",.str "code-enforced"),
    ("result",.str result),("scope",.str "s"),("bindings",.dict bindings),("waiver",.none)]

def sampleArtifact : PyString := ".fv/evidence/raw/c-r.log"

def sampleCohort : PyFields :=
  sampleBindings "r" sampleArtifact [sampleExecution "t" "r" sampleArtifact]

def sampleLibrary : Library := ⟨fun _ => [],fun _ => none,fun _ => "d"⟩

/-- A tree without links with one file, which holds a bare trailer. -/
def sampleTree : Tree :=
  { root := ["repo"]
    resolve := fun parts => .ok (collapse parts)
    isFile := fun path => .ok (path == ["repo",".fv","evidence","raw","c-r.log"])
    readBytes := fun _ => .ok "--- fv-evidence: exit=0 ---\n".toUTF8.data.toList }

def sampleProject : Project := ⟨sampleTree,.error .osError,.error .osError⟩

/-- The records are judged for one claim, without a manifest and against no snapshot. -/
def sampleArguments (records : List PyData) : Arguments :=
  ⟨records.map .ok,some "c",none,none,none,none,false,true⟩

def samplePrepared (records : List PyData) : GateRun.Prepared :=
  ⟨records,⟨emptyObligations,none,none⟩,["c"],[]⟩

def sampleExpectations : Expectations := ⟨none,none,none,false,none,none⟩

theorem exitCode_zero {outcome : Except PyError GateRun.Report} (h : exitCode outcome = 0) :
    ∃ report, outcome = .ok report ∧ report.code = 0 := by
  cases outcome with
  | error e => cases h
  | ok report => exact ⟨report,rfl,h⟩

theorem sample_failure_valid : validateRecord sampleLibrary sampleTree
    (sampleRecord "FAIL" sampleCohort) sampleExpectations none none = .ok [] := by
  decide +kernel

theorem verified_and_failed_samples :
    (∃ prepared expect record, Discharged sampleLibrary sampleTree prepared expect "c" record) ∧
      exitCode (main sampleLibrary (sampleArguments [sampleRecord "FAIL" sampleCohort])
        sampleProject) = 1 := by
  constructor
  · have code : exitCode (main sampleLibrary (sampleArguments [sampleRecord "PASS" sampleCohort])
        sampleProject) = 0 := by decide +kernel
    obtain ⟨report,ran,zero⟩ := exitCode_zero code
    obtain ⟨prepared,expect,prepares,_,_,whole,each⟩ :=
      (verified_discharges_and_failure_decides _ _ _).1 report ran (.inl zero)
    have named : RequiredClaim (sampleArguments [sampleRecord "PASS" sampleCohort])
        prepared.inputs.obligations "c" := by
      apply RequiredClaim.named
      show ("c" : PyString) ∈ requestedClaims "c"
      decide
    obtain ⟨record,discharged⟩ := each "c" ((whole "c").mpr named)
    exact ⟨prepared,expect,record,discharged⟩
  · exact (verified_discharges_and_failure_decides _ _ _).2
      (samplePrepared [sampleRecord "FAIL" sampleCohort]) sampleExpectations "c"
      (sampleRecord "FAIL" sampleCohort) rfl rfl (by decide) rfl sample_failure_valid (by decide +kernel) rfl

/-- Two records of a claim are ambiguous, also when one of them is valid and fails. -/
theorem valid_failure_beside_another_record :
    ¬ ∀ (library : Library) (args : Arguments) (project : Project) (prepared : GateRun.Prepared)
        (expect : Expectations) (claim : PyString) (record : PyData),
      prepare library args = .ok prepared → expectations args project prepared = .ok expect →
      claim ∈ prepared.required → record ∈ recordsOf prepared.records claim →
      validateRecord library project.tree record expect
        (mapGet prepared.inputs.obligations.kinds claim)
        (mapGet prepared.inputs.obligations.evidence claim) = .ok [] →
      sharedArtifactDefects library prepared.required (indexRecords prepared.records) claim
        record = [] →
      lookup record "result" = .str "FAIL" → exitCode (main library args project) = 1 := by
  intro decides
  have one := decides sampleLibrary
    (sampleArguments [sampleRecord "FAIL" sampleCohort,sampleRecord "PASS" sampleCohort])
    sampleProject
    (samplePrepared [sampleRecord "FAIL" sampleCohort,sampleRecord "PASS" sampleCohort])
    sampleExpectations "c" (sampleRecord "FAIL" sampleCohort) rfl rfl (by decide)
    List.mem_cons_self sample_failure_valid (by decide +kernel) rfl
  have three : exitCode (main sampleLibrary (sampleArguments
      [sampleRecord "FAIL" sampleCohort,sampleRecord "PASS" sampleCohort]) sampleProject) = 3 := by
    decide +kernel
  rw [three] at one
  exact absurd one (by decide)

end Samples

end Runs

end GateVerdict

end EvidenceV4
