import EvidenceV4.CoverageDashboard
import EvidenceV4.GateVerdict

/-!
# Covered in the dashboard and accepted by the gate

A covered record passes the text rules of the gate, and its cohort passes as a
whole, so that only the rules that need the repository are left to the gate. What
separates the two tools is the command line and the manifest: an empty
requirement, and system claims that only the dashboard reads.
-/

set_option autoImplicit false

namespace EvidenceV4

namespace GateCoverage

open CheckedExcept
open CheckerJson (PyString points)
open CoverageDashboard (Slot Status slotOf toolCoverage cohortCoverage nonPassingExecutions
  SoundManifest SoundClaim)
open Findings
open GateManifest (Obligations Flat)
open GateRecord
open GateRun (ManifestFile ManifestInputs Stop emptyObligations expandRequired indexRecords
  loadRecords requestedClaims sharedArtifactDefects)
open GateValidation
open GateVerdict (recordsOf indexRecords_spec lift_ok refuse_ok)
open PolicyDocument (mapGet)
open PythonData
open RepositoryTree

section Repository

/-- The rules of the gate that need the repository find no defect in a record. -/
structure RepositoryClean (library : Library) (tree : Tree) (expect : Expectations)
    (fields bindings : PyFields) : Prop where
  snapshot : snapshotDefects library bindings expect = []
  intent : intentDefects library bindings expect = []
  intentPath : cohortSchema bindings = true →
    intentPathDefects library tree bindings expect = .ok []
  cohort : cohortSchema bindings = true →
    ∀ entry ∈ ((entriesOf (get bindings "executions")).getD []).zipIdx, ∀ execution,
      entry.1 = .dict execution →
      containedCwd library tree (get execution "cwd") (entryLabel entry.2) = .ok [] ∧
      artifactDefects library tree execution (entryLabel entry.2) = .ok []
  single : cohortSchema bindings = false → isPass (get fields "result") = true →
    rawArtifactDefects library tree fields bindings = .ok []

def RecordClean (library : Library) (tree : Tree) (expect : Expectations) (record : PyData) :
    Prop :=
  ∀ fields bindings, record = .dict fields → get fields "bindings" = .dict bindings →
    RepositoryClean library tree expect fields bindings

end Repository

section Records

variable {library : Library} {tree : Tree} {expect : Expectations} {record : PyData}
  {fields bindings : PyFields} {kind : Option ObligationKind} {evidence : Option (List PyString)}
  {targets : Option (List PyString)} {hash : Option PyString}

theorem dashboard_executionDefects_clean {cohort : Cohort} {seen seen' : Seen}
    {entry : PyData × ℕ} :
    CoverageDashboard.executionDefects library cohort seen entry = .ok ([],seen') ↔
      ∃ execution, readableEntry library entry.1 (entryLabel entry.2) = .inr execution ∧
        entryDefects library (CoverageDashboard.cwdTextDefects library)
          CoverageDashboard.anyResult cohort entry.2 seen execution = .ok ([],seen') := by
  unfold CoverageDashboard.executionDefects
  cases reads : readableEntry library entry.1 (entryLabel entry.2) with
  | inl unreadable =>
    simp only [pure_ok, Prod.mk.injEq, reduceCtorEq, false_and, exists_false, iff_false]
    exact fun clean => readableEntry_unreadable reads clean.1
  | inr execution => simp

/-- An entry that is clean as text, contained, with a clean artifact and a result that the
record admits, is clean for the gate. -/
theorem execution_clean {recordPass : Bool} {cohort : Cohort} {seen seen' : Seen}
    {entry : PyData × ℕ}
    (clean : CoverageDashboard.executionDefects library cohort seen entry = .ok ([],seen'))
    (repository : ∀ execution, entry.1 = .dict execution →
      containedCwd library tree (get execution "cwd") (entryLabel entry.2) = .ok [] ∧
      artifactDefects library tree execution (entryLabel entry.2) = .ok [])
    (admitted : recordPass = true → lookup entry.1 "result" = .str "PASS") :
    executionDefects library tree recordPass cohort seen entry = .ok ([],seen') := by
  obtain ⟨execution,reads,judged⟩ := dashboard_executionDefects_clean.mp clean
  have shape := (readableEntry_fields.mp reads).1
  obtain ⟨contained,artifact⟩ := repository execution shape
  obtain ⟨tool,classed,command,_,identity,resulted,run,path,marker⟩ := entryDefects_clean.mp judged
  obtain ⟨name,listed,shown,_⟩ := resultDefects_clean.mp resulted
  apply executionDefects_clean.mpr
  refine ⟨execution,reads,?_,artifact⟩
  apply entryDefects_clean.mpr
  refine ⟨tool,classed,command,contained,identity,?_,run,path,marker⟩
  apply resultDefects_clean.mpr
  refine ⟨name,listed,shown,?_⟩
  rw [beneathPass, finding_nil]
  intro passed
  have passes := admitted passed
  rw [shape, lookup, shown] at passes
  exact PyData.str.inj passes

theorem dashboard_cohortDefects_clean :
    CoverageDashboard.cohortDefects library fields bindings kind = .ok [] ↔
    ∃ primary rest last, get bindings "executions" = .list (primary :: rest) ∧
      Visits (CoverageDashboard.executionDefects library (cohortOf fields bindings kind)) ⟨[],[]⟩
        (primary :: rest).zipIdx last ∧
      derivationDefects library bindings ((fieldsOf primary).getD []) = [] := by
  unfold CoverageDashboard.cohortDefects
  cases held : get bindings "executions" with
  | list executions =>
    cases executions with
    | nil => simp
    | cons primary rest =>
      simp only [bind_ok, settle_nil, pure_ok]
      constructor
      · rintro ⟨⟨found,last⟩,gathered,clean,derived⟩
        simp only at clean
        subst clean
        exact ⟨primary,rest,last,rfl,gather_clean.mp gathered,derived⟩
      · rintro ⟨_,_,last,same,visits,derived⟩
        obtain ⟨rfl,rfl⟩ := List.cons.inj (PyData.list.inj same)
        exact ⟨([],last),gather_clean.mpr visits,rfl,derived⟩
  | _ => simp

theorem cohort_clean (clean : CoverageDashboard.cohortDefects library fields bindings kind = .ok [])
    (v3 : cohortSchema bindings = true)
    (repository : RepositoryClean library tree expect fields bindings)
    (atomic : isPass (get fields "result") = true →
      ∀ execution ∈ (entriesOf (get bindings "executions")).getD [],
        lookup execution "result" = .str "PASS") :
    cohortDefects library tree fields bindings kind = .ok [] := by
  obtain ⟨primary,rest,last,listed,visits,derived⟩ := dashboard_cohortDefects_clean.mp clean
  have entries : (entriesOf (get bindings "executions")).getD [] = primary :: rest := by
    rw [listed]
    rfl
  have inRepository := repository.cohort v3
  rw [entries] at inRepository atomic
  apply cohortDefects_clean.mpr
  refine ⟨primary,rest,last,listed,?_,derived⟩
  apply visits.imp
  intro s entry m member step
  apply execution_clean step (inRepository entry member)
  intro passed
  exact atomic passed entry.1 (List.fst_mem_of_mem_zipIdx member)

theorem dashboard_validateRecord_clean :
    CoverageDashboard.validateRecord library record kind targets hash = .ok [] ↔
    ∃ fields bindings, record = .dict fields ∧ get fields "bindings" = .dict bindings ∧
      missingFields library fields = [] ∧ topDefects library fields = .ok [] ∧
      waiverDefects library (get fields "waiver") = [] ∧
      CoverageDashboard.shapeDefects library bindings = [] ∧
      CoverageDashboard.boundDefects library fields bindings kind targets hash = .ok [] := by
  unfold CoverageDashboard.validateRecord
  cases record with
  | dict fields =>
    simp only [settle_nil, CoverageDashboard.recordDefects, bind_ok]
    constructor
    · rintro ⟨present,top,topped,rest⟩
      cases bound : get fields "bindings" with
      | dict bindings =>
        simp only [bound, settle_nil, List.append_eq_nil_iff] at rest
        obtain ⟨⟨⟨rfl,waiver⟩,shape⟩,later⟩ := rest
        exact ⟨fields,bindings,rfl,bound,present,topped,waiver,shape,later⟩
      | _ => simp [bound] at rest
    · rintro ⟨fields',bindings,same,bound,present,topped,waiver,shape,later⟩
      obtain rfl := PyData.dict.inj same
      refine ⟨present,[],topped,?_⟩
      simp only [bound, settle_nil, List.nil_append, List.append_eq_nil_iff]
      exact ⟨⟨waiver,shape⟩,later⟩
  | _ => simp

theorem dashboard_boundDefects_clean :
    CoverageDashboard.boundDefects library fields bindings kind targets hash = .ok [] ↔
    dirtySnapshotDefects library fields bindings = [] ∧
    manifestBindingDefects library bindings hash = [] ∧
    (cohortSchema bindings = true → v3ProducerDefects library bindings targets = []) ∧
    kindDefects library (get fields "evidence_class") kind [] = [] ∧
    (cohortSchema bindings = true →
      CoverageDashboard.cohortDefects library fields bindings kind = .ok []) := by
  have cohorts : CoverageDashboard.schemaDefects library fields bindings kind = .ok [] ↔
      (cohortSchema bindings = true →
        CoverageDashboard.cohortDefects library fields bindings kind = .ok []) := by
    unfold CoverageDashboard.schemaDefects
    by_cases v3 : cohortSchema bindings = true
    · simp [v3]
    · simp [v3]
  simp only [CoverageDashboard.boundDefects, bind_ok, pure_ok, List.append_eq_nil_iff,
    ite_eq_right_iff, ← cohorts]
  constructor
  · rintro ⟨_,read,⟨⟨⟨dirty,manifest⟩,producer⟩,admitted⟩,rfl⟩
    exact ⟨dirty,manifest,producer,admitted,read⟩
  · rintro ⟨dirty,manifest,producer,admitted,read⟩
    exact ⟨[],read,⟨⟨⟨dirty,manifest⟩,producer⟩,admitted⟩,rfl⟩

theorem executionsOf_entries (held : record = .dict fields)
    (bound : get fields "bindings" = .dict bindings) :
    GateRun.executionsOf record = (entriesOf (get bindings "executions")).getD [] := by
  subst held
  simp [GateRun.executionsOf, lookup, bound]

/-- A record that is clean as text, clean in the repository and whose cohort passes as a whole
is clean for the gate. -/
theorem record_clean
    (clean : CoverageDashboard.validateRecord library record kind expect.requiredTargets
      expect.manifest = .ok [])
    (repository : RecordClean library tree expect record)
    (atomic : ∀ execution ∈ GateRun.executionsOf record, lookup execution "result" = .str "PASS")
    (covered : ∀ tools ∈ evidence, ∀ tool ∈ tools, ∃ execution ∈ GateRun.executionsOf record,
      lookup execution "result" = .str "PASS" ∧ lookup execution "tool" = .str tool) :
    validateRecord library tree record expect kind evidence = .ok [] := by
  obtain ⟨fields,bindings,held,bound,present,topped,waiver,shape,later⟩ :=
    dashboard_validateRecord_clean.mp clean
  obtain ⟨dirty,manifest,producer,admitted,cohort⟩ := dashboard_boundDefects_clean.mp later
  have inRepository := repository fields bindings held bound
  apply validateRecord_clean.mpr
  refine ⟨fields,bindings,held,bound,present,topped,?_,?_⟩
  · simp only [CoverageDashboard.shapeDefects, List.append_eq_nil_iff] at shape
    simp only [shapeDefects, List.append_eq_nil_iff]
    exact ⟨⟨⟨shape.1.1,shape.2⟩,shape.1.2⟩,waiver⟩
  · apply boundDefects_clean.mpr
    refine ⟨dirty,inRepository.snapshot,inRepository.intent,manifest,admitted,producer,?_,?_⟩
    · by_cases v3 : cohortSchema bindings = true
      · rw [treeDefects_cohort v3]
        refine ⟨inRepository.intentPath v3,cohort_clean (cohort v3) v3 inRepository ?_⟩
        intro _
        rw [← executionsOf_entries held bound]
        exact atomic
      · rw [treeDefects_single (Bool.not_eq_true _ ▸ v3)]
        exact inRepository.single (Bool.not_eq_true _ ▸ v3)
    · intro _
      rw [coverageDefects, finding_nil, List.filter_eq_nil_iff]
      intro tool member
      cases evidence with
      | none => exact absurd member List.not_mem_nil
      | some tools =>
        have passing := (GateVerdict.mem_passingTools held bound).mpr (covered tools rfl tool member)
        simpa using passing

end Records

section Rows

variable {library : Library} {inputs : ManifestInputs} {required : List PyString}
  {records : List PyData} {claim : PyString} {row : CoverageDashboard.Row} {record : PyData}

theorem slots_entries (record : PyData) : (CoverageDashboard.executionsOf record).getD [] =
    (GateRun.executionsOf record).map slotOf := by
  unfold CoverageDashboard.executionsOf GateRun.executionsOf
  cases entriesOf (lookup (lookup record "bindings") "executions") with
  | none => rfl
  | some entries => rfl

theorem textOf_eq {value : PyData} {text : PyString} : textOf value = some text ↔
    value = .str text := by
  cases value <;> simp [textOf]

theorem nonPassing_nil (whole : nonPassingExecutions (CoverageDashboard.executionsOf record) = []) :
    ∀ execution ∈ GateRun.executionsOf record, lookup execution "result" = .str "PASS" := by
  intro execution member
  rw [nonPassingExecutions, List.map_eq_nil_iff, List.filter_eq_nil_iff, slots_entries] at whole
  obtain ⟨i,placed⟩ := mem_zipIdx_of_mem (List.mem_map_of_mem (f := slotOf) member)
  have passed := whole _ placed
  simp only [CoverageDashboard.passes, slotOf, Bool.not_eq_true, Bool.not_eq_false',
    Bool.and_eq_true, beq_iff_eq] at passed
  exact textOf_eq.mp passed.2

theorem toolCoverage_pass {cohort : List Slot} {tool : PyString}
    (covered : toolCoverage cohort tool = "PASS") :
    ∃ slot ∈ cohort, slot.tool = some tool ∧ slot.result = some (points "PASS") := by
  have listed : some (points "PASS") ∈ CoverageDashboard.toolResults cohort tool := by
    unfold toolCoverage at covered
    cases ran : CoverageDashboard.toolResults cohort tool with
    | nil =>
      rw [ran] at covered
      exact absurd covered (by decide)
    | cons first rest =>
      by_contra absent
      simp only [ran, if_neg absent] at covered
      cases shown : (first :: rest).findSome? (fun result =>
          result.filter (fun text => !text.isEmpty)) with
      | none =>
        rw [shown] at covered
        exact absurd covered (by decide)
      | some text =>
        rw [shown, Option.getD_some] at covered
        obtain ⟨result,member,kept⟩ := List.exists_of_findSome?_eq_some shown
        apply absent
        rw [← covered, ← (Option.filter_eq_some_iff.mp kept).1]
        exact member
  simp only [CoverageDashboard.toolResults, List.mem_map, List.mem_filter, decide_eq_true_eq]
    at listed
  obtain ⟨slot,⟨member,named⟩,passed⟩ := listed
  exact ⟨slot,member,named,passed⟩

theorem coverage_complete {tools : List PyString}
    (complete : (cohortCoverage tools (CoverageDashboard.executionsOf record)).2 = []) :
    ∀ tool ∈ tools, ∃ execution ∈ GateRun.executionsOf record,
      lookup execution "result" = .str "PASS" ∧ lookup execution "tool" = .str tool := by
  intro tool member
  have covered : toolCoverage ((CoverageDashboard.executionsOf record).getD []) tool = "PASS" := by
    by_contra gap
    have listed := List.filter_eq_nil_iff.mp complete tool member
    simp [gap] at listed
  obtain ⟨slot,inside,named,passed⟩ := toolCoverage_pass covered
  rw [slots_entries, List.mem_map] at inside
  obtain ⟨execution,inside,rfl⟩ := inside
  exact ⟨execution,inside,textOf_eq.mp passed,textOf_eq.mp named⟩

theorem assumed_listed (rests : ∃ execution ∈ GateRun.executionsOf record,
      GateRun.assumed (lookup execution "evidence_class") = true) :
    CoverageDashboard.assumedExecutions (CoverageDashboard.executionsOf record) ≠ [] := by
  obtain ⟨execution,member,shown⟩ := rests
  intro none
  rw [CoverageDashboard.assumedExecutions, List.filterMap_eq_nil_iff, slots_entries] at none
  obtain ⟨i,placed⟩ := mem_zipIdx_of_mem (List.mem_map_of_mem (f := slotOf) member)
  have unlisted := none _ placed
  unfold GateRun.assumed at shown
  cases text : textOf (lookup execution "evidence_class") with
  | none => simp [text] at shown
  | some name => simp_all [slotOf, Option.filter]

/-- What the dashboard counts as a pass the gate counts as one. -/
theorem status_pass (passes : CoverageDashboard.validStatus record
      (CoverageDashboard.assumedExecutions (CoverageDashboard.executionsOf record)) = .pass) :
    ∃ waived, GateRun.validStatus record = .pass waived := by
  unfold CoverageDashboard.validStatus at passes
  unfold GateRun.validStatus
  by_cases failed : equal (lookup record "result") (.str "FAIL") = true
  · simp [failed] at passes
  by_cases partly : equal (lookup record "result") (.str "INCOMPLETE") = true
  · simp [failed, partly] at passes
  rw [if_neg failed, if_neg partly] at passes ⊢
  by_cases granted : truthy (lookup record "waiver") = true
  · exact ⟨_,if_neg (by simp [granted])⟩
  · have firm : GateRun.assumedEvidence record = [] := by
      apply GateVerdict.assumedEvidence_nil.mpr
      intro weak
      have weak' : GateRun.assumed (lookup record "evidence_class") = true ∨
          CoverageDashboard.assumedExecutions (CoverageDashboard.executionsOf record) ≠ [] :=
        weak.imp_right assumed_listed
      rw [if_pos ⟨weak',Bool.not_eq_true _ ▸ granted⟩] at passes
      cases passes
    exact ⟨_,if_neg (by simp [firm])⟩

theorem coveredRow_pass {evidence : Option (List PyString)}
    (passes : (CoverageDashboard.coveredRow evidence row).status = .pass) :
    row.status = .pass ∧ ∀ tools ∈ evidence, (cohortCoverage tools row.executions).2 = [] := by
  cases evidence with
  | none => exact ⟨passes,nofun⟩
  | some tools =>
    simp only [CoverageDashboard.coveredRow] at passes
    by_cases gap : row.status = .pass ∧ (cohortCoverage tools row.executions).2 ≠ []
    · rw [if_pos gap] at passes
      cases passes
    · rw [if_neg gap] at passes
      refine ⟨passes,?_⟩
      rintro _ ⟨⟩
      by_contra lacking
      exact gap ⟨passes,lacking⟩

theorem systemRow_pass {obligations : Obligations}
    (passes : (CoverageDashboard.systemRow obligations row).status = .pass) :
    row.status = .pass ∧ (row.obligationKind = some .systemClaim →
      ∀ tools ∈ mapGet obligations.evidence row.claim,
        (cohortCoverage tools row.executions).2 = []) := by
  unfold CoverageDashboard.systemRow at passes
  by_cases system : row.obligationKind = some .systemClaim
  · rw [if_pos system] at passes
    have covered := coveredRow_pass passes
    exact ⟨covered.1,fun _ => covered.2⟩
  · rw [if_neg system] at passes
    exact ⟨passes,fun claimed => absurd claimed system⟩

theorem atomicRow_pass (passes : (CoverageDashboard.atomicRow row).status = .pass) :
    row.status = .pass ∧ row.nonPassing = [] ∧ CoverageDashboard.atomicRow row = row := by
  unfold CoverageDashboard.atomicRow at passes ⊢
  by_cases gap : row.status = .pass ∧ row.nonPassing ≠ []
  · rw [if_pos gap] at passes
    cases passes
  · rw [if_neg gap] at passes ⊢
    refine ⟨passes,?_,rfl⟩
    by_contra lacking
    exact gap ⟨passes,lacking⟩

/-- A record whose row passes: it is the record of the claim, clean as text and unshared, and
its cohort passes and covers what a system claim requires. -/
structure Covered (library : Library) (inputs : ManifestInputs) (required : List PyString)
    (records : List PyData) (claim : PyString) (record : PyData) : Prop where
  single : claim ∉ (indexRecords records).duplicates
  held : mapGet (indexRecords records).byClaim claim = some record
  valid : CoverageDashboard.validateRecord library record (mapGet inputs.obligations.kinds claim)
    inputs.targets inputs.hash = .ok []
  unshared : sharedArtifactDefects library required (indexRecords records) claim record = []
  passes : ∃ waived, GateRun.validStatus record = .pass waived
  atomic : ∀ execution ∈ GateRun.executionsOf record, lookup execution "result" = .str "PASS"
  complete : mapGet inputs.obligations.kinds claim = some .systemClaim →
    ∀ tools ∈ mapGet inputs.obligations.evidence claim, ∀ tool ∈ tools,
      ∃ execution ∈ GateRun.executionsOf record,
        lookup execution "result" = .str "PASS" ∧ lookup execution "tool" = .str tool

theorem judgedRow_pass {kind : Option ObligationKind} {defects : List PyString}
    (passes : (CoverageDashboard.judgedRow claim kind record defects).status = .pass) :
    defects = [] ∧ CoverageDashboard.validStatus record
      (CoverageDashboard.assumedExecutions (CoverageDashboard.executionsOf record)) = .pass := by
  unfold CoverageDashboard.judgedRow at passes
  by_cases clean : defects = []
  · rw [if_pos clean] at passes
    exact ⟨clean,passes⟩
  · rw [if_neg clean] at passes
    cases passes

theorem judgedRow_fields {kind : Option ObligationKind} {defects : List PyString} :
    (CoverageDashboard.judgedRow claim kind record defects).claim = claim ∧
    (CoverageDashboard.judgedRow claim kind record defects).obligationKind = kind ∧
    (CoverageDashboard.judgedRow claim kind record defects).executions =
      CoverageDashboard.executionsOf record ∧
    (CoverageDashboard.judgedRow claim kind record defects).nonPassing =
      nonPassingExecutions (CoverageDashboard.executionsOf record) := by
  unfold CoverageDashboard.judgedRow
  by_cases clean : defects = []
  · rw [if_pos clean]
    exact ⟨rfl,rfl,rfl,rfl⟩
  · rw [if_neg clean]
    exact ⟨rfl,rfl,rfl,rfl⟩

theorem evaluateClaim_pass (h : CoverageDashboard.evaluateClaim library inputs required
      (indexRecords records) claim = .ok row) (passes : row.status = .pass) :
    ∃ record, Covered library inputs required records claim record := by
  rw [CoverageDashboard.evaluateClaim, bind_ok] at h
  obtain ⟨bare,judged,same⟩ := h
  obtain rfl := (Except.ok.inj same).symm
  obtain ⟨whole,covers⟩ := systemRow_pass passes
  obtain ⟨passed,atomic,same⟩ := atomicRow_pass whole
  rw [same] at covers
  unfold CoverageDashboard.claimRow at judged
  by_cases several : claim ∈ (indexRecords records).duplicates
  · rw [if_pos several, pure_ok] at judged
    subst judged
    cases passed
  rw [if_neg several] at judged
  cases held : mapGet (indexRecords records).byClaim claim with
  | none =>
    simp only [held, pure_ok] at judged
    subst judged
    cases passed
  | some record =>
    simp only [held, bind_ok, pure_ok] at judged
    obtain ⟨defects,valid,rfl⟩ := judged
    obtain ⟨clean,status⟩ := judgedRow_pass passed
    obtain ⟨rfl,unshared⟩ := List.append_eq_nil_iff.mp clean
    obtain ⟨named,kinded,slots,lists⟩ := @judgedRow_fields claim record
      (mapGet inputs.obligations.kinds claim)
      ([] ++ sharedArtifactDefects library required (indexRecords records) claim record)
    rw [named, kinded, slots] at covers
    rw [lists] at atomic
    refine ⟨record,several,held,valid,unshared,status_pass status,nonPassing_nil atomic,?_⟩
    intro system tools declared
    exact coverage_complete (covers system tools declared)

end Rows

section Requirements

variable {library : Library} {args : CoverageDashboard.Arguments} {obligations : Obligations}
  {requested : List PyString}

/-- How a run of the gate is to bind records; the manifest is bound by its bytes. -/
structure BindingOptions where
  snapshot : Option PyString
  intent : Option PyString
  exactly : Bool
  unbound : Bool

/-- The command line of the gate on the inputs of the dashboard. -/
def gateArguments (args : CoverageDashboard.Arguments) (options : BindingOptions) :
    GateRun.Arguments :=
  ⟨args.documents,args.require,args.manifest,options.snapshot,options.intent,none,options.exactly,
    options.unbound⟩

/-- The inputs on which the gate reads what the dashboard reads. -/
structure SoundArguments (args : CoverageDashboard.Arguments) : Prop where
  requires : args.require ≠ some []
  manifest : ∀ file ∈ args.manifest, ∀ document, file.document = .ok document →
    SoundManifest document

variable {options : BindingOptions} {inputs : ManifestInputs}

theorem manifestInputs_agree :
    GateRun.manifestInputs library (gateArguments args options) = .ok inputs ↔
      CoverageDashboard.manifestInputs library args = .ok inputs ∧
        ∀ file ∈ args.manifest, ∀ document, file.document = .ok document →
          SoundManifest document := by
  unfold GateRun.manifestInputs CoverageDashboard.manifestInputs
  have manifests : (gateArguments args options).manifest = args.manifest := rfl
  rw [manifests]
  cases given : args.manifest with
  | none => simp [gateArguments]
  | some file =>
    simp only [bind_ok, pure_ok, CoverageDashboard.loaders_agree, GateRun.expectedHash,
      gateArguments, Option.mem_def, Option.some.injEq, forall_eq']
    constructor
    · rintro ⟨document,read,obligations,⟨loaded,sound⟩,_,⟨bytes,raw,rfl⟩,rfl⟩
      refine ⟨⟨document,read,obligations,loaded,bytes,raw,rfl⟩,?_⟩
      intro document' same
      obtain rfl := Except.ok.inj (read.symm.trans same)
      exact sound
    · rintro ⟨⟨document,read,obligations,loaded,bytes,raw,rfl⟩,sound⟩
      exact ⟨document,read,obligations,⟨loaded,sound document read⟩,_,⟨bytes,raw,rfl⟩,rfl⟩

theorem requirement_given (requires : args.require ≠ some []) :
    CoverageDashboard.requirement args = args.require := by
  unfold CoverageDashboard.requirement wanted
  cases asked : args.require with
  | none => rfl
  | some text =>
    cases text with
    | nil => exact absurd asked requires
    | cons c cs => rfl

theorem requestedOf_agree (requires : args.require ≠ some [])
    (h : CoverageDashboard.requestedOf args obligations = .ok requested)
    (named : requested ≠ []) :
    GateRun.requestedOf (gateArguments args options) obligations = .ok requested := by
  unfold CoverageDashboard.requestedOf at h
  unfold GateRun.requestedOf
  rw [requirement_given requires] at h
  have asks : (gateArguments args options).require = args.require := rfl
  have manifests : (gateArguments args options).manifest = args.manifest := rfl
  rw [asks, manifests]
  cases asked : args.require with
  | some text =>
    simp only [asked, pure_ok] at h
    subst h
    simp only [if_neg named]
    rfl
  | none =>
    simp only [asked] at h
    by_cases given : args.manifest.isSome = true
    · simpa [given] using h
    · simp [given] at h

theorem unknownRequired_agree (requires : args.require ≠ some [])
    (h : CoverageDashboard.requestedOf args obligations = .ok requested)
    (listed : obligations.required = obligations.kinds.map Prod.fst)
    (known : CoverageDashboard.unknownRequired args obligations requested = []) :
    GateRun.unknownRequired (gateArguments args options) obligations requested = [] := by
  unfold CoverageDashboard.unknownRequired CoverageDashboard.narrowed at known
  unfold GateRun.unknownRequired
  unfold CoverageDashboard.requestedOf at h
  rw [requirement_given requires] at h known
  have manifests : (gateArguments args options).manifest = args.manifest := rfl
  rw [manifests]
  by_cases given : args.manifest.isSome = true
  · rw [if_pos given]
    cases asked : args.require with
    | some text => simpa [given, asked] using known
    | none =>
      simp only [asked, given, if_true, pure_ok] at h
      subst h
      rw [sortedNames_nil, List.filter_eq_nil_iff]
      intro claim member
      rw [listed, ← PolicyDocument.mapGet_isSome] at member
      simp [Option.isSome_iff_ne_none.mp member]
  · rw [if_neg given]

theorem expansionOf_agree (requires : args.require ≠ some []) :
    GateRun.expansionOf (gateArguments args options) obligations requested =
      CoverageDashboard.expansionOf args obligations requested := by
  unfold GateRun.expansionOf CoverageDashboard.expansionOf CoverageDashboard.narrowed
  rw [requirement_given requires]
  apply if_congr _ rfl rfl
  rw [Bool.and_eq_true, and_comm]
  rfl

theorem expansionOf_filled (h : (CoverageDashboard.expansionOf args obligations requested).1 ≠ []) :
    requested ≠ [] := by
  rintro rfl
  unfold CoverageDashboard.expansionOf at h
  by_cases both : CoverageDashboard.narrowed args = true
  · rw [if_pos both] at h
    exact h rfl
  · rw [if_neg both] at h
    exact h rfl

theorem dashboard_prepare_ok {prepared : CoverageDashboard.Prepared} :
    CoverageDashboard.prepare library args = .ok prepared ↔
    ∃ requested, loadRecords args.documents = .ok prepared.records ∧
      CoverageDashboard.manifestInputs library args = .ok prepared.inputs ∧
      CoverageDashboard.requestedOf args prepared.inputs.obligations = .ok requested ∧
      CoverageDashboard.unknownRequired args prepared.inputs.obligations requested = [] ∧
      prepared.required =
        (CoverageDashboard.expansionOf args prepared.inputs.obligations requested).1 ∧
      prepared.expansion =
        (CoverageDashboard.expansionOf args prepared.inputs.obligations requested).2 := by
  simp only [CoverageDashboard.prepare, bind_ok, lift_ok]
  constructor
  · rintro ⟨records,loaded,inputs,read,requested,asked,h⟩
    by_cases known : CoverageDashboard.unknownRequired args inputs.obligations requested = []
    · simp only [known, if_true, pure_ok] at h
      subst h
      exact ⟨requested,loaded,read,asked,known,rfl,rfl⟩
    · simp [known] at h
  · rintro ⟨requested,loaded,read,asked,known,required,expansion⟩
    refine ⟨_,loaded,_,read,requested,asked,?_⟩
    simp only [known, if_true, pure_ok, ← required, ← expansion]

/-- On sound inputs the gate prepares what the dashboard prepares, sorted. -/
theorem prepare_agree {prepared : CoverageDashboard.Prepared} (sound : SoundArguments args)
    (h : CoverageDashboard.prepare library args = .ok prepared) (filled : prepared.required ≠ []) :
    GateRun.prepare library (gateArguments args options) =
      .ok ⟨prepared.records,prepared.inputs,sortedNames prepared.required,prepared.expansion⟩ := by
  obtain ⟨requested,loaded,read,asked,known,required,expansion⟩ := dashboard_prepare_ok.mp h
  have inputs : GateRun.manifestInputs library (gateArguments args options) = .ok prepared.inputs :=
    manifestInputs_agree.mpr ⟨read,sound.manifest⟩
  have flat := (GateVerdict.manifestInputs_flat inputs).1
  rw [required] at filled
  apply GateVerdict.prepare_ok.mpr
  refine ⟨requested,loaded,inputs,?_,?_,?_,?_⟩
  · exact requestedOf_agree sound.requires asked (expansionOf_filled filled)
  · exact unknownRequired_agree sound.requires asked flat.required known
  · rw [expansionOf_agree sound.requires, ← required]
  · rw [expansionOf_agree sound.requires, ← expansion]

/-- The gate prepares a run on sound inputs only. -/
theorem prepare_sound {prepared : GateRun.Prepared}
    (h : GateRun.prepare library (gateArguments args options) = .ok prepared) :
    SoundArguments args := by
  obtain ⟨requested,_,read,asked,_⟩ := GateVerdict.prepare_ok.mp h
  constructor
  · intro hollow
    unfold GateRun.requestedOf at asked
    have asks : (gateArguments args options).require = some [] := hollow
    have silent : requestedClaims [] = [] := by decide
    simp [asks, silent] at asked
  · exact (manifestInputs_agree.mp read).2

end Requirements

section Runs

variable {library : Library} {args : CoverageDashboard.Arguments} {options : BindingOptions}
  {project : GateRun.Project} {tree : Tree} {expect : Expectations}
  {prepared : GateRun.Prepared} {claim : PyString} {rows : List CoverageDashboard.Row}
  {row : CoverageDashboard.Row}

/-- What freshness holds a record to, whichever claims the run judges. -/
def freshness (args : GateRun.Arguments) (project : GateRun.Project) : Except Stop Expectations :=
  GateRun.expectations args project ⟨[],⟨emptyObligations,none,none⟩,[],[]⟩

/-- The expectations of a run: freshness, and the manifest at hand. -/
def boundTo (expect : Expectations) (inputs : ManifestInputs) : Expectations :=
  ⟨expect.snapshot,expect.intent,inputs.hash,expect.snapshotExact,expect.intentPath,inputs.targets⟩

theorem expectations_fresh {args : GateRun.Arguments}
    (h : freshness args project = .ok expect) :
    GateRun.expectations args project prepared = .ok (boundTo expect prepared.inputs) := by
  unfold freshness GateRun.expectations at h
  unfold GateRun.expectations
  by_cases unbound : args.allowUnbound = true
  · simp only [unbound, if_true, pure_ok] at h ⊢
    subst h
    rfl
  · simp only [unbound, if_false, bind_ok, pure_ok, Bool.false_eq_true] at h ⊢
    obtain ⟨snapshot,taken,intent,read,rfl⟩ := h
    exact ⟨snapshot,taken,intent,read,rfl⟩

/-- The rules of the gate that need the repository find no defect in what is judged. -/
def RepositoryPasses (library : Library) (args : CoverageDashboard.Arguments)
    (options : BindingOptions) (project : GateRun.Project) : Prop :=
  ∃ expect, freshness (gateArguments args options) project = .ok expect ∧
    ∀ prepared, CoverageDashboard.prepare library args = .ok prepared →
      ∀ claim ∈ prepared.required, ∀ record ∈ recordsOf prepared.records claim,
        RecordClean library project.tree expect record

theorem dependencyRow_pass (passes : (CoverageDashboard.dependencyRow rows row).status = .pass) :
    row.status = .pass := by
  unfold CoverageDashboard.dependencyRow at passes
  by_cases system : row.obligationKind = some .systemClaim
  · simp only [system, if_true] at passes
    split at passes
    · cases passes
    · exact passes
  · rw [if_neg system] at passes
    exact passes

theorem computeVerdict_zero {index : GateRun.RecordIndex} {required : List PyString}
    (h : (CoverageDashboard.computeVerdict rows index required).2 = 0) :
    required ≠ [] ∧ ∀ row ∈ rows, row.status = .pass := by
  unfold CoverageDashboard.computeVerdict at h
  by_cases named : required = []
  · simp [named] at h
  by_cases failed : rows.any (fun row => row.status == .fail) = true
  · simp [named, failed] at h
  by_cases lacking : rows.any (fun row => CoverageDashboard.isGap row.status) = true
  · simp [named, failed, lacking] at h
  refine ⟨named,?_⟩
  intro row member
  have complete : row.status ≠ .fail ∧ CoverageDashboard.isGap row.status = false := by
    simp only [List.any_eq_true, not_exists, not_and, beq_iff_eq, Bool.not_eq_true] at failed lacking
    exact ⟨failed row member,lacking row member⟩
  have settled : row.status = .pass ∨ row.status = .fail := by
    simpa [CoverageDashboard.isGap, Classical.or_iff_not_imp_left] using complete.2
  exact settled.resolve_right complete.1

/-- A covered run judged at least one claim, and the record of each claim is covered. -/
theorem dashboard_covers (h : CoverageDashboard.exitCode (CoverageDashboard.main library args) = 0) :
    ∃ prepared, CoverageDashboard.prepare library args = .ok prepared ∧ prepared.required ≠ [] ∧
      ∀ claim ∈ prepared.required, ∃ record,
        Covered library prepared.inputs prepared.required prepared.records claim record := by
  unfold CoverageDashboard.main at h
  cases prepares : CoverageDashboard.prepare library args with
  | error stop =>
    cases stop with
    | refused message =>
      simp [prepares, CoverageDashboard.exitCode, CoverageDashboard.errorDashboard, pure,
        Except.pure] at h
    | raised error =>
      by_cases known : GateRun.reported error = true
      · simp [prepares, known, CoverageDashboard.exitCode, CoverageDashboard.errorDashboard, pure,
          Except.pure] at h
      · simp [prepares, known, CoverageDashboard.exitCode, throw, throwThe,
          MonadExceptOf.throw] at h
  | ok prepared =>
    simp only [prepares] at h
    cases built : CoverageDashboard.buildDashboard library prepared with
    | error error => simp [built, CoverageDashboard.exitCode] at h
    | ok dashboard =>
      rw [built] at h
      simp only [CoverageDashboard.buildDashboard, bind_ok, pure_ok] at built
      obtain ⟨evaluated,each,rfl⟩ := built
      obtain ⟨named,pass⟩ := computeVerdict_zero h
      refine ⟨prepared,rfl,named,?_⟩
      intro claim required
      obtain ⟨row,member,judged⟩ := mapM_mem each required
      exact evaluateClaim_pass judged (dependencyRow_pass (pass _ (List.mem_map_of_mem member)))

theorem shared_sorted {required : List PyString} {index : GateRun.RecordIndex} {record : PyData}
    (h : sharedArtifactDefects library required index claim record = []) :
    sharedArtifactDefects library (sortedNames required) index claim record = [] := by
  unfold sharedArtifactDefects at h ⊢
  by_cases v3 : isSchemaV3 record = true
  · rw [if_pos v3, List.flatMap_eq_nil_iff] at h ⊢
    intro path member
    have alone := h path member
    rw [finding_nil, sortedNames_nil, List.filter_eq_nil_iff] at alone ⊢
    intro other cites
    apply alone other
    simpa [GateRun.citedBy] using cites
  · rw [if_neg v3]

/-- The evidence that a manifest requires is that of its system claims. -/
theorem evidence_system {obligations : Obligations} {tools : List PyString} (flat : Flat obligations)
    (h : tools ∈ mapGet obligations.evidence claim) :
    mapGet obligations.kinds claim = some .systemClaim := by
  have listed : claim ∈ obligations.evidence.map Prod.fst :=
    List.mem_map_of_mem (PolicyDocument.mapGet_mem h)
  rw [flat.witnesses] at listed
  obtain ⟨entry,member,rfl⟩ := List.mem_map.mp listed
  exact (GateVerdict.flat_claim flat member).1

theorem judgeClaim_covered {record : PyData} {inputs : ManifestInputs} {required : List PyString}
    {records : List PyData} {expansion : List (PyString × List PyString)}
    (flat : Flat inputs.obligations)
    (covered : Covered library inputs required records claim record)
    (repository : RecordClean library tree expect record) : ∃ waived,
    GateRun.judgeClaim library tree ⟨records,inputs,sortedNames required,expansion⟩
      (boundTo expect inputs) (indexRecords records) claim = .ok (.pass waived) := by
  obtain ⟨waived,passes⟩ := covered.passes
  refine ⟨waived,?_⟩
  have bound : RecordClean library tree (boundTo expect inputs) record := by
    intro fields bindings held nested
    obtain ⟨snapshot,intent,intentPath,cohort,single⟩ := repository fields bindings held nested
    exact ⟨snapshot,intent,intentPath,cohort,single⟩
  have complete : ∀ tools ∈ mapGet inputs.obligations.evidence claim, ∀ tool ∈ tools,
      ∃ execution ∈ GateRun.executionsOf record,
        lookup execution "result" = .str "PASS" ∧ lookup execution "tool" = .str tool :=
    fun tools declared => covered.complete (evidence_system flat declared) tools declared
  have valid : validateRecord library tree record (boundTo expect inputs)
      (mapGet inputs.obligations.kinds claim) (mapGet inputs.obligations.evidence claim) = .ok [] :=
    record_clean covered.valid bound covered.atomic complete
  unfold GateRun.judgeClaim
  rw [if_neg covered.single]
  simp only [covered.held, bind_ok, pure_ok]
  refine ⟨[],valid,?_⟩
  rw [shared_sorted covered.unshared, List.append_nil, if_pos rfl, passes]

theorem aggregate_covered {args : GateRun.Arguments} {rows : List GateRun.Judgement}
    (named : prepared.required ≠ []) (passes : ∀ row ∈ rows, ∃ waived, row.status = .pass waived) :
    (GateRun.aggregate library args prepared rows).code = 0 := by
  apply GateVerdict.conclude_zero.mpr
  constructor
  · rw [List.filterMap_eq_nil_iff]
    intro row member
    obtain ⟨waived,status⟩ := passes row member
    simp [GateRun.failedMessage, status]
  · rw [GateRun.incompleteMessages, if_neg named, List.nil_append, List.filterMap_eq_nil_iff]
    intro row member
    obtain ⟨waived,status⟩ := passes row member
    simp [GateRun.incompleteMessage, status]

theorem mapM_total {α β ε : Type} {f : α → Except ε β} {xs : List α}
    (each : ∀ x ∈ xs, ∃ y, f x = .ok y) : ∃ ys, xs.mapM f = .ok ys := by
  induction xs with
  | nil => exact ⟨[],rfl⟩
  | cons x xs ih =>
    obtain ⟨y,now⟩ := each x List.mem_cons_self
    obtain ⟨ys,later⟩ := ih (fun x member => each x (List.mem_cons_of_mem _ member))
    refine ⟨y :: ys,?_⟩
    rw [List.mapM_cons, now]
    simp [later, pure, Except.pure]

/-- What the dashboard covers is verified by a gate whose inputs are sound. -/
theorem gate_accepts {prepared : CoverageDashboard.Prepared} (sound : SoundArguments args)
    (prepares : CoverageDashboard.prepare library args = .ok prepared)
    (named : prepared.required ≠ [])
    (covers : ∀ claim ∈ prepared.required, ∃ record,
      Covered library prepared.inputs prepared.required prepared.records claim record)
    (fresh : freshness (gateArguments args options) project = .ok expect)
    (repository : ∀ claim ∈ prepared.required, ∀ record ∈ recordsOf prepared.records claim,
      RecordClean library project.tree expect record) :
    GateRun.exitCode (GateRun.main library (gateArguments args options) project) = 0 := by
  have ready := @prepare_agree library args options prepared sound prepares named
  obtain ⟨requested,_,read,_⟩ := GateVerdict.prepare_ok.mp ready
  have flat := (GateVerdict.manifestInputs_flat read).1
  have passes : ∀ claim ∈ prepared.required, ∃ waived,
      GateRun.judgeClaim library project.tree
        ⟨prepared.records,prepared.inputs,sortedNames prepared.required,prepared.expansion⟩
        (boundTo expect prepared.inputs) (indexRecords prepared.records) claim =
          .ok (.pass waived) := by
    intro claim required
    obtain ⟨record,covered⟩ := covers claim required
    have listed : record ∈ recordsOf prepared.records claim := by
      have last := (indexRecords_spec prepared.records claim).1
      rw [covered.held] at last
      exact List.mem_of_getLast? last.symm
    exact judgeClaim_covered flat covered (repository claim required record listed)
  rw [GateVerdict.main_of ready (expectations_fresh fresh)]
  have judged : ∃ rows, GateRun.judgeAll library project.tree
      ⟨prepared.records,prepared.inputs,sortedNames prepared.required,prepared.expansion⟩
      (boundTo expect prepared.inputs) = .ok rows := by
    apply mapM_total
    intro claim required
    obtain ⟨waived,pass⟩ := passes claim (mem_sortedNames.mp required)
    exact ⟨_,bind_ok _ _ _ |>.mpr ⟨_,pass,rfl⟩⟩
  obtain ⟨rows,judged⟩ := judged
  rw [judged]
  apply aggregate_covered
  · rw [ne_eq, sortedNames_nil]
    exact named
  · intro row member
    obtain ⟨claim,required,status,_⟩ := forall₂_mem_right (GateVerdict.judgeAll_ok.mp judged) member
    obtain ⟨waived,pass⟩ := passes claim (mem_sortedNames.mp required)
    exact ⟨waived,Except.ok.inj (status.symm.trans pass)⟩

section Samples

open GateVerdict (sampleCohort sampleExpectations sampleLibrary sampleProject sampleRecord
  sampleTree)

def sampleInvariant : PyData := .dict [("invariants",.list [.dict [("id",.str "c")]])]

/-- A system claim that rests on an obligation which the manifest does not declare. -/
def sampleUndeclared : PyData :=
  .dict [("system_claims",.list [.dict [("id",.str "c"),("depends_on",.list [.str "x"]),
    ("required_evidence",.list [.str "t"])]])]

def sampleInputs (manifest : PyData) : CoverageDashboard.Arguments :=
  ⟨[.ok (sampleRecord "PASS" sampleCohort)],none,some ⟨.ok manifest,.ok []⟩⟩

def unboundOptions : BindingOptions := ⟨none,none,false,true⟩

theorem sample_record_clean : RecordClean sampleLibrary sampleTree sampleExpectations
    (sampleRecord "PASS" sampleCohort) := by
  intro fields bindings held nested
  obtain rfl := (PyData.dict.inj held).symm
  have bound : get [("claim_id",.str "c"),("required",.bool true),
      ("evidence_class",.str "code-enforced"),("result",.str "PASS"),("scope",.str "s"),
      ("bindings",.dict sampleCohort),("waiver",.none)] "bindings" = .dict sampleCohort := by
    rfl
  obtain rfl := PyData.dict.inj (bound.symm.trans nested)
  have v3 : cohortSchema sampleCohort = true := by decide +kernel
  constructor
  · decide +kernel
  · decide +kernel
  · intro _
    decide +kernel
  · intro _ entry member execution shape
    have only : entry = (GateVerdict.sampleExecution "t" "r" GateVerdict.sampleArtifact,0) := by
      exact List.mem_singleton.mp member
    subst only
    obtain rfl := PyData.dict.inj shape
    constructor
    · decide +kernel
    · decide +kernel
  · intro older
    rw [v3] at older
    cases older

theorem sample_repository (manifest : PyData) :
    RepositoryPasses sampleLibrary (sampleInputs manifest) unboundOptions sampleProject := by
  refine ⟨sampleExpectations,rfl,?_⟩
  intro prepared prepares claim _ record member
  obtain ⟨_,loaded,_⟩ := dashboard_prepare_ok.mp prepares
  have records : [sampleRecord "PASS" sampleCohort] = prepared.records := Except.ok.inj loaded
  have listed : record ∈ prepared.records := (List.mem_filter.mp member).1
  rw [← records, List.mem_singleton] at listed
  subst listed
  exact sample_record_clean

end Samples

end Runs

end GateCoverage

end EvidenceV4
