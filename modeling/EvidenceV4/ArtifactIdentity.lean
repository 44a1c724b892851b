import EvidenceV4.GateVerdict

/-!
# One artifact for one execution

The gate keeps artifacts apart by their names: within a cohort no name repeats,
each is spelled from the claim and the run, and no other required claim cites it.
The bytes are read through the resolved path, so two executions share a file
exactly when two different names spell one path. A run id is free text and may
hold separators and parent steps.
-/

set_option autoImplicit false

namespace EvidenceV4

namespace ArtifactIdentity

open CheckedExcept
open CheckerJson (PyString points)
open Findings
open GateRecord
open GateRun
open GateValidation
open GateVerdict
open PolicyDocument (mapGet mapGet_mem mapGet_isSome)
open PythonData
open RepositoryTree

variable {library : Library} {args : Arguments} {project : Project} {tree : Tree}
  {prepared : GateRun.Prepared} {expect : Expectations}

def pathOf (execution : PyData) : PyString := (textOf (lookup execution "raw_output_path")).getD []

def runOf (execution : PyData) : PyString := (textOf (lookup execution "run_id")).getD []

/-- An execution of the one record of a required claim, by its position. -/
structure Placed (prepared : GateRun.Prepared) (claim : PyString) (i : ℕ) (execution : PyData) :
    Prop where
  required : claim ∈ prepared.required
  held : ∃ record, recordsOf prepared.records claim = [record] ∧
    (executionsOf record)[i]? = some execution

section Cohort

variable {fields bindings : PyFields} {kind : Option ObligationKind} {cohort : Cohort}
  {recordPass : Bool} {seen seen' last : Seen} {x : PyData} {k : ℕ} {xs : List PyData}

/-- What a clean step says of the artifact of its execution. -/
structure OwnArtifact (tree : Tree) (cohort : Cohort) (execution : PyData) : Prop where
  named : lookup execution "raw_output_path" = .str (pathOf execution)
  nonempty : pathOf execution ≠ []
  spelled : cohort.producer = true →
    pathOf execution = producerArtifact cohort.claimId (runOf execution)
  resolves : ∃ path, tree.resolve (tree.join (parsePath (pathOf execution))) = .ok path

theorem readArtifact_clean {relative expected : PyData} {label : PyString}
    {text : Option PyString} (h : readArtifact library tree relative expected label = .ok ([],text)) :
    ∃ name, relative = .str name ∧ blank name = false ∧
      ∃ path, tree.resolve (tree.join (parsePath name)) = .ok path := by
  unfold readArtifact at h
  cases kept : (textOf relative).filter (fun text => !blank text) with
  | none => simp [kept] at h
  | some name =>
    obtain ⟨given,filled⟩ := Option.filter_eq_some_iff.mp kept
    simp only [kept, bind_ok] at h
    obtain ⟨path,resolved,_⟩ := h
    refine ⟨name,?_,by simpa using filled,path,resolved⟩
    cases relative <;> simp_all [textOf]

theorem toolDefects_paths {tool : PyData} {label : PyString} :
    (toolDefects library tool label seen).2.paths = seen.paths := by
  unfold toolDefects
  cases (textOf tool).filter GateManifest.evidenceToolId with
  | none => rfl
  | some name =>
    simp only
    split <;> rfl

theorem step_artifact (earlier : ∀ entry ∈ seen.paths, entry.2 < k)
    (clean : executionDefects library tree recordPass cohort seen (x,k) = .ok ([],seen')) :
    OwnArtifact tree cohort x ∧ mapGet seen.paths (pathOf x) = none ∧
      seen'.paths = seen.paths ++ [(pathOf x,k)] := by
  obtain ⟨entry,reads,judged,artifact⟩ := executionDefects_clean.mp clean
  obtain ⟨same,_⟩ := readableEntry_fields.mp reads
  obtain rfl : x = .dict entry := same
  obtain ⟨_,_,_,_,_,_,run,path,_⟩ := entryDefects_clean.mp judged
  simp only [artifactDefects, bind_ok, pure_ok, List.append_eq_nil_iff] at artifact
  obtain ⟨⟨found,text⟩,read,none,_⟩ := artifact
  simp only at none
  subst none
  obtain ⟨name,shown,filled,resolved,resolves⟩ := readArtifact_clean read
  have own : pathOf (.dict entry) = name := by simp [pathOf, lookup, shown, textOf]
  have nonempty : name ≠ [] := by
    rintro rfl
    simp [blank] at filled
  obtain ⟨r,runs⟩ : ∃ r, get entry "run_id" = .str r := by
    cases held : get entry "run_id" with
    | str r => exact ⟨r,rfl⟩
    | _ => simp [held, written] at run
  have named : runOf (.dict entry) = r := by simp [runOf, lookup, runs, textOf]
  have fresh : ∀ e ∈ (toolDefects library (get entry "tool") (entryLabel k) seen).2.paths,
      e.2 ≠ k := by
    rw [toolDefects_paths]
    exact fun e member => Nat.ne_of_lt (earlier e member)
  obtain ⟨unseen,spelled,grown⟩ := (pathDefects_clean fresh shown nonempty runs).mp path
  rw [toolDefects_paths] at unseen
  rw [own]
  refine ⟨⟨by rw [own]; exact shown,by rw [own]; exact nonempty,?_,by rw [own]; exact ⟨_,resolves⟩⟩,
    unseen,?_⟩
  · rw [own, named]
    exact spelled
  · rw [grown]
    simp only [toolDefects_paths]

/-- Along a cohort no artifact is named twice. -/
theorem visits_artifacts (earlier : ∀ entry ∈ seen.paths, entry.2 < k)
    (visits : Visits (executionDefects library tree recordPass cohort) seen (xs.zipIdx k) last) :
    (∀ x ∈ xs, OwnArtifact tree cohort x ∧ pathOf x ∉ seen.paths.map Prod.fst) ∧
      (xs.map pathOf).Nodup := by
  induction xs generalizing seen k with
  | nil => exact ⟨fun _ member => absurd member List.not_mem_nil,List.nodup_nil⟩
  | cons x xs ih =>
    rw [List.zipIdx_cons] at visits
    cases visits with
    | @next _ m _ _ _ clean later =>
      obtain ⟨own,unseen,grown⟩ := step_artifact earlier clean
      have bound : ∀ entry ∈ m.paths, entry.2 < k + 1 := by
        intro entry member
        rw [grown, List.mem_append, List.mem_singleton] at member
        rcases member with old | rfl
        · exact Nat.lt_succ_of_lt (earlier entry old)
        · exact Nat.lt_succ_self k
      obtain ⟨each,distinct⟩ := ih bound later
      have outside : pathOf x ∉ seen.paths.map Prod.fst := by
        rw [← mapGet_isSome, unseen]
        exact Bool.false_ne_true
      constructor
      · intro y member
        rcases List.mem_cons.mp member with rfl | member
        · exact ⟨own,outside⟩
        · obtain ⟨own',new⟩ := each y member
          rw [grown, List.map_append, List.mem_append, not_or] at new
          exact ⟨own',new.1⟩
      · rw [List.map_cons, List.nodup_cons]
        refine ⟨?_,distinct⟩
        intro again
        obtain ⟨y,member,same⟩ := List.mem_map.mp again
        obtain ⟨_,new⟩ := each y member
        rw [grown, List.map_append, List.mem_append, not_or, same] at new
        exact new.2 (List.mem_singleton.mpr rfl)

end Cohort

section Claims

variable {claim claim' : PyString} {record record' x y : PyData} {i i' : ℕ}

/-- The artifact that the producer names after the claim and the run of an execution. -/
def artifactOf (claim : PyString) (execution : PyData) : PyString :=
  producerArtifact claim (runOf execution)

/-- Each execution of a cohort record that discharges a claim has an artifact of its own. -/
theorem discharged_artifacts (discharged : Discharged library tree prepared expect claim record)
    (v3 : isSchemaV3 record = true) :
    (∀ x ∈ executionsOf record, lookup x "raw_output_path" = .str (pathOf x) ∧ pathOf x ≠ [] ∧
      pathOf x = artifactOf claim x ∧
      ∃ path, tree.resolve (tree.join (parsePath (pathOf x))) = .ok path) ∧
    ((executionsOf record).map pathOf).Nodup := by
  obtain ⟨fields,bindings,held,bound,_,_,later⟩ := valid_parts discharged.valid
  have schema : cohortSchema bindings = true := by
    subst held
    simpa [isSchemaV3, lookup, bound] using v3
  obtain ⟨_,_,_,_,_,producer,inTree,_⟩ := boundDefects_clean.mp later
  have profile : equal (get bindings "profile") (.str producerProfile) = true := by
    have clean := producer schema
    unfold v3ProducerDefects at clean
    exact finding_nil.mp (List.append_eq_nil_iff.mp clean).1
  have named : textOf (lookup record "claim_id") = some claim := by
    have member : record ∈ recordsOf prepared.records claim := by
      rw [discharged.sole]
      exact List.mem_singleton.mpr rfl
    exact of_decide_eq_true (List.mem_filter.mp member).2
  obtain ⟨primary,rest,last,listed,visits,_⟩ :=
    cohortDefects_clean.mp ((treeDefects_cohort schema).mp inTree).2
  rw [executionsOf_list held bound listed]
  have start : ∀ entry ∈ (⟨[],[]⟩ : Seen).paths, entry.2 < 0 :=
    fun _ member => absurd member List.not_mem_nil
  obtain ⟨each,distinct⟩ := visits_artifacts start visits
  refine ⟨?_,distinct⟩
  intro x member
  obtain ⟨own,_⟩ := each x member
  refine ⟨own.named,own.nonempty,?_,own.resolves⟩
  rw [own.spelled profile, artifactOf, cohortOf]
  subst held
  rw [show textOf (get fields "claim_id") = some claim from named]
  rfl

theorem cited_of_execution (member : x ∈ executionsOf record)
    (named : lookup x "raw_output_path" = .str (pathOf x)) (nonempty : pathOf x ≠ []) :
    pathOf x ∈ citedArtifacts record := by
  unfold executionsOf at member
  unfold citedArtifacts
  cases bound : lookup record "bindings" with
  | dict bindings =>
    rw [bound] at member
    simp only [List.mem_filter, List.mem_append, List.mem_filterMap]
    refine ⟨.inr ⟨x,member,by rw [named]; rfl⟩,?_⟩
    simpa using nonempty
  | _ =>
    rw [bound] at member
    exact absurd member List.not_mem_nil

/-- No other required claim cites an artifact of a cohort record that discharges a claim. -/
theorem discharged_unshared (discharged : Discharged library tree prepared expect claim record)
    (v3 : isSchemaV3 record = true)
    (other : Discharged library tree prepared expect claim' record')
    (required : claim' ∈ prepared.required) (differs : claim' ≠ claim) {path : PyString}
    (cited : path ∈ citedArtifacts record) : path ∉ citedArtifacts record' := by
  intro again
  have clean := discharged.unshared
  rw [sharedArtifactDefects, if_pos v3, List.flatMap_eq_nil_iff] at clean
  have alone := clean path (List.mem_dedup.mpr cited)
  rw [finding_nil, sortedNames_nil, List.filter_eq_nil_iff] at alone
  apply alone claim' _ (by simpa using differs)
  rw [citedBy, List.mem_filter]
  refine ⟨required,?_⟩
  rw [(judged_sole other.sole).2, Option.any_some]
  exact List.contains_iff_mem.mpr again

/-- Every claim of the run is discharged, by a record of the cohort schema. -/
structure CohortRun (library : Library) (tree : Tree) (prepared : GateRun.Prepared)
    (expect : Expectations) : Prop where
  discharges : ∀ claim ∈ prepared.required, ∃ record,
    Discharged library tree prepared expect claim record
  cohorts : ∀ claim ∈ prepared.required, ∀ record ∈ recordsOf prepared.records claim,
    isSchemaV3 record = true

theorem placed_record (run : CohortRun library tree prepared expect)
    (here : Placed prepared claim i x) : ∃ record,
      Discharged library tree prepared expect claim record ∧ isSchemaV3 record = true ∧
      (executionsOf record)[i]? = some x := by
  obtain ⟨record,discharged⟩ := run.discharges claim here.required
  obtain ⟨other,sole,at_i⟩ := here.held
  obtain rfl : record = other := by
    have same := discharged.sole.symm.trans sole
    exact (List.cons.inj same).1
  have member : record ∈ recordsOf prepared.records claim := by
    rw [sole]
    exact List.mem_singleton.mpr rfl
  exact ⟨record,discharged,run.cohorts claim here.required record member,at_i⟩

theorem placed_artifact (run : CohortRun library tree prepared expect)
    (here : Placed prepared claim i x) : pathOf x = artifactOf claim x ∧
      ∃ path, tree.resolve (tree.join (parsePath (pathOf x))) = .ok path := by
  obtain ⟨record,discharged,v3,at_i⟩ := placed_record run here
  have own := (discharged_artifacts discharged v3).1 x (List.mem_of_getElem? at_i)
  exact own.2.2

/-- Two executions at different places name different artifacts. -/
theorem placed_names (run : CohortRun library tree prepared expect)
    (here : Placed prepared claim i x) (there : Placed prepared claim' i' y)
    (apart : (claim,i) ≠ (claim',i')) : pathOf x ≠ pathOf y := by
  obtain ⟨record,discharged,v3,at_i⟩ := placed_record run here
  obtain ⟨record',discharged',v3',at_i'⟩ := placed_record run there
  obtain ⟨own,distinct⟩ := discharged_artifacts discharged v3
  obtain ⟨own',_⟩ := discharged_artifacts discharged' v3'
  have member := List.mem_of_getElem? at_i
  have member' := List.mem_of_getElem? at_i'
  intro same
  by_cases claims : claim' = claim
  · subst claims
    obtain rfl : record = record' := by
      have same := discharged.sole.symm.trans discharged'.sole
      exact (List.cons.inj same).1
    apply apart
    have inside : i < ((executionsOf record).map pathOf).length := by
      rw [List.length_map]
      exact (List.getElem?_eq_some_iff.mp at_i).1
    have mapped : ((executionsOf record).map pathOf)[i]? =
        ((executionsOf record).map pathOf)[i']? := by
      rw [List.getElem?_map, List.getElem?_map, at_i, at_i', Option.map_some, Option.map_some, same]
    exact Prod.ext rfl ((List.getElem?_inj inside distinct).mp mapped)
  · have cited := cited_of_execution member (own x member).1 (own x member).2.1
    have cited' := cited_of_execution member' (own' y member').1 (own' y member').2.1
    rw [← same] at cited'
    exact discharged_unshared discharged v3 discharged' there.required claims cited cited'

end Claims

section Aliases

/-- The executions of a run are discharged by different files. -/
def Separated (tree : Tree) (prepared : GateRun.Prepared) : Prop :=
  ∀ claim i x claim' i' y, Placed prepared claim i x → Placed prepared claim' i' y →
    (claim,i) ≠ (claim',i') → ∀ path path',
      tree.resolve (tree.join (parsePath (pathOf x))) = .ok path →
      tree.resolve (tree.join (parsePath (pathOf y))) = .ok path' → path ≠ path'

/-- An artifact name below the root, without empty parts, dots and cancelled steps. -/
def spelledPath (root : List PyString) (name : PyString) : List PyString :=
  collapse (root ++ (parsePath name).parts)

/-- Two claim and run ids never spell one path in two ways. -/
def Unaliased (root : List PyString) (prepared : GateRun.Prepared) : Prop :=
  ∀ claim i x claim' i' y, Placed prepared claim i x → Placed prepared claim' i' y →
    artifactOf claim x ≠ artifactOf claim' y →
    spelledPath root (artifactOf claim x) ≠ spelledPath root (artifactOf claim' y)

theorem artifact_relative (claim run : PyString) :
    (parsePath (producerArtifact claim run)).absolute = false := rfl

theorem placed_resolves {claim : PyString} {i : ℕ} {x : PyData} (linkless : Linkless tree)
    (run : CohortRun library tree prepared expect) (here : Placed prepared claim i x) :
    tree.resolve (tree.join (parsePath (pathOf x))) =
      .ok (spelledPath tree.root (artifactOf claim x)) := by
  obtain ⟨named,path,resolves⟩ := placed_artifact run here
  rw [resolves, linkless _ _ resolves, named, spelledPath, Tree.join, artifactOf,
    if_neg (by rw [artifact_relative]; exact Bool.false_ne_true)]

/-- In a tree without links, a verified run over cohort records gives each execution a file of
its own exactly when no two of its artifact names are spellings of one path. -/
theorem artifacts_separate_iff {report : GateRun.Report} (linkless : Linkless project.tree)
    (ran : main library args project = .ok report) (shows : ShowsVerified report)
    (prepares : prepare library args = .ok prepared)
    (cohorts : ∀ claim ∈ prepared.required, ∀ record ∈ recordsOf prepared.records claim,
      isSchemaV3 record = true) :
    Separated project.tree prepared ↔ Unaliased project.tree.root prepared := by
  obtain ⟨other,expect,prepares',_,_,discharges⟩ := verified_run ran shows
  obtain rfl : prepared = other := Except.ok.inj (prepares.symm.trans prepares')
  have run : CohortRun library project.tree prepared expect := ⟨discharges,cohorts⟩
  constructor
  · intro separated claim i x claim' i' y here there differ
    apply separated claim i x claim' i' y here there _ _ _ (placed_resolves linkless run here)
      (placed_resolves linkless run there)
    intro same
    obtain ⟨rfl,rfl⟩ := Prod.mk.inj same
    obtain ⟨record,sole,at_i⟩ := here.held
    obtain ⟨record',sole',at_i'⟩ := there.held
    obtain rfl : record = record' := (List.cons.inj (sole.symm.trans sole')).1
    rw [at_i, Option.some.injEq] at at_i'
    exact differ (at_i' ▸ rfl)
  · intro unaliased claim i x claim' i' y here there apart path path' resolves resolves'
    rw [placed_resolves linkless run here] at resolves
    rw [placed_resolves linkless run there] at resolves'
    obtain rfl := Except.ok.inj resolves
    obtain rfl := Except.ok.inj resolves'
    apply unaliased claim i x claim' i' y here there
    rw [← (placed_artifact run here).1, ← (placed_artifact run there).1]
    exact placed_names run here there apart

/-- The file name below the directory of raw artifacts. -/
def artifactFile (claim run : PyString) : PyString := say [claim,"-",run,".log"]

theorem collapse_plain {above parts : List PyString} (plain : parent ∉ parts) :
    parts.foldl climb above = above ++ parts := by
  induction parts generalizing above with
  | nil => simp
  | cons part parts ih =>
    rw [List.mem_cons, not_or] at plain
    rw [List.foldl_cons, climb, if_neg (Ne.symm plain.1), ih plain.2]
    simp

theorem parts_slashless {claim run : PyString} (hc : 47 ∉ claim) (hr : 47 ∉ run) :
    (parsePath (producerArtifact claim run)).parts =
      [points ".fv",points "evidence",points "raw",artifactFile claim run] := by
  have spelled : producerArtifact claim run =
      [47].intercalate [points ".fv",points "evidence",points "raw",artifactFile claim run] := by
    simp [producerArtifact, artifactFile, say, List.intercalate, points]
  have single : 47 ∉ artifactFile claim run := by
    simp [artifactFile, say, points, hc, hr]
  have split : (producerArtifact claim run).splitOn 47 =
      [points ".fv",points "evidence",points "raw",artifactFile claim run] := by
    rw [spelled]
    apply List.splitOn_intercalate 47 _ (List.cons_ne_nil _ _)
    intro part member
    simp only [List.mem_cons, List.not_mem_nil, or_false] at member
    rcases member with rfl | rfl | rfl | rfl
    · decide
    · decide
    · decide
    · exact single
  have long : 4 ≤ (artifactFile claim run).length := by
    simp [artifactFile, say, points]
    omega
  have filled : artifactFile claim run ≠ [] ∧ artifactFile claim run ≠ [46] := by
    constructor
    · intro none
      simp [none] at long
    · intro dot
      simp [dot] at long
  simp [parsePath, split, filled.1, filled.2, points]

/-- Ids without a separator have no aliases. -/
theorem slashless_unaliased (root : List PyString) (claims : ∀ claim ∈ prepared.required, 47 ∉ claim)
    (runs : ∀ claim i x, Placed prepared claim i x → 47 ∉ runOf x) :
    Unaliased root prepared := by
  intro claim i x claim' i' y here there differ same
  have placed : ∀ claim i x, Placed prepared claim i x → spelledPath root (artifactOf claim x) =
      root.foldl climb [] ++
        [points ".fv",points "evidence",points "raw",artifactFile claim (runOf x)] := by
    intro claim i x here
    have parts := parts_slashless (claims claim here.required) (runs claim i x here)
    have plain : parent ∉ [points ".fv",points "evidence",points "raw",
        artifactFile claim (runOf x)] := by
      have longer : artifactFile claim (runOf x) ≠ parent := by
        intro same
        have length := congrArg List.length same
        simp [artifactFile, say, points, parent] at length
        omega
      simp only [List.mem_cons, List.not_mem_nil, or_false, not_or]
      exact ⟨by decide,by decide,by decide,longer.symm⟩
    rw [spelledPath, artifactOf, parts, collapse, List.foldl_append, collapse_plain plain]
  rw [placed claim i x here, placed claim' i' y there] at same
  have file : artifactFile claim (runOf x) = artifactFile claim' (runOf y) := by
    simpa using same
  apply differ
  have named : ∀ claim run, producerArtifact claim run =
      points ".fv/evidence/raw/" ++ artifactFile claim run := fun _ _ => rfl
  rw [artifactOf, artifactOf, named, named, file]

end Aliases

section Samples

def firstExecution : PyData := sampleExecution "t" "r" sampleArtifact

/-- The run id walks out of its own name and back to the artifact of the first. -/
def secondExecution : PyData := sampleExecution "u" "x/../c-r" ".fv/evidence/raw/c-x/../c-r.log"

def aliasedCohort : PyFields :=
  sampleBindings "r" sampleArtifact [firstExecution,secondExecution]

def aliasedArguments : Arguments := sampleArguments [sampleRecord "PASS" aliasedCohort]

def aliasedRecords : GateRun.Prepared := samplePrepared [sampleRecord "PASS" aliasedCohort]

def sharedFile : List PyString := ["repo",".fv","evidence","raw","c-r.log"]

theorem first_resolves : sampleTree.resolve
    (sampleTree.join (parsePath (pathOf firstExecution))) = .ok sharedFile := by
  decide +kernel

theorem second_resolves : sampleTree.resolve
    (sampleTree.join (parsePath (pathOf secondExecution))) = .ok sharedFile := by
  decide +kernel

theorem sample_linkless : Linkless sampleTree := fun _ _ h => (Except.ok.inj h).symm

theorem aliased_cohorts : ∀ claim ∈ aliasedRecords.required,
    ∀ record ∈ recordsOf aliasedRecords.records claim, isSchemaV3 record = true := by
  intro claim required record member
  have read := (List.mem_filter.mp member).1
  rw [List.mem_singleton.mp read]
  decide +kernel

theorem aliased_verified : ∃ report,
    main sampleLibrary aliasedArguments sampleProject = .ok report ∧ report.code = 0 := by
  apply exitCode_zero
  decide +kernel

theorem artifacts_separate_sample :
    Separated sampleTree aliasedRecords ↔ Unaliased sampleTree.root aliasedRecords := by
  obtain ⟨report,ran,verified⟩ := aliased_verified
  exact artifacts_separate_iff sample_linkless ran (.inl verified) rfl aliased_cohorts

/-- A verified run in a tree without links where two executions of one claim share a file. -/
theorem one_artifact_for_two_executions :
    Linkless sampleTree ∧ prepare sampleLibrary aliasedArguments = .ok aliasedRecords ∧
    (∀ claim ∈ aliasedRecords.required, ∀ record ∈ recordsOf aliasedRecords.records claim,
      isSchemaV3 record = true) ∧
    (∃ report, main sampleLibrary aliasedArguments sampleProject = .ok report ∧
      ShowsVerified report) ∧
    ¬ Separated sampleTree aliasedRecords := by
  obtain ⟨report,ran,verified⟩ := aliased_verified
  refine ⟨sample_linkless,rfl,aliased_cohorts,⟨report,ran,.inl verified⟩,?_⟩
  intro separated
  have placed : ∀ i x, (executionsOf (sampleRecord "PASS" aliasedCohort))[i]? = some x →
      Placed aliasedRecords "c" i x :=
    fun i x at_i => ⟨by decide,_,rfl,at_i⟩
  have first : Placed aliasedRecords "c" 0 firstExecution := placed 0 _ rfl
  have second : Placed aliasedRecords "c" 1 secondExecution := placed 1 _ rfl
  exact separated "c" 0 _ "c" 1 _ first second (by decide) _ _ first_resolves second_resolves rfl

end Samples

end ArtifactIdentity

end EvidenceV4
