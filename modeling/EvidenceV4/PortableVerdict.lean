import EvidenceV4.Generation
import EvidenceV4.PortableRows

/-!
# What a portable verdict means

An exit code of zero says that every required claim has a record whose slots all
passed and are eligible in the history as it was read last. A failure barrier of
a required claim that its recorded execution does not supersede makes the
verdict a failure, whatever else went wrong before the rows were folded.
-/

set_option autoImplicit false

namespace EvidenceV4

namespace PortableAssessment

open CheckedExcept PolicyExpansion PortableEligibility PortableHistory
open PolicyDocument (mapGet mapGet_mem mapGet_isSome)
open ObligationManifest (Flat loadManifest loadManifest_flat)
open Schema (utf8Compare)
open Raising

variable {D : Digests} {repr : CanonicalJson.Value → String} {portable : Portable}

/-- A claim that is selected, that the policy requires or that a required claim rests on. -/
inductive RequiredClaim (portable : Portable) (bindings : PolicyBindings) : ID → Prop where
  | selected {claim : ID} (h : claim ∈ portable.require.getD bindings.common.requiredTargets) :
      RequiredClaim portable bindings claim
  | recorded {record : PolicyRecord} (h : record ∈ bindings.checked.policy.records)
      (required : record.required = true) : RequiredClaim portable bindings record.claimId
  | dependency {claim name : ID} (h : RequiredClaim portable bindings claim)
      (rests : name ∈ dependenciesOf bindings claim) : RequiredClaim portable bindings name

section Required

variable {bindings : PolicyBindings}

theorem expandClaim_members {state : List (ID × List ID) × List ID} {claim name : ID} :
    name ∈ (expandClaim bindings state claim).2 ↔
      name ∈ state.2 ∨ name ∈ dependenciesOf bindings claim := by
  unfold expandClaim
  dsimp only
  split
  · next none' =>
    rw [List.filter_eq_nil_iff] at none'
    constructor
    · exact .inl
    · rintro (old | rests)
      · exact old
      · simpa using none' name rests
  · by_cases old : name ∈ state.2 <;> simp [old]

theorem expandLoop_members {claims : List ID} {state : List (ID × List ID) × List ID} {name : ID} :
    name ∈ (claims.foldl (expandClaim bindings) state).2 ↔
      name ∈ state.2 ∨ ∃ claim ∈ claims, name ∈ dependenciesOf bindings claim := by
  induction claims generalizing state with
  | nil => simp
  | cons claim claims ih =>
    rw [List.foldl_cons, ih, expandClaim_members]
    simp [or_assoc]

/-- What a claim rests on rests on nothing. -/
theorem dependency_ground (flat : Flat bindings.manifest) {claim name : ID}
    (rests : name ∈ dependenciesOf bindings claim) : dependenciesOf bindings name = [] := by
  unfold dependenciesOf at rests
  cases found : mapGet bindings.manifest.dependencies claim with
  | none =>
    rw [found] at rests
    exact absurd rests List.not_mem_nil
  | some names =>
    rw [found] at rests
    rw [dependenciesOf, flat.leaf (mapGet_mem found) rests]
    rfl

theorem starting_members {claim : ID} : claim ∈ startingClaims portable bindings ↔
    claim ∈ portable.require.getD bindings.common.requiredTargets ∨
      ∃ record ∈ bindings.checked.policy.records, record.required = true ∧
        record.claimId = claim := by
  simp [startingClaims, requiredRecords, and_assoc]

/-- One pass over the starting claims finds every required claim. -/
theorem expandRequired_members (flat : Flat bindings.manifest) {claim : ID} :
    claim ∈ (expandRequired portable bindings).2 ↔ RequiredClaim portable bindings claim := by
  rw [expandRequired, expandLoop_members]
  constructor
  · have starting : ∀ {claim : ID}, claim ∈ startingClaims portable bindings →
        RequiredClaim portable bindings claim := by
      intro claim member
      rcases starting_members.mp member with selected | ⟨record,listed,required,rfl⟩
      · exact .selected selected
      · exact .recorded listed required
    intro member
    rcases member with start | ⟨ground,start,rests⟩
    · exact starting start
    · exact .dependency (starting start) rests
  · intro required
    induction required with
    | selected h => exact .inl (starting_members.mpr (.inl h))
    | recorded h required => exact .inl (starting_members.mpr (.inr ⟨_,h,required,rfl⟩))
    | @dependency claim name _ rests ih =>
      rcases ih with start | ⟨ground,_,deeper⟩
      · exact .inr ⟨claim,start,rests⟩
      · rw [dependency_ground flat deeper] at rests
        exact absurd rests List.not_mem_nil

theorem policyBindings_flat {path : String}
    (h : policyBindings repr portable path = .ok bindings) : Flat bindings.manifest := by
  simp only [policyBindings, bind_ok, exists_unit, pure_ok] at h
  obtain ⟨checked,_,value,_,manifest,loads,_,common,_,rfl⟩ := h
  exact loadManifest_flat loads

end Required

section Judging

variable {bindings : PolicyBindings}

theorem recordMap_found {policy : Policy} {claim : ID} {record : PolicyRecord}
    (found : mapGet (recordMap policy) claim = some record) :
    record ∈ policy.records ∧ record.claimId = claim := by
  obtain ⟨own,member,same⟩ := List.mem_map.mp (mapGet_mem found)
  obtain ⟨rfl,rfl⟩ := Prod.mk.inj same
  exact ⟨member,rfl⟩

theorem initialSlot_ran {policy : Policy} {slot : PolicySlot} {row : SlotRow}
    (h : initialSlot policy slot = .ok row) : row.slot = slot ∧ row.execution = none := by
  simp only [initialSlot, bind_ok, pure_ok] at h
  obtain ⟨_,_,rfl⟩ := h
  exact ⟨rfl,rfl⟩

theorem initialSlots_ran {policy : Policy} {slots : List PolicySlot} {rows : List SlotRow}
    (h : slots.mapM (initialSlot policy) = .ok rows) :
    rows.map SlotRow.slot = slots ∧ ∀ row ∈ rows, row.execution = none := by
  constructor
  · have each := (mapM_ok _ _ _).mp h
    clear h
    induction each with
    | nil => rfl
    | cons head _ ih => rw [List.map_cons, (initialSlot_ran head).1, ih]
  · intro row member
    obtain ⟨slot,_,made⟩ := mapM_mem_right h member
    exact (initialSlot_ran made).2

/-- The rows as they stand before the slots are judged. -/
theorem initialRow_start {claim : ID} {row : Row} (loaded : LoadedHistory)
    (h : initialRow bindings claim = .ok row) :
    row.claimId = claim ∧ RowStart bindings loaded.events (outsideRows bindings loaded row) ∧
      (outsideRows bindings loaded row).claimId = claim := by
  simp only [initialRow, bind_ok, pure_ok] at h
  obtain ⟨slots,made,rfl⟩ := h
  have start := initialSlots_ran made
  apply And.intro rfl
  unfold outsideRows
  cases known : mapGet (recordMap bindings.checked.policy.toPolicy) claim with
  | some expected =>
    simp only [Option.isSome_some, if_true, and_true]
    constructor
    · intro other found
      rw [known] at found
      obtain rfl := Option.some.inj found
      simpa [known] using start.1
    · exact start.2
    · intro missing
      rw [known] at missing
      cases missing
  | none =>
    simp only [Option.isSome_none, Bool.false_eq_true, if_false]
    constructor
    · constructor
      · intro other found
        replace found : mapGet (recordMap bindings.checked.policy.toPolicy) claim = some other :=
          found
        rw [known] at found
        cases found
      · exact start.2
      · exact fun _ => outsideRow_fact loaded _
    · rfl

theorem openRows_ran {names : List ID} {s s' : AssessmentState}
    (ran : forM names (openRow bindings) s = (.ok (),s')) :
    ∃ rows, s'.report.perClaim = s.report.perClaim ++ rows ∧
      List.Forall₂ (fun name row => initialRow bindings name = .ok row) names rows := by
  induction names generalizing s with
  | nil =>
    rw [List.forM_nil, pure_ran] at ran
    exact ⟨[],by rw [← ran.2, List.append_nil],.nil⟩
  | cons name names ih =>
    simp only [List.forM_cons, openRow, bind_ran, lift_ran, modify_ran] at ran
    obtain ⟨_,m,⟨row,_,⟨made,rfl⟩,rfl⟩,ran⟩ := ran
    obtain ⟨rows,whole,each⟩ := ih ran
    refine ⟨row :: rows,?_,.cons made each⟩
    rw [whole, List.append_assoc]
    rfl

/-- The inputs of a run, and the rows it opens. -/
structure PreparedFact (repr : CanonicalJson.Value → String) (portable : Portable)
    (prepared : Prepared) (rows : List Row) : Prop where
  run : safely portable.run = .ok prepared.run
  bindings : policyBindings repr portable prepared.run.policyPath = .ok prepared.bindings
  selection : checkSelection portable prepared.bindings = .ok ()
  required : prepared.required = (expandRequired portable prepared.bindings).2
  rows : List.Forall₂ (fun name row => initialRow prepared.bindings name = .ok row)
    (rowNames prepared.bindings prepared.required) rows

theorem prepare_fact {s s' : AssessmentState} {prepared : Prepared}
    (start : s.report.perClaim = []) (ran : prepare repr portable s = (.ok prepared,s')) :
    PreparedFact repr portable prepared s'.report.perClaim := by
  simp only [prepare, bind_ran, lift_ran, modify_ran, pure_ran] at ran
  obtain ⟨run,_,⟨read,rfl⟩,bindings,_,⟨bound,rfl⟩,_,_,⟨selected,rfl⟩,_,m,rfl,_,_,opens,rfl,
    rfl⟩ := ran
  obtain ⟨rows,whole,each⟩ := openRows_ran opens
  rw [start, List.nil_append] at whole
  exact ⟨read,bound,selected,rfl,whole ▸ each⟩

/-- The rows of the report are these. -/
def HasRows (rows : List Row) (s : AssessmentState) : Prop := s.report.perClaim = rows

theorem addErrors_keeps {rows : List Row} {errors : List String} :
    Keeps (HasRows rows) (addErrors errors) :=
  keeps_modify (fun _ h => h)

theorem work_keeps {rows : List Row} {run : SuppliedRun} :
    Keeps (HasRows rows) (forM run.work (reportWork portable)) := by
  apply keeps_forM
  intro entry _
  exact keeps_catching (keeps_lift _) (fun _ => addErrors_keeps)

theorem scanCurrent_keeps {rows : List Row} : Keeps (HasRows rows) (scanCurrent portable) := by
  unfold scanCurrent
  refine keeps_ite ?_ (keeps_pure _)
  cases portable.currentInputs with
  | ok current =>
    refine keeps_bind (keeps_modify (fun _ h => h)) ?_
    intro _
    refine keeps_bind (keeps_ite (keeps_pure _) addErrors_keeps) ?_
    exact fun _ => keeps_pure _
  | error failure =>
    refine keeps_ite ?_ (keeps_lift _)
    exact keeps_bind addErrors_keeps (fun _ => keeps_pure _)

theorem eachRow_ran {body : RowStep Unit} {s s' : AssessmentState}
    (ran : eachRow body s = (.ok (),s')) : ∃ ledger,
      entries body (s.report.perClaim,⟨s.report.errors,s.replayed⟩) =
        (.ok (),(s'.report.perClaim,ledger)) := by
  rw [eachRow, within_ran] at ran
  obtain ⟨⟨rows,ledger⟩,done,rfl⟩ := ran
  exact ⟨ledger,done⟩

/-- Rows that keep their claims, each with a fact about what became of it. -/
theorem judged_rows {P : Row → Prop} {rows rows' : List Row}
    (h : List.Forall₂ (fun row row' : Row => row'.claimId = row.claimId ∧ P row') rows rows') :
    rows'.map Row.claimId = rows.map Row.claimId ∧ ∀ row ∈ rows', P row := by
  induction h with
  | nil => exact ⟨rfl,fun _ member => absurd member List.not_mem_nil⟩
  | cons head _ ih =>
    constructor
    · rw [List.map_cons, List.map_cons, head.1, ih.1]
    · intro row member
      rcases List.mem_cons.mp member with rfl | member
      · exact head.2
      · exact ih.2 row member

theorem opened_names {loaded : LoadedHistory} {names : List ID} {rows : List Row}
    (h : List.Forall₂ (fun name row => initialRow bindings name = .ok row) names rows) :
    (rows.map (outsideRows bindings loaded)).map Row.claimId = names := by
  induction h with
  | nil => rfl
  | cons made _ ih => rw [List.map_cons, List.map_cons, ih, (initialRow_start loaded made).2.2]

theorem captureHistory_ran {run : SuppliedRun} {s s' : AssessmentState} {loaded : LoadedHistory}
    (ran : captureHistory D portable run bindings s = (.ok loaded,s')) :
    loadHistory D portable.toReceipts portable.history run.history = .ok loaded ∧
      s'.report.perClaim = s.report.perClaim.map (outsideRows bindings loaded) := by
  simp only [captureHistory, addErrors, bind_ran, lift_ran, modify_ran, pure_ran] at ran
  obtain ⟨_,_,⟨loads,rfl⟩,_,m,rfl,_,_,rfl,rfl,rfl⟩ := ran
  exact ⟨loads,rfl⟩

/-- Rows that held of the first reading hold of the last one. -/
theorem rereadHistory_fact {run : SuppliedRun} {s s' : AssessmentState}
    {loaded latest : LoadedHistory}
    (apart : Distinguishes D portable.history portable.latestHistory)
    (loads : loadHistory D portable.toReceipts portable.history run.history = .ok loaded)
    (facts : ∀ row ∈ s.report.perClaim, RowFact bindings loaded.events row)
    (ran : rereadHistory D portable run bindings loaded s = (.ok latest,s')) :
    loadHistory D portable.toReceipts portable.latestHistory run.history = .ok latest ∧
      s'.report.perClaim.map Row.claimId = s.report.perClaim.map Row.claimId ∧
      ∀ row ∈ s'.report.perClaim, RowFact bindings latest.events row := by
  simp only [rereadHistory, addErrors, bind_ran, lift_ran, modify_ran, pure_ran] at ran
  obtain ⟨again,_,⟨reloads,rfl⟩,_,m,rfl,_,_,reassessed,rfl,rfl⟩ := ran
  apply And.intro reloads
  unfold reassess at reassessed
  by_cases same : again.view = loaded.view
  · rw [if_pos same, pure_ran] at reassessed
    obtain ⟨-,rfl⟩ := reassessed
    apply And.intro rfl
    rw [← loadHistory_events apart loads reloads same.symm]
    exact facts
  · rw [if_neg same] at reassessed
    simp only [bind_ran, modify_ran] at reassessed
    obtain ⟨_,m,rfl,reassessed⟩ := reassessed
    obtain ⟨ledger,run⟩ := eachRow_ran reassessed
    exact judged_rows (entries_ran
      (fun row member _ _ _ ran => reassessRow_fact (facts row member) ran) run)

/-- The inputs of a judgement, and the rows it leaves for the verdict. -/
structure JudgedFact (D : Digests) (repr : CanonicalJson.Value → String) (portable : Portable)
    (judged : Judged) (rows : List Row) : Prop where
  run : safely portable.run = .ok judged.run
  bindings : policyBindings repr portable judged.run.policyPath = .ok judged.bindings
  required : judged.required = (expandRequired portable judged.bindings).2
  latest : loadHistory D portable.toReceipts portable.latestHistory judged.run.history =
    .ok judged.latest
  names : rows.map Row.claimId = rowNames judged.bindings judged.required
  facts : ∀ row ∈ rows, RowFact judged.bindings judged.latest.events row

theorem judge_fact {s s' : AssessmentState} {judged : Judged}
    (apart : Distinguishes D portable.history portable.latestHistory)
    (start : s.report.perClaim = []) (ran : judge D repr portable s = (.ok judged,s')) :
    JudgedFact D repr portable judged s'.report.perClaim := by
  simp only [judge, bind_ran, lift_ran, pure_ran] at ran
  obtain ⟨prepared,opened,prepares,_,_,⟨_,rfl⟩,_,worked,works,_,_,⟨_,rfl⟩,loaded,captured,captures,
    current,scanned,scans,_,assessed,assesses,latest,_,rereads,rfl,rfl⟩ := ran
  have prepared' := prepare_fact start prepares
  have history := captureHistory_ran captures
  have worked' : HasRows opened.report.perClaim worked := by
    have kept := @work_keeps portable _ prepared.run opened rfl
    rw [works] at kept
    exact kept
  have scanned' : HasRows captured.report.perClaim scanned := by
    have kept := @scanCurrent_keeps portable _ captured rfl
    rw [scans] at kept
    exact kept
  have starts : ∀ row ∈ scanned.report.perClaim, RowStart prepared.bindings loaded.events row := by
    intro row member
    rw [scanned', history.2, worked'] at member
    obtain ⟨own,listed,rfl⟩ := List.mem_map.mp member
    obtain ⟨name,_,made⟩ := forall₂_mem_right prepared'.rows listed
    exact (initialRow_start loaded made).2.1
  have names : scanned.report.perClaim.map Row.claimId =
      rowNames prepared.bindings prepared.required := by
    rw [scanned', history.2, worked']
    exact opened_names prepared'.rows
  obtain ⟨ledger,run⟩ := eachRow_ran assesses
  have first := judged_rows (entries_ran
    (fun row member _ _ _ ran => assessRow_fact (starts row member) ran) run)
  have last := rereadHistory_fact apart history.1 first.2 rereads
  exact ⟨prepared'.run,prepared'.bindings,prepared'.required,last.1,
    last.2.1.trans (first.1.trans names),last.2.2⟩

end Judging

section Aggregating

/-- Closing the gaps leaves failures and passes as they were, or takes a pass back. -/
structure Closed (row row' : Row) : Prop where
  claim : row'.claimId = row.claimId
  slots : row'.executions = row.executions
  settled : row'.result ≠ .incomplete → row' = row
  failed : row.result = .fail → row' = row

theorem closeGaps_closed {bindings : PolicyBindings} {done rows : List Row} :
    ∃ rows', closeGaps bindings done rows = done ++ rows' ∧ List.Forall₂ Closed rows rows' := by
  induction rows generalizing done with
  | nil => exact ⟨[],by rw [closeGaps, List.append_nil],.nil⟩
  | cons row rows ih =>
    rw [closeGaps]
    split
    · next gap =>
      obtain ⟨rest,whole,each⟩ := @ih (done ++ [_])
      rw [whole, List.append_assoc]
      refine ⟨_,rfl,.cons ⟨rfl,rfl,fun other => absurd rfl other,?_⟩ each⟩
      intro failed
      rw [gap.1] at failed
      cases failed
    · obtain ⟨rest,whole,each⟩ := @ih (done ++ [row])
      rw [whole, List.append_assoc]
      exact ⟨_,rfl,.cons ⟨rfl,rfl,fun _ => rfl,fun _ => rfl⟩ each⟩

theorem foldRows_closed (judged : Judged) (report : Report) :
    List.Forall₂ Closed report.perClaim (foldRows judged report).perClaim := by
  obtain ⟨rows,whole,each⟩ := @closeGaps_closed judged.bindings [] report.perClaim
  rw [foldRows, whole]
  exact each

theorem aggregate_zero {judged : Judged} {s s' : AssessmentState}
    (ran : aggregate portable judged s = (.ok 0,s')) :
    (foldRows judged s.report).failed = [] ∧ (foldRows judged s.report).errors = [] ∧
      (foldRows judged s.report).incomplete = [] ∧
      s'.report = { foldRows judged s.report with verdict := passingVerdict portable } := by
  simp only [aggregate, bind_ran, modify_ran, lift_ran, asking_ran] at ran
  obtain ⟨_,m,rfl,_,_,⟨_,rfl⟩,report,_,⟨own,rfl⟩,ran⟩ := ran
  obtain rfl := Except.ok.inj own
  dsimp only at ran
  split_ifs at ran with failed errors incomplete
  all_goals simp only [setVerdict, bind_ran, modify_ran, pure_ran] at ran
  · obtain ⟨_,_,_,code,_⟩ := ran
    cases code
  · obtain ⟨_,_,_,code,_⟩ := ran
    cases code
  · obtain ⟨_,_,_,code,_⟩ := ran
    cases code
  · obtain ⟨_,_,rfl,_,rfl⟩ := ran
    push Not at failed errors incomplete
    exact ⟨failed,errors.1,incomplete.1,rfl⟩

theorem checkDrift_reported {judged : Judged} {failure : Failure}
    (h : checkDrift portable judged = .error failure) : failure.reported = true := by
  unfold checkDrift at h
  cases current : judged.current with
  | none => simp [current] at h
  | some inputs =>
    rw [current] at h
    by_cases recompute : portable.recompute = true
    · simp only [recompute, if_true, bind_error, safely_error, check_error] at h
      rcases h with ⟨reported,_⟩ | ⟨final,_,_,rfl⟩
      · exact reported
      · rfl
    · simp [recompute] at h

/-- A failure among the required rows fails the verdict, or a later step raises with the failure
already in the report. -/
theorem aggregate_failed {judged : Judged} {s : AssessmentState}
    (failed : (foldRows judged s.report).failed ≠ []) :
    (∃ s', aggregate portable judged s = (.ok 1,s') ∧ s'.report.verdict = "FAILED") ∨
    ∃ failure s', aggregate portable judged s = (.error failure,s') ∧ failure.reported = true ∧
      s'.report.failed ≠ [] := by
  cases drift : checkDrift portable judged with
  | error failure =>
    apply Or.inr
    apply Exists.intro failure
    apply Exists.intro { s with report := foldRows judged s.report }
    refine ⟨?_,checkDrift_reported drift,failed⟩
    unfold aggregate
    rw [drift]
    rfl
  | ok u =>
    apply Or.inl
    apply Exists.intro
      { s with report := { foldRows judged s.report with verdict := "FAILED" } }
    apply And.intro _ rfl
    simp only [aggregate, bind_ran, modify_ran, lift_ran, asking_ran]
    refine ⟨(),_,rfl,u,_,⟨drift,rfl⟩,_,_,⟨rfl,rfl⟩,?_⟩
    rw [if_pos failed]
    simp [setVerdict]

theorem failRow_failed {required : List ID} {report : Report} {row : Row}
    (failed : report.failed ≠ []) : (failRow required report row).1.failed ≠ [] := by
  unfold failRow
  split
  · dsimp only
    split
    · exact failed
    · exact List.append_ne_nil_of_left_ne_nil failed _
  · exact failed

theorem failRows_failed {report : Report} (failed : report.failed ≠ []) :
    (failRows report).failed ≠ [] := by
  unfold failRows
  dsimp only
  generalize report.requiredClaims = required
  generalize report.perClaim = rows
  suffices h : ∀ state : Report × List Row, state.1.failed ≠ [] →
      (rows.foldl (fun state row =>
        ((failRow required state.1 row).1,state.2 ++ [(failRow required state.1 row).2]))
        state).1.failed ≠ [] from h (report,[]) failed
  induction rows with
  | nil => exact fun _ h => h
  | cons row rows ih => exact fun state h => ih _ (failRow_failed h)

theorem reportFailure_failed {failure : Failure} {report : Report} (failed : report.failed ≠ []) :
    (reportFailure failure report).2 = 1 ∧
      (reportFailure failure report).1.verdict = "FAILED" := by
  have kept : (failRows { report with errors := report.errors ++ [failure.message] }).failed ≠ [] :=
    failRows_failed failed
  exact ⟨if_pos kept,if_pos kept⟩

theorem mem_rowNames {bindings : PolicyBindings} {required : List ID} {claim : ID}
    (h : claim ∈ required) : claim ∈ rowNames bindings required := by
  rw [rowNames, List.mem_append]
  by_cases recorded : claim ∈ bindings.checked.policy.records.map PolicyRecord.claimId
  · exact .inl recorded
  · apply Or.inr
    rw [List.mem_filter]
    exact ⟨(List.mem_insertionSort _).mpr h,decide_eq_true recorded⟩

/-- Without failed and incomplete rows every required claim has a row that passes. -/
theorem required_passes {judged : Judged} {report : Report} {claim : ID}
    (names : report.perClaim.map Row.claimId = rowNames judged.bindings judged.required)
    (failed : (foldRows judged report).failed = [])
    (incomplete : (foldRows judged report).incomplete = []) (required : claim ∈ judged.required) :
    ∃ row ∈ report.perClaim, row ∈ (foldRows judged report).perClaim ∧ row.claimId = claim ∧
      row.result = .pass := by
  obtain ⟨row,member,rfl⟩ := List.mem_map.mp (names ▸ mem_rowNames required)
  obtain ⟨closed,listed,relation⟩ := forall₂_mem_left (foldRows_closed judged report) member
  have asked : closed.claimId ∈ judged.required := relation.claim ▸ required
  have unfailed : closed.result ≠ .fail := by
    intro fails
    have kept := List.append_eq_nil_iff.mp failed
    rw [failedRows, List.map_eq_nil_iff, List.filter_eq_nil_iff] at kept
    exact kept.2 closed listed (decide_eq_true ⟨asked,fails⟩)
  have complete : closed.result ≠ .incomplete := by
    intro lacks
    have kept := (List.append_eq_nil_iff.mp (List.append_eq_nil_iff.mp incomplete).1).2
    rw [incompleteRows, List.map_eq_nil_iff, List.filter_eq_nil_iff] at kept
    exact kept closed listed (decide_eq_true ⟨asked,lacks⟩)
  have same := relation.settled complete
  subst same
  refine ⟨closed,member,listed,rfl,?_⟩
  cases result : closed.result with
  | pass => rfl
  | fail => exact absurd result unfailed
  | incomplete => exact absurd result complete

theorem foldRows_failed {judged : Judged} {report : Report} {row : Row}
    (member : row ∈ report.perClaim) (required : row.claimId ∈ judged.required)
    (fails : row.result = .fail) : (foldRows judged report).failed ≠ [] := by
  obtain ⟨closed,listed,relation⟩ := forall₂_mem_left (foldRows_closed judged report) member
  have same := relation.failed fails
  subst same
  intro none'
  have kept := (List.append_eq_nil_iff.mp none').2
  rw [failedRows, List.map_eq_nil_iff, List.filter_eq_nil_iff] at kept
  exact kept closed listed (decide_eq_true ⟨required,fails⟩)

end Aggregating

section Verdicts

/-- A failure barrier stands against the claim of the row, and no recorded execution supersedes
it. -/
def Unsuperseded (bindings : PolicyBindings) (events : List HistoryEvent) (row : Row) : Prop :=
  match mapGet (recordMap bindings.checked.policy.toPolicy) row.claimId with
  | some _ => ∃ slot ∈ row.executions, FailBarrier events row.claimId slot.slot.tool ∧
      ¬ EligibleIn events slot.execution row.claimId slot.slot.tool
  | none => ∃ tool ∈ historyTools bindings events row.claimId, FailBarrier events row.claimId tool

theorem unsuperseded_fails {bindings : PolicyBindings} {events : List HistoryEvent} {row : Row}
    (fact : RowFact bindings events row) (h : Unsuperseded bindings events row) :
    row.result = .fail := by
  unfold Unsuperseded at h
  cases known : mapGet (recordMap bindings.checked.policy.toPolicy) row.claimId with
  | none =>
    rw [known] at h
    exact (fact.outside known).2 h
  | some expected =>
    rw [known] at h
    obtain ⟨slot,member,failed,standing⟩ := h
    obtain ⟨-,slots,fails,-⟩ := fact.recorded expected known
    apply fails
    rw [statesOf, ← (slots slot member).fails failed standing]
    exact List.mem_map_of_mem member

/-- An exit code of zero covers every required claim, and a failure that nothing supersedes decides
the verdict. -/
theorem verdict_covers_and_failure_decides (D : Digests) (repr : CanonicalJson.Value → String)
    (portable : Portable) (apart : Distinguishes D portable.history portable.latestHistory) :
    (∀ report, assess D repr portable = .ok (report,0) →
      report.errors = [] ∧ ∃ run bindings latest, portable.run = .ok run ∧
        policyBindings repr portable run.policyPath = .ok bindings ∧
        loadHistory D portable.toReceipts portable.latestHistory run.history = .ok latest ∧
        ∀ claim, RequiredClaim portable bindings claim →
          ∃ record ∈ bindings.checked.policy.records, record.claimId = claim ∧
            ∃ row ∈ report.perClaim, row.claimId = claim ∧ row.executions ≠ [] ∧
              row.executions.map SlotRow.slot = record.executions ∧
              ∀ slot ∈ row.executions, slot.state = .pass ∧
                EligibleIn latest.events slot.execution claim slot.slot.tool) ∧
    (∀ judged s, judge D repr portable initialState = (.ok judged,s) →
      (∃ row ∈ s.report.perClaim, RequiredClaim portable judged.bindings row.claimId ∧
        Unsuperseded judged.bindings judged.latest.events row) →
      ∃ report, assess D repr portable = .ok (report,1) ∧ report.verdict = "FAILED") := by
  constructor
  · intro report passed
    unfold assess at passed
    cases run : assessment D repr portable initialState with
    | mk outcome s =>
      rw [run] at passed
      cases outcome with
      | error failure =>
        by_cases reported : failure.reported = true
        · simp only [reported, if_true] at passed
          have code := congrArg Prod.snd (Except.ok.inj passed)
          simp only [reportFailure] at code
          split at code <;> cases code
        · simp [reported] at passed
      | ok code =>
        obtain ⟨rfl,rfl⟩ := Prod.mk.inj (Except.ok.inj passed)
        rw [assessment, bind_ran] at run
        obtain ⟨judged,opened,judges,aggregates⟩ := run
        have fact := judge_fact apart rfl judges
        obtain ⟨failed,errors,incomplete,report⟩ := aggregate_zero aggregates
        rw [report]
        apply And.intro errors
        refine ⟨judged.run,judged.bindings,judged.latest,(safely_ok _ _).mp fact.run,fact.bindings,
          fact.latest,?_⟩
        intro claim required
        have asked : claim ∈ judged.required := by
          rw [fact.required]
          exact (expandRequired_members (policyBindings_flat fact.bindings)).mpr required
        obtain ⟨row,member,kept,rfl,passes⟩ := required_passes fact.names failed incomplete asked
        have rowFact := fact.facts row member
        cases known : mapGet (recordMap judged.bindings.checked.policy.toPolicy) row.claimId with
        | none => exact absurd passes (rowFact.outside known).1
        | some expected =>
          obtain ⟨shape,slots,-,all⟩ := rowFact.recorded expected known
          have record := recordMap_found known
          refine ⟨expected,record.1,record.2,row,kept,rfl,(all passes).1,shape,?_⟩
          intro slot listed
          have pass := (all passes).2 slot listed
          exact ⟨pass,(slots slot listed).passes pass⟩
  · intro judged s judges ⟨row,member,required,standing⟩
    have fact := judge_fact apart rfl judges
    have asked : row.claimId ∈ judged.required := by
      rw [fact.required]
      exact (expandRequired_members (policyBindings_flat fact.bindings)).mpr required
    have failed := foldRows_failed member asked (unsuperseded_fails (fact.facts row member) standing)
    unfold assess
    rw [assessment, bind_of_ok judges]
    rcases @aggregate_failed portable _ _ failed with
      ⟨s',ran,verdict⟩ | ⟨failure,s',raised,reported,kept⟩
    · rw [ran]
      exact ⟨s'.report,rfl,verdict⟩
    · rw [raised]
      have ends := @reportFailure_failed failure _ kept
      simp only [reported, if_true]
      exact ⟨(reportFailure failure s'.report).1,congrArg Except.ok (Prod.ext rfl ends.1),ends.2⟩

end Verdicts

section Samples

open CandidateSelection (sampleDigests sampleInputs sampleArtifact sampleExecution sampleCheck
  sampleRequest sampleResponse sampleCommon retain)
open RetainedFiles (sequenceName)

def samplePolicy : PortablePolicy :=
  { PolicyExpansion.samplePolicy [PolicyDocument.sampleRecipe "recipe" .fixed]
      [PolicyExpansion.sampleSlot "s1" "recipe" "t1"] with
    manifestPath := "obligations.json", verifiedInputs := ".fv/inputs", trustAssumptions := [] }

def sampleRecord : ClaimRecord :=
  { Generation.sampleClaim with
    scope := "scope"
    recordId := "record-run-claim" }

def sampleRun : SuppliedRun :=
  { Generation.sampleManifest with
    work := [⟨"recipe",none,some (sampleExecution "a1").executionKey,some (sampleExecution "a1"),
      .pass,.miss,none⟩]
    trustAssumptions := [] }

def historyEntries (events : List HistoryEvent) : List HistoryEntry :=
  events.map (fun event => ⟨sequenceName event.sequence,.ok (canonical (.event event))⟩)

def missing : Reported := ⟨⟨.osError,"missing"⟩,rfl⟩

def samplePortable : Portable where
  execution _ := .ok (sampleArtifact "a1" .pass)
  observation _ := .ok ⟨sampleCheck "r1" "a1" [("s1",.pass)] .pass,sampleRequest "r1" "a1" ["s1"],
    some (sampleResponse "r1" [("s1",.pass)]),true⟩
  owner _ := .error missing
  recompute := false
  recheckObservations := false
  require := none
  run := .ok sampleRun
  policy _ := .ok ⟨samplePolicy,by decide +kernel⟩
  manifest _ := .ok (.object [("invariants",.array [.object [("id",.string "claim")]])])
  common _ := .ok sampleCommon
  inputState _ := .ok ()
  stream _ := .ok ()
  claim _ := .ok sampleRecord
  currentInputs := .error missing
  finalInputs := .error missing
  definition _ _ _ := .ok ()
  packaged _ := ⟨false,[],[],[]⟩
  cargo := ⟨fun _ => .error missing,fun _ => .error "",fun _ => ""⟩
  checkerTools _ _ _ := .ok ()
  checker := ⟨fun _ => .ok (),fun _ _ _ => .ok (),fun _ _ _ _ => .error missing,fun _ => .ok ()⟩
  history := ⟨historyEntries (retain sampleInputs),.ok []⟩
  latestHistory := ⟨historyEntries (retain sampleInputs),.ok []⟩
  observation_fixed _ _ _ _ first second _ := Except.ok.inj (first.symm.trans second)

def sampleReport : Report × ℕ :=
  ((assess sampleDigests (fun _ => "") samplePortable).toOption).getD (emptyReport,2)

theorem sample_distinguishes :
    Distinguishes sampleDigests samplePortable.history samplePortable.latestHistory := by
  have apart : ∀ x ∈ retain sampleInputs, ∀ y ∈ retain sampleInputs,
      sampleDigests.bytes (canonical (.event x)) = sampleDigests.bytes (canonical (.event y)) →
        x = y := by
    decide +kernel
  intro x hx y hy data data' readX readY same
  obtain ⟨a,ha,rfl⟩ := List.mem_map.mp hx
  obtain ⟨b,hb,rfl⟩ := List.mem_map.mp hy
  obtain rfl := Except.ok.inj readX
  obtain rfl := Except.ok.inj readY
  rw [apart a ha b hb same]

/-- The sample run covers its claim. -/
theorem verdict_covers_sample :
    assess sampleDigests (fun _ => "") samplePortable = .ok (sampleReport.1,0) ∧
      sampleReport.1.errors = [] := by
  have ran : assess sampleDigests (fun _ => "") samplePortable = .ok (sampleReport.1,0) := by
    decide +kernel
  exact ⟨ran,((verdict_covers_and_failure_decides sampleDigests (fun _ => "") samplePortable
    sample_distinguishes).1 sampleReport.1 ran).1⟩

end Samples

end PortableAssessment

end EvidenceV4
