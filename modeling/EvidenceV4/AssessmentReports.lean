import EvidenceV4.AssessmentFailures

/-!
# The assessment reports

A loop stops at its first failure, so what an assessment reaches is said of the
slots, the rows and the stages before. It reports exactly when it reaches none of
the failures that no handler catches, and a report that recorded a failure never
carries a passing verdict.
-/

set_option autoImplicit false

namespace EvidenceV4

namespace PortableAssessment

open CheckedExcept PortableEligibility PortableHistory
open PolicyDocument (mapGet)
open Raising

variable {D : Digests} {repr : CanonicalJson.Value → String} {portable : Portable}
  {bindings : PolicyBindings} {run : SuppliedRun}

section Rows

variable {current : Option InputState} {loaded : LoadedHistory} {row row' : Row}
  {ledger ledger' : Ledger}

/-- What the loop over the claims takes for the record of a claim. -/
def ClaimRead (D : Digests) (portable : Portable) (run : SuppliedRun) (bindings : PolicyBindings)
    (expected : PolicyRecord) : Option ClaimRecord → Prop
  | some record => readClaim D portable run bindings expected = .ok record
  | none => ∃ failure, readClaim D portable run bindings expected = .error failure ∧
      failure.skipped = true

/-- The record of the row's claim is read or left out, and every slot of the row is placed. -/
def RowGoes (D : Digests) (portable : Portable) (run : SuppliedRun) (bindings : PolicyBindings)
    (loaded : LoadedHistory) (row : Row) : Prop :=
  ∀ expected ∈ mapGet (recordMap bindings.checked.policy.toPolicy) row.claimId,
    ∃ record, ClaimRead D portable run bindings expected record ∧
      ∀ slot ∈ row.executions, SlotPlaced loaded row.claimId record slot

/-- The record of the row's claim is read or left out, and a slot of the row whose predecessors are
placed reaches a failure that no handler catches. -/
def RowReaches (D : Digests) (portable : Portable) (run : SuppliedRun) (bindings : PolicyBindings)
    (current : Option InputState) (loaded : LoadedHistory) (row : Row) : Prop :=
  ∃ expected ∈ mapGet (recordMap bindings.checked.policy.toPolicy) row.claimId,
    ∃ record, ClaimRead D portable run bindings expected record ∧
      ∃ before slot after, row.executions = before ++ slot :: after ∧
        (∀ other ∈ before, SlotPlaced loaded row.claimId record other) ∧
        SlotReaches D portable run bindings current loaded row.claimId record slot

theorem claimRead_unique {expected : PolicyRecord} {record other : Option ClaimRecord}
    (h : ClaimRead D portable run bindings expected record)
    (h' : ClaimRead D portable run bindings expected other) : record = other := by
  cases record <;> cases other
  · rfl
  · obtain ⟨failure,failed,_⟩ := h
    exact nomatch failed.symm.trans h'
  · obtain ⟨failure,failed,_⟩ := h'
    exact nomatch failed.symm.trans h
  · rw [Except.ok.inj (h.symm.trans h')]

theorem loadClaim_read {expected : PolicyRecord} {record : Option ClaimRecord}
    {s s' : Row × Ledger} (ran : loadClaim D portable run bindings expected s = (.ok record,s')) :
    ClaimRead D portable run bindings expected record ∧ s'.2.replayed = s.2.replayed := by
  unfold loadClaim at ran
  cases read : readClaim D portable run bindings expected with
  | ok saved =>
    simp only [read, bind_ran, modify_ran, pure_ran] at ran
    obtain ⟨_,m,rfl,rfl,rfl⟩ := ran
    exact ⟨read,rfl⟩
  | error failure =>
    by_cases skipped : failure.skipped = true
    · simp only [read, skipped, if_true, bind_ran, modify_ran, pure_ran] at ran
      obtain ⟨_,m,rfl,rfl,rfl⟩ := ran
      exact ⟨⟨failure,read,skipped⟩,rfl⟩
    · simp [read, skipped] at ran

theorem loadClaim_of_read {expected : PolicyRecord} {record : Option ClaimRecord}
    {s : Row × Ledger} (h : ClaimRead D portable run bindings expected record) :
    ∃ s', loadClaim D portable run bindings expected s = (.ok record,s') := by
  unfold loadClaim
  cases record with
  | some record =>
    rw [ClaimRead] at h
    simp only [h]
    exact ⟨_,rfl⟩
  | none =>
    obtain ⟨failure,failed,skipped⟩ := h
    simp only [failed, skipped, if_true]
    exact ⟨_,rfl⟩

theorem loadClaim_quiet {expected : PolicyRecord} {s : Row × Ledger} :
    ¬ Raises Escaping (loadClaim D portable run bindings expected) s := by
  unfold loadClaim
  cases read : readClaim D portable run bindings expected with
  | ok saved => simp
  | error failure =>
    by_cases skipped : failure.skipped = true
    · simp [skipped]
    · simp only [skipped, if_false, Bool.false_eq_true]
      exact lift_quiet (failsIn_throw (readClaim_listed failure read))

theorem concludeRow_total {record : Option ClaimRecord} (s : Row × Ledger) :
    ∃ s', concludeRow record s = (.ok (),s') := by
  unfold concludeRow
  cases record with
  | none => exact ⟨_,rfl⟩
  | some record =>
    by_cases agrees : record.result = capturedResult record ∨ record.result = .incomplete
    · simp only [agrees, if_true]
      exact ⟨_,rfl⟩
    · simp only [agrees, if_false]
      exact ⟨_,rfl⟩

theorem eachSlot_ledger {body : SlotStep Unit} (h : KeepsLedger portable bindings current body) :
    KeepsLedger portable bindings current (eachSlot body) :=
  fun s holds => keeps_entries h (s.1.executions,s.2) holds

theorem assessRow_ledger : KeepsLedger portable bindings current
    (assessRow D portable run bindings current loaded) := by
  unfold assessRow
  refine keeps_bind (keeps_asking _) ?_
  intro row
  cases mapGet (recordMap bindings.checked.policy.toPolicy) row.claimId with
  | none => exact keeps_pure _
  | some expected =>
    refine keeps_bind ?_ ?_
    · unfold loadClaim
      cases readClaim D portable run bindings expected with
      | ok record => exact keeps_bind (keeps_modify (fun _ h => h)) (fun _ => keeps_pure _)
      | error failure =>
        refine keeps_ite ?_ (keeps_lift _)
        exact keeps_bind (keeps_modify (fun _ h => h)) (fun _ => keeps_pure _)
    · intro record
      refine keeps_bind (eachSlot_ledger assessSlot_ledger) ?_
      intro _
      unfold concludeRow
      refine keeps_bind (keeps_modify (fun _ h => h)) ?_
      intro _
      cases record with
      | none => exact keeps_pure _
      | some record => exact keeps_ite (keeps_pure _) (keeps_modify (fun _ h => h))

/-- The part of a row's assessment behind the record that was read. -/
theorem assessRow_split {expected : PolicyRecord} {kind : Failure → Prop}
    (known : mapGet (recordMap bindings.checked.policy.toPolicy) row.claimId = some expected) :
    Raises kind (assessRow D portable run bindings current loaded) (row,ledger) ↔
      Raises kind (loadClaim D portable run bindings expected) (row,ledger) ∨
      ∃ record m, loadClaim D portable run bindings expected (row,ledger) = (.ok record,m) ∧
        Raises kind (entries (assessSlot D portable run bindings current loaded row.claimId record))
          (m.1.executions,m.2) := by
  simp only [assessRow, raises_bind, raises_asking, asking_ran]
  constructor
  · rintro (⟨_,h,_⟩ | ⟨_,_,⟨own,rfl⟩,h⟩)
    · cases h
    · obtain rfl := Except.ok.inj own
      simp only [known, raises_bind] at h
      rcases h with loads | ⟨record,m,loads,slots | ⟨_,_,_,concludes⟩⟩
      · exact .inl loads
      · exact .inr ⟨record,m,loads,slots⟩
      · obtain ⟨e,h,_⟩ := concludes
        obtain ⟨s',total⟩ := @concludeRow_total record _
        rw [total] at h
        cases h
  · intro h
    refine .inr ⟨row,(row,ledger),⟨rfl,rfl⟩,?_⟩
    simp only [known, raises_bind]
    rcases h with loads | ⟨record,m,loads,slots⟩
    · exact .inl loads
    · exact .inr ⟨record,m,loads,.inl slots⟩

theorem unknown_quiet {kind : Failure → Prop}
    (known : mapGet (recordMap bindings.checked.policy.toPolicy) row.claimId = none) :
    ¬ Raises kind (assessRow D portable run bindings current loaded) (row,ledger) := by
  simp only [assessRow, raises_bind, raises_asking, asking_ran]
  rintro (⟨_,h,_⟩ | ⟨_,_,⟨own,rfl⟩,h⟩)
  · cases h
  · obtain rfl := Except.ok.inj own
    simp [known] at h

theorem ledger_same (same : ledger'.replayed = ledger.replayed)
    (holds : LedgerHolds portable bindings current ledger) :
    LedgerHolds portable bindings current ledger' := by
  unfold LedgerHolds
  rw [same]
  exact holds

theorem assessRow_goes (ran : assessRow D portable run bindings current loaded (row,ledger) =
    (.ok (),(row',ledger'))) : RowGoes D portable run bindings loaded row := by
  intro expected known
  simp only [assessRow, bind_ran, asking_ran] at ran
  obtain ⟨_,_,⟨own,rfl⟩,ran⟩ := ran
  obtain rfl := Except.ok.inj own
  simp only [Option.mem_def.mp known, bind_ran] at ran
  obtain ⟨record,m,loads,_,_,slots,_⟩ := ran
  refine ⟨record,(loadClaim_read loads).1,?_⟩
  obtain ⟨judged,_,read⟩ := eachSlot_ran slots
  rw [(loadClaim_ran loads).2] at read
  have places : List.Forall₂ (fun slot _ => SlotPlaced loaded row.claimId record slot)
      row.executions judged := entries_ran (fun _ _ _ _ _ ran => assessSlot_placed ran) read
  intro slot member
  obtain ⟨_,_,placed⟩ := forall₂_mem_left places member
  exact placed

theorem assessRow_raised {failure : Failure} (goes : RowGoes D portable run bindings loaded row)
    (holds : LedgerHolds portable bindings current ledger)
    (raised : (assessRow D portable run bindings current loaded (row,ledger)).1 =
      .error failure) : Escaping failure := by
  have raises : Raises (fun e => e = failure)
      (assessRow D portable run bindings current loaded) (row,ledger) := ⟨failure,raised,rfl⟩
  cases known : mapGet (recordMap bindings.checked.policy.toPolicy) row.claimId with
  | none => exact absurd raises (unknown_quiet known)
  | some expected =>
    obtain ⟨record,read,placed⟩ := goes expected known
    obtain ⟨m,loads⟩ := @loadClaim_of_read _ _ _ _ _ _ (row,ledger) read
    rw [assessRow_split known] at raises
    rcases raises with ⟨e,h,_⟩ | ⟨other,m',loads',e,slots,rfl⟩
    · rw [loads] at h
      cases h
    · obtain ⟨same,rfl⟩ := Prod.mk.inj (loads.symm.trans loads')
      obtain rfl := Except.ok.inj same
      have held := ledger_same (loadClaim_read loads).2 holds
      obtain ⟨slot,member,m,_,h⟩ := entries_raised assessSlot_ledger held slots
      rw [(loadClaim_ran loads).2] at member
      exact assessSlot_raised (placed slot member) h

theorem assessRow_escapes (holds : LedgerHolds portable bindings current ledger) :
    Raises Escaping (assessRow D portable run bindings current loaded) (row,ledger) ↔
      RowReaches D portable run bindings current loaded row := by
  cases known : mapGet (recordMap bindings.checked.policy.toPolicy) row.claimId with
  | none =>
    constructor
    · exact fun raises => absurd raises (unknown_quiet known)
    · intro ⟨_,found,_⟩
      rw [known] at found
      cases found
  | some expected =>
    rw [assessRow_split known]
    have slots : ∀ record m, loadClaim D portable run bindings expected (row,ledger) =
        (.ok record,m) → (Raises Escaping
          (entries (assessSlot D portable run bindings current loaded row.claimId record))
          (m.1.executions,m.2) ↔ ∃ before slot after, row.executions = before ++ slot :: after ∧
            (∀ other ∈ before, SlotPlaced loaded row.claimId record other) ∧
            SlotReaches D portable run bindings current loaded row.claimId record slot) := by
      intro record m loads
      rw [← (loadClaim_ran loads).2]
      exact raises_entries assessSlot_ledger (fun _ _ _ _ _ ran => assessSlot_placed ran)
        (fun _ _ _ _ placed raised => assessSlot_raised placed raised)
        (fun _ _ held => assessSlot_escapes held) (ledger_same (loadClaim_read loads).2 holds)
    constructor
    · rintro (loads | ⟨record,m,loads,raised⟩)
      · exact absurd loads loadClaim_quiet
      · exact ⟨expected,known,record,(loadClaim_read loads).1,(slots record m loads).mp raised⟩
    · intro ⟨other,found,record,read,reached⟩
      obtain rfl := Option.some.inj (known.symm.trans found)
      obtain ⟨m,loads⟩ := @loadClaim_of_read _ _ _ _ _ _ (row,ledger) read
      exact .inr ⟨record,m,loads,(slots record m loads).mpr reached⟩

end Rows

section Assessments

variable {current : Option InputState} {loaded : LoadedHistory}

/-- The current sources as the slots are judged against them. -/
def Scanned (portable : Portable) : Option InputState → Prop
  | some inputs => portable.recompute = true ∧ portable.currentInputs = .ok inputs
  | none => portable.recompute = true → ∃ failure, portable.currentInputs = .error failure ∧
      failure.val.kind ∈ [.v4Error,.osError,.unicodeError,.valueError]

/-- Every stage before the slots lets the assessment go on, with these rows. -/
structure Arrives (D : Digests) (repr : CanonicalJson.Value → String) (portable : Portable)
    (run : SuppliedRun) (bindings : PolicyBindings) (rows : List Row) (loaded : LoadedHistory)
    (current : Option InputState) : Prop where
  read : portable.run = .ok run
  policy : policyBindings repr portable run.policyPath = .ok bindings
  selection : checkSelection portable bindings = .ok ()
  opened : ∃ opened, (rowNames bindings (expandRequired portable bindings).2).mapM
    (initialRow bindings) = .ok opened ∧ rows = opened.map (outsideRows bindings loaded)
  bound : checkBindings run bindings = .ok ()
  work : ∀ entry ∈ run.work, ∀ failure, checkWork portable entry = .error failure →
    failure.skipped = true
  scans : checkScans portable run bindings = .ok ()
  history : loadHistory D portable.toReceipts portable.history run.history = .ok loaded
  scanned : Scanned portable current

/-- The assessment reaches a failure that no handler catches: in the policy stage, or in a row
behind rows that go on. -/
inductive AssessmentEscapes (D : Digests) (repr : CanonicalJson.Value → String)
    (portable : Portable) : Prop where
  | manifest {run : SuppliedRun} (read : portable.run = .ok run)
      (rejected : ManifestRejected repr portable run.policyPath)
  | row {run : SuppliedRun} {bindings : PolicyBindings} {rows before after : List Row} {row : Row}
      {loaded : LoadedHistory} {current : Option InputState}
      (arrives : Arrives D repr portable run bindings rows loaded current)
      (split : rows = before ++ row :: after)
      (goes : ∀ other ∈ before, RowGoes D portable run bindings loaded other)
      (reaches : RowReaches D portable run bindings current loaded row)

theorem prepare_escapes {s : AssessmentState} :
    Raises Escaping (prepare repr portable) s ↔
      ∃ run, portable.run = .ok run ∧ ManifestRejected repr portable run.policyPath := by
  simp only [prepare, raises_bind, raises_lift, lift_ran, raises_modify, modify_ran, false_or,
    safely_ok, raises_pure, and_false, exists_false, or_false]
  constructor
  · rintro (⟨failure,raised,escapes⟩ | ⟨run,_,⟨read,rfl⟩,bound | ⟨bindings,_,_,⟨failure,raised,escapes⟩
      | ⟨_,_,_,_,_,_,opens⟩⟩⟩)
    · exact absurd escapes (not_escaping (safely_listed _ failure raised))
    · exact ⟨run,read,policyBindings_escapes.mp bound⟩
    · exact absurd escapes (not_escaping (checkSelection_listed failure raised))
    · obtain ⟨name,_,m,opens⟩ := raises_forM opens
      simp only [openRow, raises_bind, raises_lift, raises_modify, and_false, exists_false,
        or_false] at opens
      obtain ⟨failure,raised,escapes⟩ := opens
      exact absurd escapes (not_escaping (initialRow_listed failure raised))
  · rintro ⟨run,read,rejected⟩
    exact .inr ⟨run,s,⟨read,rfl⟩,.inl (policyBindings_escapes.mpr rejected)⟩

theorem reportWork_quiet {entry : RunWork} {s : AssessmentState} :
    ¬ Raises Escaping (reportWork portable entry) s := by
  intro ⟨failure,raised,escapes⟩
  unfold reportWork catching at raised
  cases checked : checkWork portable entry with
  | ok u => simp [lift, asking, checked] at raised
  | error reason =>
    have listed := checkWork_listed reason checked
    by_cases skipped : reason.skipped = true
    · simp [lift, asking, checked, skipped, addErrors, Raising.modify] at raised
    · simp only [lift, asking, checked, skipped, if_false, Bool.false_eq_true] at raised
      exact not_escaping (Except.error.inj raised ▸ listed) escapes

theorem captureHistory_quiet {s : AssessmentState} :
    ¬ Raises Escaping (captureHistory D portable run bindings) s := by
  simp only [captureHistory, addErrors, raises_bind, raises_lift, raises_modify, raises_pure,
    and_false, exists_false, or_false]
  exact @lift_quiet Unit _ _ () loadHistory_listed

theorem scanCurrent_quiet {s : AssessmentState} : ¬ Raises Escaping (scanCurrent portable) s := by
  unfold scanCurrent
  by_cases recompute : portable.recompute = true
  · simp only [recompute, if_true]
    cases portable.currentInputs with
    | ok inputs =>
      simp only [raises_bind, raises_modify, raises_pure, and_false, exists_false, or_false,
        false_or]
      rintro ⟨_,_,_,dirty⟩
      unfold reportDirty at dirty
      split at dirty
      · simp at dirty
      · simp [addErrors] at dirty
    | error failure =>
      dsimp only
      split
      · simp [addErrors]
      · exact lift_quiet (failsIn_throw failure.property)
  · simp [recompute]

theorem raised_entry {τ ρ : Type} {body : Raising Failure (τ × ρ) Unit} {ys : List τ} {r : ρ}
    (quiet : ∀ s, ¬ Raises Escaping body s) : ¬ Raises Escaping (entries body) (ys,r) := by
  intro ⟨failure,raised,escapes⟩
  have anything : Keeps (fun _ : τ × ρ => True) body := fun _ _ => trivial
  obtain ⟨y,_,m,_,raised⟩ := @entries_raised _ _ _ body (fun _ => True) anything ys r failure trivial raised
  exact quiet (y,m) ⟨failure,raised,escapes⟩

theorem reassessRow_quiet {s : Row × Ledger} :
    ¬ Raises Escaping (reassessRow bindings loaded) s := by
  simp only [reassessRow, raises_bind, raises_asking, asking_ran]
  rintro (⟨_,h,_⟩ | ⟨row,_,⟨own,rfl⟩,raised⟩)
  · cases h
  · by_cases known : (mapGet (recordMap bindings.checked.policy.toPolicy) row.claimId).isSome
    · simp only [known, if_true, raises_bind, raises_modify, and_false, exists_false,
        or_false] at raised
      refine raised_entry ?_ raised
      intro m
      simp only [reassessSlot, raises_bind, raises_asking, asking_ran, raises_lift, raises_modify,
        and_false, exists_false, or_false]
      rintro (⟨_,h,_⟩ | ⟨_,_,_,failure,raised,escapes⟩)
      · cases h
      · exact not_escaping (validated_listed _ failure raised) escapes
    · simp [known] at raised

theorem rereadHistory_quiet {s : AssessmentState} :
    ¬ Raises Escaping (rereadHistory D portable run bindings loaded) s := by
  simp only [rereadHistory, addErrors, raises_bind, raises_lift, raises_modify, raises_pure,
    and_false, exists_false, or_false, false_or]
  rintro (⟨failure,raised,escapes⟩ | ⟨latest,_,_,_,m,_,raised⟩)
  · exact not_escaping (loadHistory_listed failure raised) escapes
  · unfold reassess at raised
    by_cases same : latest.view = loaded.view
    · simp [same] at raised
    · simp only [same, if_false, raises_bind, raises_modify, false_or] at raised
      obtain ⟨_,_,_,raised⟩ := raised
      exact raised_entry (fun _ => reassessRow_quiet) raised

theorem aggregate_quiet {judged : Judged} {s : AssessmentState} :
    ¬ Raises Escaping (aggregate portable judged) s := by
  simp only [aggregate, raises_bind, raises_modify, modify_ran, raises_lift, raises_asking,
    asking_ran, false_or]
  rintro ⟨_,m,rfl,⟨failure,raised,escapes⟩ | ⟨_,m',_,⟨_,h,_⟩ | ⟨report,_,⟨own,rfl⟩,raised⟩⟩⟩
  · exact not_escaping (checkDrift_listed failure raised) escapes
  · cases h
  · split_ifs at raised
    all_goals simp [setVerdict] at raised

/-- No answer was asked for yet. -/
def Unasked (s : AssessmentState) : Prop := s.replayed = []

theorem prepare_unasked : Keeps Unasked (prepare repr portable) := by
  unfold prepare
  refine keeps_bind (keeps_lift _) (fun run => ?_)
  refine keeps_bind (keeps_lift _) (fun bindings => ?_)
  refine keeps_bind (keeps_lift _) (fun _ => ?_)
  refine keeps_bind (keeps_modify (fun _ h => h)) (fun _ => ?_)
  refine keeps_bind (keeps_forM (fun name _ => ?_)) (fun _ => keeps_pure _)
  exact keeps_bind (keeps_lift _) (fun _ => keeps_modify (fun _ h => h))

theorem work_unasked : Keeps Unasked (forM run.work (reportWork portable)) :=
  keeps_forM (fun _ _ => keeps_catching (keeps_lift _) (fun _ => keeps_modify (fun _ h => h)))

theorem captureHistory_unasked : Keeps Unasked (captureHistory D portable run bindings) := by
  unfold captureHistory
  refine keeps_bind (keeps_lift _) (fun loaded => ?_)
  refine keeps_bind (keeps_modify (fun _ h => h)) (fun _ => ?_)
  exact keeps_bind (keeps_modify (fun _ h => h)) (fun _ => keeps_pure _)

theorem scanCurrent_unasked : Keeps Unasked (scanCurrent portable) := by
  unfold scanCurrent
  refine keeps_ite ?_ (keeps_pure _)
  cases portable.currentInputs with
  | ok current =>
    refine keeps_bind (keeps_modify (fun _ h => h)) (fun _ => ?_)
    refine keeps_bind ?_ (fun _ => keeps_pure _)
    exact keeps_ite (keeps_pure _) (keeps_modify (fun _ h => h))
  | error failure =>
    refine keeps_ite ?_ (keeps_lift _)
    exact keeps_bind (keeps_modify (fun _ h => h)) (fun _ => keeps_pure _)

theorem scanCurrent_ran {s s' : AssessmentState}
    (ran : scanCurrent portable s = (.ok current,s')) : Scanned portable current := by
  unfold scanCurrent at ran
  by_cases recompute : portable.recompute = true
  · simp only [recompute, if_true] at ran
    cases scans : portable.currentInputs with
    | ok inputs =>
      simp only [scans, bind_ran, pure_ran] at ran
      obtain ⟨_,_,_,_,_,_,rfl,_⟩ := ran
      exact ⟨recompute,scans⟩
    | error failure =>
      simp only [scans] at ran
      split at ran
      · next listed =>
        simp only [bind_ran, pure_ran] at ran
        obtain ⟨_,_,_,rfl,_⟩ := ran
        exact fun _ => ⟨failure,scans,listed⟩
      · simp at ran
  · simp only [recompute, if_false, Bool.false_eq_true, pure_ran] at ran
    obtain ⟨rfl,_⟩ := ran
    exact fun h => absurd h recompute

theorem scanCurrent_total (h : Scanned portable current) (s : AssessmentState) :
    ∃ s', scanCurrent portable s = (.ok current,s') := by
  unfold scanCurrent
  cases current with
  | some inputs =>
    simp only [h.1, h.2, if_true]
    unfold reportDirty
    split
    · exact ⟨_,rfl⟩
    · exact ⟨_,rfl⟩
  | none =>
    by_cases recompute : portable.recompute = true
    · obtain ⟨failure,failed,listed⟩ := h recompute
      simp only [recompute, failed, listed, if_true]
      exact ⟨_,rfl⟩
    · simp only [recompute, if_false, Bool.false_eq_true]
      exact ⟨_,rfl⟩

theorem openRows_total {names : List ID} {rows : List Row}
    (h : names.mapM (initialRow bindings) = .ok rows) (s : AssessmentState) :
    ∃ s', forM names (openRow bindings) s = (.ok (),s') := by
  apply forM_total
  intro name member m
  obtain ⟨row,_,made⟩ := mapM_mem h member
  apply Exists.intro { m with
    report := { m.report with perClaim := m.report.perClaim ++ [row] } }
  simp only [openRow, bind_ran, lift_ran, modify_ran]
  exact ⟨row,m,⟨made,rfl⟩,rfl⟩

theorem reportWork_total {entry : RunWork}
    (h : ∀ failure, checkWork portable entry = .error failure → failure.skipped = true)
    (s : AssessmentState) : ∃ s', reportWork portable entry s = (.ok (),s') := by
  unfold reportWork catching
  cases checked : checkWork portable entry with
  | ok u => exact ⟨s,rfl⟩
  | error failure =>
    simp only [lift, asking, h failure checked, if_true]
    exact ⟨_,rfl⟩

theorem reportWork_ran {entry : RunWork} {s s' : AssessmentState}
    (ran : reportWork portable entry s = (.ok (),s')) :
    ∀ failure, checkWork portable entry = .error failure → failure.skipped = true := by
  intro failure checked
  rw [reportWork, catching_ran] at ran
  rcases ran with done | ⟨reason,m,raised,skipped,_⟩
  · rw [lift_ran, checked] at done
    cases done.1
  · obtain ⟨same,_⟩ := Prod.mk.inj raised
    rw [checked] at same
    exact Except.error.inj same ▸ skipped

theorem prepare_total {s : AssessmentState} {opened : List Row} (read : portable.run = .ok run)
    (policy : policyBindings repr portable run.policyPath = .ok bindings)
    (selection : checkSelection portable bindings = .ok ())
    (rows : (rowNames bindings (expandRequired portable bindings).2).mapM (initialRow bindings) =
      .ok opened) :
    ∃ s', prepare repr portable s =
      (.ok ⟨run,bindings,(expandRequired portable bindings).2⟩,s') := by
  obtain ⟨s',opens⟩ := openRows_total rows _
  apply Exists.intro s'
  simp only [prepare, bind_ran, lift_ran, modify_ran, pure_ran, safely_ok]
  exact ⟨run,s,⟨read,rfl⟩,bindings,s,⟨policy,rfl⟩,(),s,⟨selection,rfl⟩,(),_,rfl,(),s',opens,rfl,rfl⟩

/-- The stages before the slots, run in turn. -/
structure StagesRan (D : Digests) (repr : CanonicalJson.Value → String) (portable : Portable)
    (prepared : Prepared) (loaded : LoadedHistory) (current : Option InputState)
    (s : AssessmentState) where
  opened : AssessmentState
  worked : AssessmentState
  captured : AssessmentState
  prepares : prepare repr portable initialState = (.ok prepared,opened)
  bound : checkBindings prepared.run prepared.bindings = .ok ()
  works : forM prepared.run.work (reportWork portable) opened = (.ok (),worked)
  scans : checkScans portable prepared.run prepared.bindings = .ok ()
  captures : captureHistory D portable prepared.run prepared.bindings worked =
    (.ok loaded,captured)
  scanning : scanCurrent portable captured = (.ok current,s)

theorem stages_arrive {prepared : Prepared} {s : AssessmentState}
    (ran : StagesRan D repr portable prepared loaded current s) :
    Arrives D repr portable prepared.run prepared.bindings s.report.perClaim loaded current ∧
      Unasked s := by
  have fact := prepare_fact rfl ran.prepares
  have history := captureHistory_ran ran.captures
  have worked : HasRows ran.opened.report.perClaim ran.worked := by
    have kept := @work_keeps portable _ prepared.run ran.opened rfl
    rw [ran.works] at kept
    exact kept
  have scanned : HasRows ran.captured.report.perClaim s := by
    have kept := @scanCurrent_keeps portable _ ran.captured rfl
    rw [ran.scanning] at kept
    exact kept
  constructor
  · refine ⟨(safely_ok _ _).mp fact.run,fact.bindings,fact.selection,
      ⟨ran.opened.report.perClaim,?_,?_⟩,ran.bound,?_,ran.scans,history.1,
      scanCurrent_ran ran.scanning⟩
    · rw [← fact.required]
      exact (mapM_ok _ _ _).mpr fact.rows
    · rw [scanned, history.2, worked]
    · intro entry member
      obtain ⟨_,_,each⟩ := forM_ran ran.works entry member
      exact reportWork_ran each
  · have opened : Unasked ran.opened := by
      have kept := @prepare_unasked repr portable initialState rfl
      rw [ran.prepares] at kept
      exact kept
    have later := @work_unasked portable prepared.run ran.opened opened
    rw [ran.works] at later
    have captured := @captureHistory_unasked D portable prepared.bindings prepared.run ran.worked later
    rw [ran.captures] at captured
    have last := @scanCurrent_unasked portable ran.captured captured
    rw [ran.scanning] at last
    exact last

theorem stages_total {rows : List Row}
    (arrives : Arrives D repr portable run bindings rows loaded current) :
    ∃ s, Nonempty (StagesRan D repr portable ⟨run,bindings,(expandRequired portable bindings).2⟩
      loaded current s) ∧ s.report.perClaim = rows := by
  obtain ⟨opened,made,whole⟩ := arrives.opened
  obtain ⟨m₁,prepares⟩ := @prepare_total _ _ _ _ initialState _ arrives.read arrives.policy
    arrives.selection made
  obtain ⟨m₂,works⟩ := forM_total
    (fun entry member m => reportWork_total (arrives.work entry member) m) m₁
  have captures : ∃ m₃, captureHistory D portable run bindings m₂ = (.ok loaded,m₃) := by
    simp only [captureHistory, addErrors, bind_ran, lift_ran, modify_ran, pure_ran]
    exact ⟨_,loaded,m₂,⟨arrives.history,rfl⟩,(),_,rfl,(),_,rfl,rfl,rfl⟩
  obtain ⟨m₃,captures⟩ := captures
  obtain ⟨s,scanning⟩ := scanCurrent_total arrives.scanned m₃
  have ran : StagesRan D repr portable ⟨run,bindings,(expandRequired portable bindings).2⟩ loaded
      current s := ⟨m₁,m₂,m₃,prepares,arrives.bound,works,arrives.scans,captures,scanning⟩
  refine ⟨s,⟨ran⟩,?_⟩
  obtain ⟨again,same,rows'⟩ := (stages_arrive ran).1.opened
  rw [rows', whole, Except.ok.inj (same.symm.trans made)]

theorem eachRow_escapes {s : AssessmentState} (unasked : Unasked s) :
    Raises Escaping (eachRow (assessRow D portable run bindings current loaded)) s ↔
      ∃ before row after, s.report.perClaim = before ++ row :: after ∧
        (∀ other ∈ before, RowGoes D portable run bindings loaded other) ∧
        RowReaches D portable run bindings current loaded row := by
  have start : LedgerHolds portable bindings current ⟨s.report.errors,s.replayed⟩ := by
    intro inputs _ entry member
    rw [show s.replayed = [] from unasked] at member
    cases member
  rw [eachRow, raises_within]
  exact raises_entries assessRow_ledger (fun _ _ _ _ _ ran => assessRow_goes ran)
    (fun _ _ _ holds goes raised => assessRow_raised goes holds raised)
    (fun _ _ holds => assessRow_escapes holds) start

theorem judge_escapes : Raises Escaping (judge D repr portable) initialState ↔
    AssessmentEscapes D repr portable := by
  simp only [judge, raises_bind, raises_lift, lift_ran, prepare_escapes, raises_pure, and_false,
    exists_false, or_false]
  constructor
  · rintro (⟨run,read,rejected⟩ | ⟨prepared,opened,prepares,⟨failure,raised,escapes⟩ |
      ⟨_,_,⟨bound,rfl⟩,h⟩⟩)
    · exact .manifest read rejected
    · exact absurd escapes (not_escaping (checkBindings_listed failure raised))
    · rcases h with worked | ⟨_,m,works,⟨failure,raised,escapes⟩ | ⟨_,_,⟨scans,rfl⟩,h⟩⟩
      · obtain ⟨entry,_,_,raised⟩ := raises_forM worked
        exact absurd raised reportWork_quiet
      · exact absurd escapes (not_escaping (checkScans_listed failure raised))
      · rcases h with captured | ⟨loaded,m₁,captures,scanned | ⟨current,m₂,scanning,h⟩⟩
        · exact absurd captured captureHistory_quiet
        · exact absurd scanned scanCurrent_quiet
        · rcases h with rows | ⟨_,_,_,reread⟩
          · obtain ⟨arrives,unasked⟩ :=
              stages_arrive ⟨opened,m,m₁,prepares,bound,works,scans,captures,scanning⟩
            obtain ⟨before,row,after,split,goes,reaches⟩ := (eachRow_escapes unasked).mp rows
            exact .row arrives split goes reaches
          · exact absurd reread rereadHistory_quiet
  · intro escapes
    cases escapes with
    | manifest read rejected => exact .inl ⟨_,read,rejected⟩
    | row arrives split goes reaches =>
      obtain ⟨s,⟨ran⟩,rows⟩ := stages_total arrives
      have raised := (eachRow_escapes (stages_arrive ran).2).mpr
        ⟨_,_,_,rows.trans split,goes,reaches⟩
      refine .inr ⟨_,ran.opened,ran.prepares,.inr ⟨(),_,⟨ran.bound,rfl⟩,.inr ⟨(),_,ran.works,
        .inr ⟨(),_,⟨ran.scans,rfl⟩,.inr ⟨_,_,ran.captures,.inr ⟨_,_,ran.scanning,.inl raised⟩⟩⟩⟩⟩⟩

end Assessments

section Reports

/-- The verdict and the exit code of an assessment that met a failure. -/
def Refuses (report : Report) (code : ℕ) : Prop :=
  code = 1 ∧ report.verdict = "FAILED" ∨ code = 2 ∧ report.verdict = "ERROR"

theorem aggregate_refuses {judged : Judged} {s s' : AssessmentState} {code : ℕ}
    (ran : aggregate portable judged s = (.ok code,s')) (errors : s'.report.errors ≠ []) :
    Refuses s'.report code := by
  simp only [aggregate, bind_ran, modify_ran, lift_ran, asking_ran] at ran
  obtain ⟨_,m,rfl,_,_,⟨_,rfl⟩,report,_,⟨own,rfl⟩,ran⟩ := ran
  obtain rfl := Except.ok.inj own
  dsimp only at ran
  split_ifs at ran with failed wrong incomplete
  all_goals
    simp only [setVerdict, bind_ran, modify_ran, pure_ran] at ran
    obtain ⟨_,_,rfl,rfl,rfl⟩ := ran
  · exact .inl ⟨rfl,rfl⟩
  · exact .inr ⟨rfl,rfl⟩
  · exact absurd (.inl errors) wrong
  · exact absurd (.inl errors) wrong

theorem reportFailure_refuses {failure : Failure} {report : Report} :
    Refuses (reportFailure failure report).1 (reportFailure failure report).2 := by
  unfold reportFailure
  dsimp only
  split
  · exact .inl ⟨rfl,rfl⟩
  · exact .inr ⟨rfl,rfl⟩

/-- Text in the quotes of a message. -/
def quoted : CanonicalJson.Value → String
  | .string text => "'" ++ text ++ "'"
  | _ => ""

/-- A manifest that names one obligation twice. -/
def repeatedManifest : CanonicalJson.Value :=
  .object [("invariants",.array [.object [("id",.string "claim")],.object [("id",.string "claim")]])]

end Reports

end PortableAssessment

end EvidenceV4
