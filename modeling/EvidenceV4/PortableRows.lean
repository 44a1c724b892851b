import EvidenceV4.PortableAssessment

/-!
# Slots and rows of a portable report

A failure barrier that the recorded execution does not supersede fails its slot,
whatever the passes over the slot meet afterwards, and a slot that passed is
eligible. A row with a record follows its slots, and a row without one follows
the barriers of its claim. The later reading of the history keeps both facts.
-/

set_option autoImplicit false

namespace EvidenceV4

namespace PortableAssessment

open CheckedExcept PolicyExpansion PortableEligibility PortableHistory
open PolicyDocument (mapGet mapGet_mem mapGet_isSome)
open Schema (utf8Compare Ascending)
open Raising

/-- The execution passed after every barrier of the association and was observed to pass later. -/
def EligibleIn (events : List HistoryEvent) (execution : Option ExecutionRef) (claim : ID)
    (tool : ToolID) : Prop :=
  ∃ e ∈ events, e.kind = .execution ∧ e.result = .pass ∧ e.execution = execution ∧
    (∀ b ∈ events, isBarrier b claim tool → b.sequence < e.sequence) ∧
    ∃ o ∈ events, o.kind = .observation ∧ o.result = .pass ∧ o.execution = execution ∧
      applicable o claim tool ∧ e.sequence < o.sequence

def FailBarrier (events : List HistoryEvent) (claim : ID) (tool : ToolID) : Prop :=
  ∃ b ∈ events, isBarrier b claim tool ∧ b.result = .fail

section Eligibility

variable {events : List HistoryEvent} {refs : List HistoryRef} {execution : Option ExecutionRef}
  {claim : ID} {tool : ToolID} {r : Eligibility}

theorem eligibility_eligible (h : eligibility events refs execution claim tool = .ok r)
    (eligible : r.eligible = true) :
    EligibleIn events execution claim tool ∧ r.remaining = [] := by
  simp only [eligibility, bind_ok, check_ok, exists_unit, pure_ok] at h
  obtain ⟨_,rfl⟩ := h
  have parts := eligible
  simp only [Bool.and_eq_true, decide_eq_true_eq, Bool.not_eq_true'] at parts
  cases found : events.filter (fun event =>
      event.kind = .execution ∧ event.result = .pass ∧ event.execution = execution) with
  | nil =>
    rw [found] at parts
    exact absurd parts.1 (Nat.not_lt_zero _)
  | cons e rest =>
    have he : e ∈ events.filter (fun event =>
        event.kind = .execution ∧ event.result = .pass ∧ event.execution = execution) :=
      found ▸ List.mem_cons_self
    rw [found] at parts eligible
    rw [List.mem_filter, decide_eq_true_eq] at he
    have positive : 0 < e.sequence := Nat.lt_of_le_of_lt (Nat.zero_le _) parts.1
    have before : ∀ b ∈ events, isBarrier b claim tool → b.sequence < e.sequence := by
      have bound := (greatestSequence_lt positive).mp parts.1
      intro b hb barrier
      exact bound b (List.mem_filter.mpr ⟨hb,barrier⟩)
    obtain ⟨o,ho⟩ := List.isEmpty_eq_false_iff_exists_mem.mp parts.2
    rw [List.mem_filter, decide_eq_true_eq] at ho
    constructor
    · exact ⟨e,he.1,he.2.1,he.2.2.1,he.2.2.2,before,o,ho.1,ho.2.1,ho.2.2.1,ho.2.2.2.1,
        ho.2.2.2.2.1,ho.2.2.2.2.2⟩
    · apply List.filter_eq_nil_iff.mpr
      intro b hb remains
      rw [List.mem_filter] at hb
      have earlier := before b hb.1 hb.2
      rcases (Bool.or_eq_true _ _).mp remains with flag | late
      · exact absurd ((congrArg not eligible).symm.trans flag) Bool.false_ne_true
      · exact absurd (of_decide_eq_true late) (Nat.not_le_of_lt earlier)

theorem eligibility_remaining (h : eligibility events refs execution claim tool = .ok r)
    (ineligible : r.eligible = false) :
    r.remaining = events.filter (fun event => isBarrier event claim tool) := by
  simp only [eligibility, bind_ok, check_ok, exists_unit, pure_ok] at h
  obtain ⟨_,rfl⟩ := h
  apply List.filter_eq_self.mpr
  intro b _
  exact (Bool.or_eq_true _ _).mpr (.inl (congrArg not ineligible))

theorem physical_ineligible (h : eligibility events refs execution claim tool = .ok r)
    (eligible : r.eligible = true) : physicalFailure r.remaining = false := by
  rw [(eligibility_eligible h eligible).2]
  rfl

/-- A failure barrier that the execution does not supersede remains. -/
theorem physical_of_barrier (h : eligibility events refs execution claim tool = .ok r)
    (failed : FailBarrier events claim tool) (open' : ¬ EligibleIn events execution claim tool) :
    physicalFailure r.remaining = true := by
  have ineligible : r.eligible = false := by
    cases e : r.eligible
    · rfl
    · exact absurd (eligibility_eligible h e).1 open'
  obtain ⟨b,hb,barrier,fails⟩ := failed
  rw [physicalFailure, eligibility_remaining h ineligible, List.any_eq_true]
  exact ⟨b,List.mem_filter.mpr ⟨hb,barrier⟩,decide_eq_true fails⟩

theorem barrierState_physical {remaining : List HistoryEvent} :
    barrierState remaining = some .fail ↔ physicalFailure remaining = true := by
  unfold barrierState physicalFailure
  split
  · next found => simp [found]
  · next clear =>
    rw [iff_false_right clear]
    cases remaining.getLast? with
    | none => simp
    | some last => by_cases c : last.result = .cancelled <;> simp [c]

theorem barrierState_pass {remaining : List HistoryEvent} : barrierState remaining ≠ some .pass := by
  unfold barrierState
  split
  · simp
  · cases remaining.getLast? with
    | none => simp
    | some last => by_cases c : last.result = .cancelled <;> simp [c]

theorem slotState_pass {result : Result} : RunAssessment.slotState result = .pass ↔
    result = .pass := by
  cases result <;> simp [RunAssessment.slotState]

end Eligibility

section Slots

variable {D : Digests} {portable : Portable} {context : SlotContext} {start : SlotRow} {physical : Bool}

/-- The slot keeps its place and its execution, and a physical failure stays. -/
def Adopted (start : SlotRow) (physical : Bool) (s : SlotRow × Ledger) : Prop :=
  s.1.slot = start.slot ∧ s.1.execution = start.execution ∧ (physical = true → s.1.state = .fail)

theorem setState_keeps {state : SlotState} (clear : physical = false) :
    Keeps (Adopted start physical) (setState state) := by
  apply keeps_modify
  intro s h
  exact ⟨h.1,h.2.1,fun fails => absurd (clear.symm.trans fails) Bool.false_ne_true⟩

theorem annotate_keeps {change : SlotRow × Ledger → SlotRow × Ledger}
    (same : ∀ s, (change s).1.slot = s.1.slot ∧ (change s).1.execution = s.1.execution ∧
      (change s).1.state = s.1.state) :
    Keeps (Adopted start physical) (Raising.modify change : SlotStep Unit) := by
  apply keeps_modify
  intro s h
  exact ⟨(same s).1.trans h.1,(same s).2.1.trans h.2.1,fun fails => (same s).2.2.trans (h.2.2 fails)⟩

theorem replay_keeps {observed : Observed} {path : Path} {current : InputState} :
    Keeps (Adopted start physical) (replay portable context observed path current) := by
  unfold replay
  refine keeps_bind (keeps_asking _) ?_
  intro known
  cases known with
  | some entry => exact keeps_pure _
  | none =>
    refine keeps_bind (keeps_lift _) ?_
    intro response
    refine keeps_bind (annotate_keeps (fun s => ⟨rfl,rfl,rfl⟩)) ?_
    exact fun _ => keeps_pure _

theorem recheckSlot_keeps {observed : Observed} {observation : SlotObservation}
    {current : InputState} (clear : physical = false) : Keeps (Adopted start physical)
      (recheckSlot portable context observed observation current) := by
  unfold recheckSlot
  refine keeps_bind replay_keeps ?_
  intro response
  cases response.slots.find? (fun slot => slot.slotId = context.saved.slotId) with
  | none => exact keeps_lift _
  | some checked =>
    refine keeps_bind (annotate_keeps (fun s => ⟨rfl,rfl,rfl⟩)) ?_
    intro _
    apply keeps_ite (setState_keeps clear)
    apply keeps_modify
    intro s h
    exact ⟨h.1,h.2.1,fun fails => absurd (clear.symm.trans fails) Bool.false_ne_true⟩

theorem assessEligible_keeps {observed : Observed} {observation : SlotObservation}
    (clear : physical = false) :
    Keeps (Adopted start physical) (assessEligible portable context observed observation) := by
  unfold assessEligible
  cases context.current with
  | none => exact setState_keeps clear
  | some current => exact keeps_ite (recheckSlot_keeps clear) (setState_keeps clear)

theorem assessObserved_keeps (exclusive : context.eligibility.eligible = true →
      physicalFailure context.eligibility.remaining = false) {artifact : ExecutionArtifact}
    {execution : ExecutionRef} {observation : SlotObservation} :
    Keeps (Adopted start (physicalFailure context.eligibility.remaining))
      (assessObserved portable context artifact execution observation) := by
  unfold assessObserved
  refine keeps_bind (keeps_lift _) ?_
  intro own
  refine keeps_bind (annotate_keeps (fun s => ⟨rfl,rfl,rfl⟩)) ?_
  intro _
  dsimp only
  by_cases fails : physicalFailure context.eligibility.remaining = true
  · have ineligible : ¬ context.eligibility.eligible = true :=
      fun eligible => absurd ((exclusive eligible).symm.trans fails) Bool.false_ne_true
    simp only [if_neg ineligible, if_pos fails]
    refine keeps_ite ?_ (keeps_pure _)
    exact keeps_bind (keeps_lift _) (fun _ => keeps_pure _)
  · have clear := Bool.not_eq_true _ ▸ fails
    apply keeps_ite
    · refine keeps_bind (keeps_lift _) ?_
      intro _
      exact keeps_ite (keeps_pure _) (setState_keeps clear)
    · apply keeps_ite
      · exact keeps_bind (keeps_lift _) (fun _ => assessEligible_keeps clear)
      · exact keeps_ite (keeps_pure _) (setState_keeps clear)

theorem assessSaved_keeps (exclusive : context.eligibility.eligible = true →
      physicalFailure context.eligibility.remaining = false) :
    Keeps (Adopted start (physicalFailure context.eligibility.remaining))
      (assessSaved D portable context) := by
  unfold assessSaved
  refine keeps_bind (keeps_asking _) ?_
  intro row
  refine keeps_bind (keeps_lift _) ?_
  intro work
  refine keeps_bind (annotate_keeps (fun s => ⟨rfl,rfl,rfl⟩)) ?_
  intro _
  cases context.saved.execution with
  | none => exact keeps_lift _
  | some execution =>
    unfold assessExecuted
    refine keeps_bind (keeps_lift _) ?_
    intro artifact
    refine keeps_ite (keeps_lift _) ?_
    cases context.saved.observation with
    | none => exact keeps_lift _
    | some observation => exact assessObserved_keeps exclusive

theorem setState_ran {state : SlotState} {s s' : SlotRow × Ledger}
    (ran : setState state s = (.ok (),s')) : s'.1.state = state := by
  rw [setState, modify_ran] at ran
  exact ran ▸ rfl

theorem assessObserved_pass {artifact : ExecutionArtifact} {execution : ExecutionRef}
    {observation : SlotObservation} {s s' : SlotRow × Ledger}
    (ran : assessObserved portable context artifact execution observation s = (.ok (),s'))
    (fails : physicalFailure context.eligibility.remaining = true → s.1.state = .fail)
    (passed : s'.1.state = .pass) : context.eligibility.eligible = true := by
  by_contra ineligible
  simp only [assessObserved, bind_ran, lift_ran, modify_ran] at ran
  obtain ⟨own,_,⟨_,rfl⟩,_,m,rfl,ran⟩ := ran
  by_cases unassessed : own.result = .error ∨ own.result = .cancelled
  · rw [if_pos unassessed] at ran
    simp only [bind_ran, lift_ran, check_ok] at ran
    obtain ⟨_,_,⟨_,rfl⟩,ran⟩ := ran
    by_cases physical : physicalFailure context.eligibility.remaining = true
    · rw [if_pos physical, pure_ran] at ran
      rw [← ran.2] at passed
      exact absurd ((fails physical).symm.trans passed) (by decide)
    · rw [if_neg physical] at ran
      rw [setState_ran ran, slotState_pass] at passed
      rw [passed] at unassessed
      exact absurd unassessed (by decide)
  · rw [if_neg unassessed, if_neg ineligible] at ran
    by_cases physical : physicalFailure context.eligibility.remaining = true
    · rw [if_pos physical, pure_ran] at ran
      rw [← ran.2] at passed
      exact absurd ((fails physical).symm.trans passed) (by decide)
    · rw [if_neg physical] at ran
      rw [setState_ran ran] at passed
      cases barrier : barrierState context.eligibility.remaining with
      | none => rw [barrier] at passed; exact absurd passed (by decide)
      | some state =>
        rw [barrier, Option.getD_some] at passed
        exact barrierState_pass (barrier.trans (congrArg some passed))

/-- A recorded slot that ends as passed is eligible. -/
theorem assessSaved_pass {s s' : SlotRow × Ledger}
    (ran : assessSaved D portable context s = (.ok (),s'))
    (begins : s.1.state = (barrierState context.eligibility.remaining).getD context.saved.state)
    (passed : s'.1.state = .pass) : context.eligibility.eligible = true := by
  have fails : physicalFailure context.eligibility.remaining = true → s.1.state = .fail := by
    intro physical
    rw [begins, barrierState_physical.mpr physical, Option.getD_some]
  -- a state that is still the adopted one passes only for a saved pass without barriers
  have adopted : s.1.state = .pass → context.saved.state = .pass ∧
      ¬ physicalFailure context.eligibility.remaining = true := by
    intro pass
    rw [begins] at pass
    cases barrier : barrierState context.eligibility.remaining with
    | none =>
      rw [barrier, Option.getD_none] at pass
      apply And.intro pass
      rw [← barrierState_physical, barrier]
      exact nofun
    | some state =>
      rw [barrier, Option.getD_some] at pass
      exact absurd (barrier.trans (congrArg some pass)) barrierState_pass
  simp only [assessSaved, bind_ran, asking_ran, lift_ran, modify_ran] at ran
  obtain ⟨_,_,⟨_,rfl⟩,work,_,⟨_,rfl⟩,_,m,rfl,ran⟩ := ran
  cases executed : context.saved.execution with
  | none =>
    rw [executed] at ran
    simp only [lift_ran, check_ok] at ran
    obtain ⟨allowed,rfl⟩ := ran
    have held := adopted passed
    rcases allowed with denied | physical
    · exact absurd (.inl held.1) denied
    · exact absurd physical held.2
  | some execution =>
    rw [executed] at ran
    simp only [assessExecuted, bind_ran, lift_ran] at ran
    obtain ⟨artifact,_,⟨_,rfl⟩,ran⟩ := ran
    by_cases other : artifact.result ≠ .pass
    · rw [if_pos other] at ran
      simp only [lift_ran, check_ok] at ran
      obtain ⟨same,rfl⟩ := ran
      have held := adopted passed
      rcases same with same | physical
      · exact absurd (slotState_pass.mp (same.symm.trans held.1)) other
      · exact absurd physical held.2
    · rw [if_neg other] at ran
      cases observed : context.saved.observation with
      | none =>
        rw [observed] at ran
        simp at ran
      | some observation =>
        rw [observed] at ran
        exact assessObserved_pass ran fails passed

/-- What the history says about a slot: a failure that its execution does not supersede fails the
slot, and a slot that passed is eligible. -/
structure SlotFact (events : List HistoryEvent) (claim : ID) (row : SlotRow) : Prop where
  fails : FailBarrier events claim row.slot.tool →
    ¬ EligibleIn events row.execution claim row.slot.tool → row.state = .fail
  passes : row.state = .pass → EligibleIn events row.execution claim row.slot.tool

theorem validated_ok {α : Type} {x : Except String α} {a : α} :
    validated x = .ok a ↔ x = .ok a := by
  cases x <;> simp [validated]

theorem adopt_slot (saved : Option ClaimSlot) (r : Eligibility) (row : SlotRow) :
    (adopt saved r row).slot = row.slot := by
  cases saved <;> rfl

theorem adopt_execution (saved : Option ClaimSlot) (r : Eligibility) {row : SlotRow}
    (fresh : row.execution = none) :
    (adopt saved r row).execution = saved.bind ClaimSlot.execution := by
  cases saved with
  | none => exact fresh
  | some saved => rfl

theorem adopt_fails {saved : Option ClaimSlot} {r : Eligibility} {row : SlotRow}
    (physical : physicalFailure r.remaining = true) : (adopt saved r row).state = .fail := by
  have barrier := barrierState_physical.mpr physical
  cases saved with
  | none => exact congrArg (fun state => Option.getD state row.state) barrier
  | some saved => exact congrArg (fun state => Option.getD state saved.state) barrier

theorem slotFact_of {events : List HistoryEvent} {refs : List HistoryRef} {claim : ID}
    {row : SlotRow} {r : Eligibility}
    (h : eligibility events refs row.execution claim row.slot.tool = .ok r)
    (fails : physicalFailure r.remaining = true → row.state = .fail)
    (passes : row.state = .pass → r.eligible = true) : SlotFact events claim row := by
  constructor
  · intro failed standing
    exact fails (physical_of_barrier h failed standing)
  · intro passed
    exact (eligibility_eligible h (passes passed)).1

theorem assessSlot_fact {run : SuppliedRun} {bindings : PolicyBindings}
    {current : Option InputState} {loaded : LoadedHistory} {claim : ID}
    {record : Option ClaimRecord} {row row' : SlotRow} {ledger ledger' : Ledger}
    (fresh : row.execution = none)
    (ran : assessSlot D portable run bindings current loaded claim record (row,ledger) =
      (.ok (),(row',ledger'))) : row'.slot = row.slot ∧ SlotFact loaded.events claim row' := by
  simp only [assessSlot, bind_ran, asking_ran, lift_ran, modify_ran, validated_ok] at ran
  obtain ⟨_,_,⟨own,rfl⟩,r,_,⟨found,rfl⟩,_,m,rfl,ran⟩ := ran
  obtain rfl := Except.ok.inj own
  generalize chosen : record.bind (fun record =>
    record.executions.find? (fun slot => slot.slotId = row.slot.slotId)) = saved at found ran
  generalize begins : adopt saved r row = start at ran
  have exclusive := physical_ineligible found
  have place : start.slot = row.slot := begins ▸ adopt_slot saved r row
  have execution : start.execution = saved.bind ClaimSlot.execution :=
    begins ▸ adopt_execution saved r fresh
  have adopted : Adopted start (physicalFailure r.remaining) (start,ledger) :=
    ⟨rfl,rfl,fun physical => begins ▸ adopt_fails physical⟩
  -- whatever row the body leaves, it stands at the place and the execution that were judged
  have judged : ∀ final : SlotRow, final.slot = start.slot → final.execution = start.execution →
      eligibility loaded.events loaded.view.events final.execution claim final.slot.tool = .ok r := by
    intro final sameSlot sameExecution
    rw [sameSlot, sameExecution, place, execution]
    exact found
  rw [catching_ran] at ran
  rcases ran with done | ⟨failure,m,raised,_,handled⟩
  · cases saved with
    | none => simp at done
    | some saved =>
      replace done : assessSaved D portable ⟨run,bindings,current,loaded,claim,saved,r⟩
        (start,ledger) = (.ok (),(row',ledger')) := done
      have kept : Adopted start (physicalFailure r.remaining)
          (assessSaved D portable ⟨run,bindings,current,loaded,claim,saved,r⟩ (start,ledger)).2 :=
        assessSaved_keeps exclusive _ adopted
      rw [done] at kept
      apply And.intro (kept.1.trans place)
      apply slotFact_of (judged row' kept.1 kept.2.1) kept.2.2
      intro passed
      apply assessSaved_pass done _ passed
      rw [← begins]
      rfl
  · have kept : Adopted start (physicalFailure r.remaining) m := by
      cases saved with
      | none =>
        have same := congrArg Prod.snd raised
        exact (show (start,ledger) = m from same) ▸ adopted
      | some saved =>
        replace raised : assessSaved D portable ⟨run,bindings,current,loaded,claim,saved,r⟩
          (start,ledger) = (.error failure,m) := raised
        have after : Adopted start (physicalFailure r.remaining)
            (assessSaved D portable ⟨run,bindings,current,loaded,claim,saved,r⟩ (start,ledger)).2 :=
          assessSaved_keeps exclusive _ adopted
        rw [raised] at after
        exact after
    rw [rejectSlot, modify_ran] at handled
    obtain ⟨rfl,-⟩ := Prod.mk.inj handled
    apply And.intro (kept.1.trans place)
    refine @slotFact_of loaded.events loaded.view.events claim _ r ?_ ?_ ?_
    · exact judged m.1 kept.1 kept.2.1
    · intro physical
      rw [if_pos physical]
      exact kept.2.2 physical
    · intro passed
      by_cases physical : physicalFailure r.remaining = true
      · rw [if_pos physical, kept.2.2 physical] at passed
        exact absurd passed (by decide)
      · rw [if_neg physical] at passed
        cases passed

theorem reassessSlot_fact {loaded : LoadedHistory} {claim : ID} {row row' : SlotRow}
    {ledger ledger' : Ledger}
    (ran : reassessSlot loaded claim (row,ledger) = (.ok (),(row',ledger'))) :
    row'.slot = row.slot ∧ SlotFact loaded.events claim row' := by
  simp only [reassessSlot, bind_ran, asking_ran, lift_ran, modify_ran, validated_ok] at ran
  obtain ⟨_,_,⟨own,rfl⟩,r,_,⟨found,rfl⟩,ran⟩ := ran
  obtain rfl := Except.ok.inj own
  obtain ⟨rfl,-⟩ := Prod.mk.inj ran
  apply And.intro rfl
  refine @slotFact_of loaded.events loaded.view.events claim _ r found ?_ ?_
  · intro physical
    simp only [barrierState_physical.mpr physical]
  · intro passed
    cases barrier : barrierState r.remaining with
    | some state =>
      simp only [barrier] at passed
      exact absurd (barrier.trans (congrArg some passed)) barrierState_pass
    | none =>
      simp only [barrier] at passed
      by_cases eligible : r.eligible = true
      · exact eligible
      · by_cases earlier : row.state = .pass
        · rw [if_pos ⟨Bool.not_eq_true _ ▸ eligible,earlier⟩] at passed
          exact absurd passed (by decide)
        · rw [if_neg (fun both => earlier both.2)] at passed
          exact absurd passed earlier

end Slots

section Rows

variable {D : Digests} {portable : Portable} {bindings : PolicyBindings}

/-- What the history says about a row: with a record its slots decide, and without one a barrier of
the claim fails it and nothing passes it. -/
structure RowFact (bindings : PolicyBindings) (events : List HistoryEvent) (row : Row) : Prop where
  recorded : ∀ expected ∈ mapGet (recordMap bindings.checked.policy.toPolicy) row.claimId,
    row.executions.map SlotRow.slot = expected.executions ∧
    (∀ slot ∈ row.executions, SlotFact events row.claimId slot) ∧
    (.fail ∈ statesOf row → row.result = .fail) ∧
    (row.result = .pass → row.executions ≠ [] ∧ ∀ slot ∈ row.executions, slot.state = .pass)
  outside : mapGet (recordMap bindings.checked.policy.toPolicy) row.claimId = none →
    row.result ≠ .pass ∧
    ((∃ tool ∈ historyTools bindings events row.claimId, FailBarrier events row.claimId tool) →
      row.result = .fail)

theorem rowResult_fail {states : List SlotState} {sound : Bool} (failed : .fail ∈ states) :
    rowResult states sound = .fail := by
  rw [rowResult, if_pos failed]

theorem rowResult_pass {states : List SlotState} {sound : Bool}
    (h : rowResult states sound = .pass) : states ≠ [] ∧ ∀ state ∈ states, state = .pass := by
  unfold rowResult at h
  split_ifs at h with failed passed
  exact ⟨passed.1,passed.2.1⟩

theorem loadClaim_ran {run : SuppliedRun} {expected : PolicyRecord} {record : Option ClaimRecord}
    {s s' : Row × Ledger}
    (ran : loadClaim D portable run bindings expected s = (.ok record,s')) :
    s'.1.claimId = s.1.claimId ∧ s'.1.executions = s.1.executions := by
  unfold loadClaim at ran
  cases read : readClaim D portable run bindings expected with
  | ok saved =>
    simp only [read, bind_ran, modify_ran, pure_ran] at ran
    obtain ⟨_,m,rfl,-,rfl⟩ := ran
    exact ⟨rfl,rfl⟩
  | error failure =>
    by_cases skipped : failure.skipped = true
    · simp only [read, skipped, if_true, bind_ran, modify_ran, pure_ran] at ran
      obtain ⟨_,m,rfl,-,rfl⟩ := ran
      exact ⟨rfl,rfl⟩
    · simp [read, skipped] at ran

theorem eachSlot_ran {body : SlotStep Unit} {s s' : Row × Ledger}
    (ran : eachSlot body s = (.ok (),s')) : ∃ slots, s'.1 = { s.1 with executions := slots } ∧
      entries body (s.1.executions,s.2) = (.ok (),(slots,s'.2)) := by
  rw [eachSlot, within_ran] at ran
  obtain ⟨⟨slots,ledger⟩,done,rfl⟩ := ran
  exact ⟨slots,rfl,done⟩

theorem concludeRow_ran {record : Option ClaimRecord} {s s' : Row × Ledger}
    (ran : concludeRow record s = (.ok (),s')) : s'.1.claimId = s.1.claimId ∧
      s'.1.executions = s.1.executions ∧
      s'.1.result = rowResult (statesOf s.1) (decide (s.1.defects = [])) := by
  simp only [concludeRow, bind_ran, modify_ran] at ran
  obtain ⟨_,m,rfl,ran⟩ := ran
  cases record with
  | none =>
    rw [pure_ran] at ran
    rw [← ran.2]
    exact ⟨rfl,rfl,rfl⟩
  | some record =>
    by_cases agrees : record.result = capturedResult record ∨ record.result = .incomplete
    · simp only [agrees, if_true, pure_ran, true_and] at ran
      rw [← ran]
      exact ⟨rfl,rfl,rfl⟩
    · simp only [agrees, if_false, modify_ran] at ran
      rw [← ran]
      exact ⟨rfl,rfl,rfl⟩

/-- A row before its slots are judged. -/
structure RowStart (bindings : PolicyBindings) (events : List HistoryEvent) (row : Row) :
    Prop where
  shape : ∀ expected ∈ mapGet (recordMap bindings.checked.policy.toPolicy) row.claimId,
    row.executions.map SlotRow.slot = expected.executions
  fresh : ∀ slot ∈ row.executions, slot.execution = none
  outside : mapGet (recordMap bindings.checked.policy.toPolicy) row.claimId = none →
    row.result ≠ .pass ∧
    ((∃ tool ∈ historyTools bindings events row.claimId, FailBarrier events row.claimId tool) →
      row.result = .fail)

/-- Judged slots stand where the slots stood. -/
theorem judged_slots {events : List HistoryEvent} {claim : ID} {slots slots' : List SlotRow}
    (h : List.Forall₂ (fun slot slot' : SlotRow => slot'.slot = slot.slot ∧
      SlotFact events claim slot') slots slots') :
    slots'.map SlotRow.slot = slots.map SlotRow.slot ∧ ∀ slot ∈ slots', SlotFact events claim slot := by
  induction h with
  | nil => exact ⟨rfl,fun _ member => absurd member List.not_mem_nil⟩
  | cons head _ ih =>
    constructor
    · rw [List.map_cons, List.map_cons, head.1, ih.1]
    · intro slot member
      rcases List.mem_cons.mp member with rfl | member
      · exact head.2
      · exact ih.2 slot member

theorem assessRow_fact {run : SuppliedRun} {current : Option InputState} {loaded : LoadedHistory}
    {row row' : Row} {ledger ledger' : Ledger} (start : RowStart bindings loaded.events row)
    (ran : assessRow D portable run bindings current loaded (row,ledger) =
      (.ok (),(row',ledger'))) :
    row'.claimId = row.claimId ∧ RowFact bindings loaded.events row' := by
  simp only [assessRow, bind_ran, asking_ran] at ran
  obtain ⟨_,_,⟨own,rfl⟩,ran⟩ := ran
  obtain rfl := Except.ok.inj own
  cases known : mapGet (recordMap bindings.checked.policy.toPolicy) row.claimId with
  | none =>
    simp only [known, pure_ran, true_and] at ran
    obtain ⟨rfl,-⟩ := Prod.mk.inj ran
    exact ⟨rfl,fun expected found => by rw [known] at found; exact absurd found (by rintro ⟨⟩),start.outside⟩
  | some expected =>
    simp only [known, bind_ran] at ran
    obtain ⟨record,loaded',loads,_,middle,judging,concluding⟩ := ran
    have kept := loadClaim_ran loads
    obtain ⟨slots,written,run⟩ := eachSlot_ran judging
    have closing := concludeRow_ran concluding
    have fresh : ∀ slot ∈ loaded'.1.executions, slot.execution = none := by
      rw [kept.2]
      exact start.fresh
    have slots' := judged_slots (entries_ran
      (fun slot member _ _ _ ran => assessSlot_fact (fresh slot member) ran) run)
    rw [kept.2] at slots'
    have place : row'.executions = slots := by
      rw [closing.2.1, written]
    have claim : row'.claimId = row.claimId := by
      rw [closing.1, written]
      exact kept.1
    have states : statesOf middle.1 = statesOf row' := by
      rw [statesOf, statesOf, closing.2.1]
    apply And.intro claim
    constructor
    · intro other found
      rw [claim, known] at found
      obtain rfl := Option.some.inj found
      rw [place, claim]
      apply And.intro (slots'.1.trans (start.shape expected known))
      apply And.intro slots'.2
      constructor
      · intro failed
        rw [closing.2.2]
        exact rowResult_fail (states ▸ failed)
      · intro passed
        rw [closing.2.2, states] at passed
        have all := rowResult_pass passed
        constructor
        · intro empty
          apply all.1
          rw [statesOf, place, empty]
          rfl
        · intro slot member
          exact all.2 slot.state (List.mem_map_of_mem (place ▸ member))
    · intro missing
      rw [claim, known] at missing
      cases missing

/-- A barrier of a claim that has no record fails the claim. -/
theorem outsideRow_fact (loaded : LoadedHistory) (row : Row) :
    (outsideRow bindings loaded row).result ≠ .pass ∧
    ((∃ tool ∈ historyTools bindings loaded.events row.claimId,
        FailBarrier loaded.events row.claimId tool) →
      (outsideRow bindings loaded row).result = .fail) := by
  constructor
  · unfold outsideRow
    dsimp only
    split <;> exact nofun
  · intro ⟨tool,listed,b,hb,barrier,failed⟩
    unfold outsideRow
    apply if_pos
    rw [List.any_eq_true]
    apply Exists.intro (associationOf loaded row.claimId tool)
    apply And.intro (List.mem_map_of_mem listed)
    apply decide_eq_true
    apply if_pos
    rw [List.any_eq_true]
    exact ⟨b,List.mem_filter.mpr ⟨hb,barrier⟩,decide_eq_true failed⟩

theorem reassessRow_fact {events : List HistoryEvent} {latest : LoadedHistory} {row row' : Row}
    {ledger ledger' : Ledger} (earlier : RowFact bindings events row)
    (ran : reassessRow bindings latest (row,ledger) = (.ok (),(row',ledger'))) :
    row'.claimId = row.claimId ∧ RowFact bindings latest.events row' := by
  simp only [reassessRow, bind_ran, asking_ran] at ran
  obtain ⟨_,_,⟨own,rfl⟩,ran⟩ := ran
  obtain rfl := Except.ok.inj own
  cases known : mapGet (recordMap bindings.checked.policy.toPolicy) row.claimId with
  | none =>
    simp only [known, Option.isSome_none, Bool.false_eq_true, if_false, modify_ran] at ran
    obtain ⟨rfl,-⟩ := Prod.mk.inj ran
    apply And.intro rfl
    constructor
    · intro expected found
      replace found : mapGet (recordMap bindings.checked.policy.toPolicy) row.claimId =
        some expected := found
      rw [known] at found
      cases found
    · exact fun _ => outsideRow_fact latest row
  | some expected =>
    simp only [known, Option.isSome_some, if_true, bind_ran, modify_ran] at ran
    obtain ⟨_,⟨middle,between⟩,judging,ran⟩ := ran
    obtain ⟨slots,written,run⟩ := eachSlot_ran judging
    obtain ⟨shape,-,-,passes⟩ := earlier.recorded expected known
    have slots' := judged_slots (entries_ran (fun _ _ _ _ _ ran => reassessSlot_fact ran) run)
    dsimp only at written
    subst written
    have kept : row'.claimId = row.claimId ∧ row'.executions = slots ∧
        (.fail ∈ slots.map SlotRow.state → row'.result = .fail) ∧
        (row'.result = .pass → row.result = .pass ∧ ∀ slot ∈ slots, slot.state = .pass) := by
      by_cases failed : .fail ∈ slots.map SlotRow.state
      · rw [statesOf, if_pos failed] at ran
        obtain ⟨rfl,-⟩ := Prod.mk.inj ran
        exact ⟨rfl,rfl,fun _ => rfl,by rintro ⟨⟩⟩
      · rw [statesOf, if_neg failed] at ran
        by_cases lost : (∃ state ∈ slots.map SlotRow.state, state ≠ .pass) ∧ row.result = .pass
        · rw [if_pos lost] at ran
          obtain ⟨rfl,-⟩ := Prod.mk.inj ran
          exact ⟨rfl,rfl,fun f => absurd f failed,by rintro ⟨⟩⟩
        · rw [if_neg lost] at ran
          obtain ⟨rfl,-⟩ := Prod.mk.inj ran
          apply And.intro rfl
          apply And.intro rfl
          apply And.intro (fun f => absurd f failed)
          intro passed
          apply And.intro passed
          intro slot member
          by_contra other
          exact lost ⟨⟨slot.state,List.mem_map_of_mem member,other⟩,passed⟩
    apply And.intro kept.1
    constructor
    · intro other found
      rw [kept.1, known] at found
      obtain rfl := Option.some.inj found
      rw [kept.1, statesOf, kept.2.1]
      apply And.intro (slots'.1.trans shape)
      apply And.intro slots'.2
      apply And.intro kept.2.2.1
      intro passed
      obtain ⟨before,all⟩ := kept.2.2.2 passed
      apply And.intro _ all
      intro empty
      apply (passes before).1
      have none' := congrArg List.length slots'.1
      rw [empty] at none'
      simpa using none'.symm
    · intro missing
      rw [kept.1, known] at missing
      cases missing

end Rows

end PortableAssessment

end EvidenceV4
