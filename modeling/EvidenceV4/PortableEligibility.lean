import EvidenceV4.CandidateSelection

/-!
# Eligibility in the portable checker

The portable checker asks whether one recorded execution is still eligible for
a claim and a tool. It matches observations by the execution reference and by
the claim's tool, where the producer matches them by attempt and slot. On an
accepted history the two agree for every member that its descriptor lists under
no second slot.
-/

set_option autoImplicit false

namespace EvidenceV4

namespace PortableEligibility

open CheckedExcept StoreDocument RetainedFiles ExecutionArchive RetainedHistory
open CandidateSelection PrefixLog

def applicable (event : HistoryEvent) (claim : ID) (tool : ToolID) : Bool :=
  if event.kind = .observation ∨ event.kind = .indeterminate ∧ event.claimId.isSome then
    event.claimId = some claim ∧ event.members.any (fun member =>
      member.claimId = claim ∧ some member.slotId = event.slotId ∧ member.tool = tool)
  else event.members.any (fun member => member.claimId = claim ∧ member.tool = tool)

def isBarrier (event : HistoryEvent) (claim : ID) (tool : ToolID) : Bool :=
  (event.result = .fail ∨ event.kind = .indeterminate) ∧ applicable event claim tool

structure Eligibility where
  eligible : Bool
  blocking : List HistoryRef
  remaining : List HistoryEvent
  observed : List HistoryEvent
  deriving DecidableEq

def greatestSequence (events : List HistoryEvent) : ℕ :=
  (events.map (fun event => event.sequence)).foldr max 0

def eligibility (events : List HistoryEvent) (refs : List HistoryRef)
    (execution : Option ExecutionRef) (claim : ID) (tool : ToolID) :
    Except String Eligibility := do
  let blockers := events.filter (fun event => isBarrier event claim tool)
  let barrier := greatestSequence blockers
  let successes := events.filter (fun event =>
    event.kind = .execution ∧ event.result = .pass ∧ event.execution = execution)
  check (successes.length ≤ 1) "duplicate execution PASS event for same physical attempt"
  let sequence := (successes.head?.map (fun event => event.sequence)).getD 0
  let observed := events.filter (fun event =>
    event.kind = .observation ∧ event.result = .pass ∧ event.execution = execution ∧
      applicable event claim tool ∧ sequence < event.sequence)
  let eligible := decide (barrier < sequence) && !observed.isEmpty
  let remaining := blockers.filter (fun event => !eligible || decide (sequence ≤ event.sequence))
  pure
    { eligible := eligible
      blocking := blockers.filterMap (fun event => refs[event.sequence-1]?)
      remaining := remaining
      observed := observed }

/-- How the checker reads the barriers that remain. -/
def classification (barriers : List HistoryEvent) : SlotState :=
  if barriers.any (fun event => event.result = .fail) then .fail
  else if barriers.isEmpty then .missing
  else .error

section Agreement

variable {D : Digests} {s : Store} {events : List HistoryEvent} {event : HistoryEvent}
  {M : Member} {descriptor : ExecutionDescriptor}

theorem applicable_iff {claim : ID} {tool : ToolID} :
    applicable event claim tool ↔
      ∃ item ∈ event.members, (item.claimId = claim ∧ item.tool = tool) ∧
        (event.kind = .observation ∨ event.kind = .indeterminate ∧ event.claimId.isSome →
          Selects event.toEventInput item) := by
  unfold applicable
  split
  · next level =>
    simp only [level, true_imp_iff, decide_eq_true_eq, List.any_eq_true, Selects]
    constructor
    · rintro ⟨hc,item,hm,rfl,hs,ht⟩
      exact ⟨item,hm,⟨rfl,ht⟩,hc,hs.symm⟩
    · rintro ⟨item,hm,⟨rfl,ht⟩,hc,hs⟩
      exact ⟨hc,item,hm,rfl,hs.symm,ht⟩
  · next level => simp [level]

/-- The two barrier tests are one test. -/
theorem isBarrier_eq (event : HistoryEvent) (M : Member) :
    isBarrier event M.claimId M.tool = barrierApplies event M := by
  rw [Bool.eq_iff_iff, barrierApplies_iff, isBarrier, decide_eq_true_eq, applicable_iff]
  rfl

theorem greatestSequence_lt {n : ℕ} (hn : 0 < n) :
    greatestSequence events < n ↔ ∀ e ∈ events, e.sequence < n := by
  induction events with
  | nil => simpa [greatestSequence] using hn
  | cons e events ih =>
    have step : greatestSequence (e :: events) = max e.sequence (greatestSequence events) := rfl
    rw [step, Nat.max_lt, ih]
    simp

theorem greatestSequence_barriers {n : ℕ} (hn : 0 < n) :
    greatestSequence (events.filter (fun event => isBarrier event M.claimId M.tool)) < n ↔
      ∀ b ∈ events, barrierApplies b M → b.sequence < n := by
  rw [greatestSequence_lt hn]
  simp [isBarrier_eq]

/-- The passing events of one reference. -/
theorem successes_eq (chain : Chain D s events) {e : HistoryEvent} (he : e ∈ events)
    {ref : ExecutionRef} (hk : e.kind = .execution) (hp : e.result = .pass)
    (href : e.execution = some ref) :
    events.filter (fun event =>
      event.kind = .execution ∧ event.result = .pass ∧ event.execution = some ref) = [e] := by
  refine numbered_filter_singleton (chain_numbered chain) he (by simp [hk, hp, href]) ?_
  intro y hy match_
  simp only [decide_eq_true_eq] at match_
  exact execution_of_reference chain hy he match_.1 hk match_.2.2 href

/-- A passing observation of an execution belongs to its attempt and has its members. -/
theorem observation_execution (chain : Chain D s events) {e o : HistoryEvent} (he : e ∈ events)
    (ho : o ∈ events) {ref : ExecutionRef} (hk : e.kind = .execution)
    (href : e.execution = some ref) (ko : o.kind = .observation) (hor : o.execution = some ref) :
    SameAttempt o.toEventInput e.toEventInput ∧ e.members = o.members := by
  obtain ⟨a,ha,_,same,ka,_,members,execution⟩ := observation_after_execution chain ho ko
  have eq : a = e := execution_of_reference chain ha he ka hk (execution.trans hor) href
  subst eq
  exact ⟨same,members⟩

/-- The members of an execution event are those of the artifact it names. -/
theorem execution_members (chain : Chain D s events) {e : HistoryEvent} (he : e ∈ events)
    (hk : e.kind = .execution) {ref : ExecutionRef} (href : e.execution = some ref)
    {artifact : ExecutionArtifact} (read : readExecution D s ref none = .ok artifact) :
    e.executionKey = D.executionKey artifact.descriptor ∧
      e.members = artifact.descriptor.members := by
  obtain ⟨artifact',read',key,_,_,members⟩ := execution_artifact chain he hk href
  obtain rfl := Except.ok.inj (read.symm.trans read')
  exact ⟨key.symm.trans (readExecution_key read),members.symm⟩

/-- An eligible execution of the producer is eligible for the checker. -/
theorem eligibility_of_eligible (chain : Chain D s events) {e : HistoryEvent}
    (inside : M ∈ descriptor.members) (h : EligibleExecution D descriptor events M e)
    {ref : ExecutionRef} (href : e.execution = some ref) {artifact : ExecutionArtifact}
    (read : readExecution D s ref none = .ok artifact) (same : artifact.descriptor = descriptor)
    (refs : List HistoryRef) :
    ∃ r, eligibility events refs (some ref) M.claimId M.tool = .ok r ∧ r.eligible = true ∧
      r.blocking = (events.filter (fun event => isBarrier event M.claimId M.tool)).filterMap
        (fun event => refs[event.sequence-1]?) := by
  obtain ⟨o,ho,⟨ko,po,_,hattempt,selects⟩,later⟩ := h.confirmed
  have passing := h.passing
  have clear := (greatestSequence_barriers (M := M) (numbered_pos (chain_numbered chain) h.mem)).mpr
    h.clear
  obtain ⟨a,ha,_,sameAttempt,ka,_,members,execution⟩ := observation_after_execution chain ho ko
  have isE : a = e := by
    refine execution_unique chain ha h.mem ka passing.1 ⟨?_,?_⟩
    · rw [sameAttempt.1]
      tauto
    · rw [sameAttempt.2, hattempt]
  subst isE
  have recorded : M ∈ o.members := by
    rw [← members, (execution_members chain ha ka href read).2, same]
    exact inside
  have applies : applicable o M.claimId M.tool = true := by
    simp only [applicable, ko, true_or, ite_true, selects.1, true_and, decide_eq_true_eq]
    exact List.any_eq_true.mpr ⟨M,recorded,by simp [selects.2]⟩
  have observed : o ∈ events.filter (fun event => event.kind = .observation ∧
      event.result = .pass ∧ event.execution = some ref ∧ applicable event M.claimId M.tool ∧
        a.sequence < event.sequence) := by
    simp [ho, ko, po, applies, later, ← execution, href]
  simp only [eligibility, successes_eq chain ha ka passing.2.1 href, List.length_singleton,
    le_refl, List.head?_cons, Option.map_some, Option.getD_some, bind_ok, exists_unit, check_ok,
    true_and, pure_ok, exists_eq_left', Bool.and_eq_true, decide_eq_true_eq, clear,
    Bool.not_eq_true', and_true]
  exact List.isEmpty_eq_false_iff_exists_mem.mpr ⟨o,observed⟩

/-- The checker never fails on an accepted history, and its verdict has the stated grounds. -/
theorem eligibility_grounds (chain : Chain D s events) (refs : List HistoryRef)
    (ref : ExecutionRef) (claim : ID) (tool : ToolID) :
    ∃ r, eligibility events refs (some ref) claim tool = .ok r ∧
      (r.eligible = true → ∃ e ∈ events, ∃ o ∈ events, e.kind = .execution ∧ e.result = .pass ∧
        e.execution = some ref ∧ greatestSequence (events.filter (fun event =>
          isBarrier event claim tool)) < e.sequence ∧ o.kind = .observation ∧ o.result = .pass ∧
        o.execution = some ref ∧ applicable o claim tool ∧ e.sequence < o.sequence) ∧
      (r.eligible = false → r.remaining = events.filter (fun event => isBarrier event claim tool))
      := by
  by_cases found : ∃ e ∈ events, e.kind = .execution ∧ e.result = .pass ∧ e.execution = some ref
  · obtain ⟨e,he,hk,hp,href⟩ := found
    simp only [eligibility, successes_eq chain he hk hp href, List.length_singleton, le_refl,
      List.head?_cons, Option.map_some, Option.getD_some, bind_ok, exists_unit, check_ok,
      true_and, pure_ok, exists_eq_left']
    constructor
    · intro eligible
      simp only [Bool.and_eq_true, decide_eq_true_eq, Bool.not_eq_true',
        List.isEmpty_eq_false_iff_exists_mem, List.mem_filter] at eligible
      obtain ⟨clear,o,ho,ko,po,hor,applies,later⟩ := eligible
      exact ⟨e,he,o,ho,hk,hp,href,clear,ko,po,hor,applies,later⟩
    · intro ineligible
      rw [ineligible]
      exact List.filter_eq_self.mpr (fun _ _ => rfl)
  · have none : events.filter (fun event =>
        event.kind = .execution ∧ event.result = .pass ∧ event.execution = some ref) = [] := by
      refine List.filter_eq_nil_iff.mpr (fun e he match_ => found ⟨e,he,?_⟩)
      simpa using match_
    simp only [eligibility, none, List.length_nil, List.head?_nil, Option.map_none,
      Option.getD_none, bind_ok, exists_unit, check_ok, pure_ok, Nat.not_lt_zero, decide_false,
      Bool.false_and, Bool.not_false, Bool.true_or]
    exact ⟨_,⟨Nat.zero_le 1,rfl⟩,by rintro ⟨⟩,fun _ => List.filter_eq_self.mpr (fun _ _ => rfl)⟩

/-- What the checker finds eligible is an eligible execution of the producer, for a member that
its descriptor lists under no second slot. -/
theorem eligible_of_grounds (chain : Chain D s events)
    (alone : ∀ other ∈ descriptor.members, SameTool other M → other = M) {ref : ExecutionRef}
    {artifact : ExecutionArtifact} (read : readExecution D s ref none = .ok artifact)
    (same : artifact.descriptor = descriptor) {e o : HistoryEvent} (he : e ∈ events)
    (ho : o ∈ events) (hk : e.kind = .execution) (hp : e.result = .pass)
    (href : e.execution = some ref)
    (clear : greatestSequence (events.filter (fun event => isBarrier event M.claimId M.tool)) <
      e.sequence)
    (ko : o.kind = .observation) (po : o.result = .pass) (hor : o.execution = some ref)
    (applies : applicable o M.claimId M.tool) (later : e.sequence < o.sequence) :
    EligibleExecution D descriptor events M e := by
  obtain ⟨key,members⟩ := execution_members chain he hk href read
  rw [same] at key members
  obtain ⟨attempt,shared⟩ := observation_execution chain he ho hk href ko hor
  obtain ⟨item,hi,sameTool,selects⟩ := applicable_iff.mp applies
  have listed : item ∈ descriptor.members := by
    rw [← members, shared]
    exact hi
  have isM := alone item listed sameTool
  subst isM
  exact ⟨he,⟨hk,hp,key⟩,
    (greatestSequence_barriers (numbered_pos (chain_numbered chain) he)).mp clear,
    o,ho,⟨ko,po,attempt.1.symm,attempt.2.symm,selects (Or.inl ko)⟩,later⟩

/-- The checker's reading of all barriers is the state of a selection without candidate. -/
theorem classification_state {selection : CandidateSelection}
    (exact : ExactSelection D s descriptor events M selection) (none : selection.candidate = none) :
    classification (events.filter (fun event => isBarrier event M.claimId M.tool)) =
      selection.state := by
  simp only [isBarrier_eq]
  by_cases failed : ∃ b ∈ events, barrierApplies b M ∧ b.result = .fail
  · rw [(exact.fail none).mpr failed]
    have any : (events.filter (fun event => barrierApplies event M)).any
        (fun event => event.result = .fail) = true := by
      obtain ⟨b,hb,applies,fail⟩ := failed
      exact List.any_eq_true.mpr ⟨b,List.mem_filter.mpr ⟨hb,applies⟩,by simpa using fail⟩
    rw [classification, if_pos any]
  · have clean : ∀ b ∈ events, barrierApplies b M → b.result ≠ .fail :=
      fun b hb applies fail => failed ⟨b,hb,applies,fail⟩
    have any : (events.filter (fun event => barrierApplies event M)).any
        (fun event => event.result = .fail) = false := by
      simpa using clean
    by_cases blocked : ∃ b ∈ events, barrierApplies b M
    · rw [(exact.error none).mpr ⟨blocked,clean⟩]
      have some : (events.filter (fun event => barrierApplies event M)).isEmpty = false := by
        simpa using blocked
      rw [classification, any, some]
      rfl
    · have free : ∀ b ∈ events, barrierApplies b M = false := by simpa using blocked
      rw [(exact.missing none).mpr free]
      have empty : (events.filter (fun event => barrierApplies event M)).isEmpty = true := by
        simpa using free
      rw [classification, any, empty]
      rfl

end Agreement

/-- On an accepted history a candidate of the producer is eligible for the checker with the same
blocking references. Without a candidate no execution of the descriptor is eligible for the checker
and its reading of the barriers is the state of the selection, for every member whose claim and tool
stand in the descriptor once. -/
theorem eligibility_agrees (D : Digests) (s : Store) (captured : Option HistoryView)
    (allowUnaccounted : Bool) (snapshot : HistorySnapshot)
    (loaded : loadHistory D s captured allowUnaccounted = .ok snapshot)
    (descriptor : ExecutionDescriptor) (selected : List Member)
    (selections : List CandidateSelection)
    (returned : selectCandidates D s descriptor selected snapshot = .ok selections)
    (selection : CandidateSelection) (hs : selection ∈ selections) :
    let M := selection.member
    (∀ c ∈ selection.candidate, ∃ r,
      eligibility snapshot.events snapshot.view.events (some c.execution) M.claimId M.tool = .ok r ∧
        r.eligible = true ∧ r.blocking = selection.blockingEvents) ∧
    (selection.candidate = none →
      (∀ other ∈ descriptor.members, SameTool other M → other = M) →
      ∀ ref artifact, readExecution D s ref none = .ok artifact →
        artifact.descriptor = descriptor → ∃ r,
          eligibility snapshot.events snapshot.view.events (some ref) M.claimId M.tool = .ok r ∧
            r.eligible = false ∧ classification r.remaining = selection.state) := by
  obtain ⟨chain,shape⟩ := loadHistory_chain loaded
  have inside := selectCandidates_members returned
  rw [shape] at returned
  obtain ⟨M,hM,exact⟩ := forall₂_mem_right (selectCandidates_each chain returned) hs
  obtain rfl := exact.selected
  refine ⟨?_,?_⟩
  · intro c hc
    obtain ⟨e,_,ec⟩ := exact.exact c hc
    obtain ⟨r,hr,eligible,blocking⟩ := eligibility_of_eligible chain (inside _ hM) ec.eligible
      ec.execution ec.artifact ec.same snapshot.view.events
    refine ⟨r,hr,eligible,?_⟩
    have references := blocking_references chain
      (fun event => isBarrier event selection.member.claimId selection.member.tool)
    rw [← shape] at references
    rw [blocking, references, exact.blocking]
    simp only [isBarrier_eq]
  · intro none alone ref artifact read same
    obtain ⟨r,hr,eligible,ineligible⟩ := eligibility_grounds chain snapshot.view.events ref
      selection.member.claimId selection.member.tool
    have no : r.eligible = false := by
      by_contra yes
      obtain ⟨e,he,o,ho,hk,hp,href,clear,ko,po,hor,applies,later⟩ :=
        eligible (by simpa using yes)
      have found := exact.candidate.mpr ⟨e,eligible_of_grounds chain alone read same he ho hk hp
        href clear ko po hor applies later⟩
      simp [none] at found
    exact ⟨r,hr,no,by rw [ineligible no, classification_state exact none]⟩

section Samples

def sampleSelection : CandidateSelection where
  member := sampleMember "s1" "t1"
  candidate := some ⟨sampleExecution "a1",sampleArtifact "a1" .pass,1,
    ⟨observationPath "r1" "check.json","check-5r1",1⟩⟩
  blockingEvents := []
  state := .pass

theorem eligibility_agrees_sample :
    let snapshot := sampleHistory sampleStore sampleInputs
    (∀ c ∈ sampleSelection.candidate, ∃ r,
      eligibility snapshot.events snapshot.view.events (some c.execution) "claim" "t1" = .ok r ∧
        r.eligible = true ∧ r.blocking = []) ∧
    (sampleSelection.candidate = none →
      (∀ other ∈ sampleDescriptor.members, SameTool other (sampleMember "s1" "t1") →
        other = sampleMember "s1" "t1") →
      ∀ ref artifact, readExecution sampleDigests sampleStore ref none = .ok artifact →
        artifact.descriptor = sampleDescriptor → ∃ r,
          eligibility snapshot.events snapshot.view.events (some ref) "claim" "t1" = .ok r ∧
            r.eligible = false ∧ classification r.remaining = .pass) :=
  eligibility_agrees sampleDigests sampleStore none false _ (by decide +kernel) sampleDescriptor
    [sampleMember "s1" "t1"] [sampleSelection] (by decide +kernel) sampleSelection (by simp)

/-- A descriptor that binds the claim to one tool through two slots. -/
def twinDescriptor : ExecutionDescriptor :=
  { sampleDescriptor with members := [sampleMember "s1" "t2",sampleMember "s2" "t2"] }

def twinArtifact : ExecutionArtifact :=
  { sampleArtifact "a1" .pass with descriptor := twinDescriptor }

def twinInputs : List EventInput :=
  [{ executionInput "a1" .pass with members := twinDescriptor.members },
    { observationInput "r1" "a1" "s2" .pass with members := twinDescriptor.members }]

def twinStore : Store where
  files := ⟨executionPath sampleKey "a1",canonical (.execution twinArtifact),1⟩ ::
    (sampleExecutionFiles "a1" .pass).drop 1 ++
    sampleObservationFiles "r1" "a1" [("s2",.pass)] .pass ++ historyFiles (retain twinInputs)
  distinct := by decide +kernel

/-- An observation of the second slot makes the execution eligible for the checker, while the
first slot has no candidate. -/
theorem eligibility_disagrees :
    let snapshot := sampleHistory twinStore twinInputs
    loadHistory sampleDigests twinStore none false = .ok snapshot ∧
    selectCandidates sampleDigests twinStore twinDescriptor [sampleMember "s1" "t2"] snapshot =
      .ok [⟨sampleMember "s1" "t2",none,[],.missing⟩] ∧
    readExecution sampleDigests twinStore (sampleExecution "a1") none = .ok twinArtifact ∧
    twinArtifact.descriptor = twinDescriptor ∧
    (eligibility snapshot.events snapshot.view.events (some (sampleExecution "a1")) "claim" "t2").map
      Eligibility.eligible = .ok true := by
  refine ⟨?_,?_,?_,rfl,?_⟩ <;> decide +kernel

end Samples

end PortableEligibility

end EvidenceV4
