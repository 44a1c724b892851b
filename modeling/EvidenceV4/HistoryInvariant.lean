import EvidenceV4.RetainedHistory

/-!
# What an accepted history satisfies

A scan accepts exactly the chains: each event is judged against the events
before it, so acceptance is a prefixwise property and an append is decided by
the new event. From the bindings of single events follow the facts about whole
histories: an attempt has one execution event, nothing settles an attempt twice
before its execution, and observations follow a passing execution.
-/

set_option autoImplicit false

namespace EvidenceV4

namespace RetainedHistory

open CheckedExcept StoreDocument RetainedFiles ExecutionArchive PrefixLog

/-- The reference to a retained event. -/
def reference (D : Digests) (s : Store) (event : HistoryEvent) : HistoryRef :=
  ⟨event.sequence,event.eventId,.history event.sequence,
    ((lookup s (.history event.sequence)).map (fun f => D.bytes f.content)).getD ""⟩

def headOf (D : Digests) (s : Store) (events : List HistoryEvent) : Option HistoryRef :=
  (events.map (reference D s)).getLast?

/-- The event is retained after the events in `before` and passes every check of the scan. -/
structure Accepted (D : Digests) (s : Store) (before : List HistoryEvent) (event : HistoryEvent) :
    Prop where
  stored : ∃ spelling,
    lookup s (.history event.sequence) = some ⟨.history event.sequence,⟨.event event,spelling⟩,1⟩
  document : validateHistoryEvent D event = .ok ()
  sequence : event.sequence = before.length+1
  previous : event.previous = headOf D s before
  bindings : validateEventBindings D s event before = .ok ()

/-- Every event is accepted after its predecessors. -/
def Chain (D : Digests) (s : Store) (events : List HistoryEvent) : Prop :=
  Prefixwise (Accepted D s) events

def snapshotOf (D : Digests) (s : Store) (events : List HistoryEvent) : HistorySnapshot :=
  ⟨⟨headOf D s events,events.map (reference D s)⟩,events⟩

variable {D : Digests} {s s' : Store} {events before : List HistoryEvent}
  {event : HistoryEvent} {snapshot : HistorySnapshot}

section Scan

theorem reference_eq {spelling : ℕ}
    (h : lookup s (.history event.sequence) =
      some ⟨.history event.sequence,⟨.event event,spelling⟩,1⟩) :
    reference D s event =
      ⟨event.sequence,event.eventId,.history event.sequence,D.bytes ⟨.event event,spelling⟩⟩ := by
  simp [reference, h]

theorem document_digest (h : validateHistoryEvent D event = .ok ()) :
    event.eventId = D.historyEvent event.toUnsignedEvent := by
  simp only [validateHistoryEvent, bind_ok, exists_unit, check_ok] at h
  exact h.2.2.1

/-- One round of the scan appends one accepted event. -/
theorem scanEvent_ok (name : ℕ) :
    scanEvent D s (snapshotOf D s before) name = .ok snapshot ↔
      ∃ event, name = before.length+1 ∧ Accepted D s before event ∧
        snapshot = snapshotOf D s (before ++ [event]) := by
  simp only [scanEvent, bind_ok, exists_unit, require_ok, readBytes_ok, pure_ok, asEvent_ok]
  simp only [snapshotOf]
  constructor
  · rintro ⟨rfl,⟨content,spelling⟩,stored,event,rfl,document,⟨hs,hp,_⟩,bindings,rfl⟩
    have here : lookup s (.history event.sequence) =
        some ⟨.history event.sequence,⟨.event event,spelling⟩,1⟩ := hs ▸ stored
    refine ⟨event,rfl,⟨⟨spelling,here⟩,document,hs,hp,bindings⟩,?_⟩
    have shown := reference_eq (D := D) here
    simp only [headOf, List.map_append, List.map_cons, List.map_nil, List.getLast?_append,
      List.getLast?_singleton, Option.some_or, shown, hs]
  · rintro ⟨event,rfl,accepted,rfl⟩
    obtain ⟨spelling,stored⟩ := accepted.stored
    have shown := reference_eq (D := D) stored
    refine ⟨rfl,⟨.event event,spelling⟩,accepted.sequence ▸ stored,event,rfl,accepted.document,
      ⟨accepted.sequence,accepted.previous,(document_digest accepted.document).symm⟩,
      accepted.bindings,?_⟩
    simp only [headOf, List.map_append, List.map_cons, List.map_nil, List.getLast?_append,
      List.getLast?_singleton, Option.some_or, shown, accepted.sequence]

theorem scan_run (names : List ℕ) (before : List HistoryEvent) :
    names.foldlM (scanEvent D s) (snapshotOf D s before) = .ok snapshot ↔
      ∃ more, snapshot = snapshotOf D s (before ++ more) ∧
        names = List.range' (before.length+1) more.length ∧
        Prefixwise (fun mid event => Accepted D s (before ++ mid) event) more := by
  induction names generalizing before with
  | nil =>
    simp only [List.foldlM_nil, pure_ok]
    constructor
    · rintro rfl
      exact ⟨[],by simp,rfl,prefixwise_nil _⟩
    · rintro ⟨more,rfl,e,_⟩
      have : more = [] := by simpa [eq_comm] using congrArg List.length e
      simp [this]
  | cons name names ih =>
    simp only [List.foldlM_cons, bind_ok, scanEvent_ok]
    constructor
    · rintro ⟨_,⟨event,rfl,accepted,rfl⟩,rest⟩
      obtain ⟨more,rfl,rfl,later⟩ := (ih _).mp rest
      refine ⟨event :: more,by simp,by simp [List.range'],?_⟩
      rw [prefixwise_cons]
      exact ⟨by simpa using accepted,by simpa using later⟩
    · rintro ⟨more,rfl,e,accepted⟩
      cases more with
      | nil => simp at e
      | cons event more =>
        simp only [List.length_cons, List.range'_succ, List.cons.injEq] at e
        rw [prefixwise_cons] at accepted
        refine ⟨_,⟨event,e.1,by simpa using accepted.1,rfl⟩,(ih _).mpr ⟨more,by simp,?_,?_⟩⟩
        · simpa using e.2
        · simpa using accepted.2

/-- The scan accepts exactly the chains that fill the directory. -/
theorem scan_ok (names : List ℕ) :
    names.foldlM (scanEvent D s) emptyHistory = .ok snapshot ↔
      ∃ events, snapshot = snapshotOf D s events ∧ names = List.range' 1 events.length ∧
        Chain D s events := by
  simpa [Chain, snapshotOf, headOf, emptyHistory] using scan_run (D := D) (s := s) names []

theorem loadHistory_ok {captured : Option HistoryView} {allowUnaccounted : Bool} :
    loadHistory D s captured allowUnaccounted = .ok snapshot ↔
      ∃ events, snapshot = snapshotOf D s events ∧
        historyNames s = List.range' 1 events.length ∧ Chain D s events ∧
        (∀ view ∈ captured, validateHistoryView view = .ok () ∧
          RetainedPrefix view snapshot.view) ∧
        (allowUnaccounted = false → validateAttemptAccounting D s events = .ok () ∧
          validateObservationAccounting D s events = .ok ()) := by
  have accounting : ∀ loaded : HistorySnapshot,
      ((if allowUnaccounted then pure loaded
        else do
          validateAttemptAccounting D s loaded.events
          validateObservationAccounting D s loaded.events
          pure loaded : Except String HistorySnapshot) = .ok snapshot) ↔
      loaded = snapshot ∧ (allowUnaccounted = false →
        validateAttemptAccounting D s loaded.events = .ok () ∧
          validateObservationAccounting D s loaded.events = .ok ()) := by
    intro loaded
    cases allowUnaccounted
    · simp only [Bool.false_eq_true, ite_false, bind_ok, exists_unit, pure_ok, true_imp_iff]
      tauto
    · simp
  simp only [loadHistory, bind_ok, exists_unit, scan_ok, forM_ok, Option.mem_toList, require_ok,
    accounting]
  constructor
  · rintro ⟨_,⟨events,rfl,names,chain⟩,views,rfl,accounted⟩
    exact ⟨events,rfl,names,chain,views,accounted⟩
  · rintro ⟨events,rfl,names,chain,views,accounted⟩
    exact ⟨_,⟨events,rfl,names,chain⟩,views,rfl,accounted⟩

/-- The events of an accepted history form a chain, and the view lists their references. -/
theorem loadHistory_chain {captured : Option HistoryView} {allowUnaccounted : Bool}
    (h : loadHistory D s captured allowUnaccounted = .ok snapshot) :
    Chain D s snapshot.events ∧ snapshot = snapshotOf D s snapshot.events := by
  obtain ⟨events,rfl,_,chain,_⟩ := loadHistory_ok.mp h
  exact ⟨chain,rfl⟩

theorem chain_concat : Chain D s (events ++ [event]) ↔ Chain D s events ∧ Accepted D s events event :=
  prefixwise_concat _ _ _

theorem chain_append_left {more : List HistoryEvent} (h : Chain D s (events ++ more)) :
    Chain D s events :=
  prefixwise_append_left h

theorem chain_mem (h : Chain D s events) (hm : event ∈ events) :
    ∃ before after, events = before ++ event :: after ∧ Accepted D s before event :=
  prefixwise_mem h hm

theorem chain_numbered (h : Chain D s events) :
    Numbered (fun e : HistoryEvent => e.sequence) events :=
  prefixwise_mono (fun _ _ accepted => accepted.sequence) h

theorem chain_increasing (h : Chain D s events) :
    events.Pairwise (fun a b => a.sequence < b.sequence) :=
  numbered_pairwise (chain_numbered h)

/-- The view holds the reference of an event at its number. -/
theorem snapshotOf_view (h : Chain D s events) (hm : event ∈ events) :
    (snapshotOf D s events).view.events[event.sequence-1]? = some (reference D s event) := by
  have found := numbered_getElem? (chain_numbered h) hm
  simp [snapshotOf, found]

end Scan

section Bindings

/-- What is known of an accepted execution event. -/
structure ExecutionFacts (D : Digests) (s : Store) (before : List HistoryEvent)
    (event : HistoryEvent) : Prop where
  fresh : ∀ item ∈ before, SameAttempt event.toEventInput item.toEventInput → ¬ SettlesAttempt item
  unselected : event.claimId = none ∧ event.slotId = none
  backed : ∀ ref ∈ event.execution, ∃ artifact, readExecution D s ref none = .ok artifact ∧
    artifact.executionKey = event.executionKey ∧ artifact.attemptId = event.attemptId ∧
    artifact.result = event.result ∧ artifact.descriptor.members = event.members
  passing : event.result = .pass → event.execution.isSome

/-- What is known of an accepted observation event. -/
structure ObservationFacts (D : Digests) (s : Store) (before : List HistoryEvent)
    (event : HistoryEvent) : Prop where
  selected : ∃ m ∈ event.members, Selects event.toEventInput m
  actual : ∃ a ∈ before, SameAttempt event.toEventInput a.toEventInput ∧ a.kind = .execution ∧
    a.result = .pass ∧ a.members = event.members ∧ a.execution = event.execution
  receipt : observationResult D s event = .ok ()
  passing : event.result = .pass → event.observation.isSome

/-- What is known of an accepted indeterminate event. -/
structure IndeterminateFacts (D : Digests) (s : Store) (before : List HistoryEvent)
    (event : HistoryEvent) : Prop where
  error : event.result = .error
  selected : event.claimId.isSome → ∃ m ∈ event.members, Selects event.toEventInput m
  actual : event.claimId.isSome → ∃ a ∈ before, SameAttempt event.toEventInput a.toEventInput ∧
    a.kind = .execution ∧ a.result = .pass ∧ a.members = event.members
  partialSelection : event.claimId.isNone = event.slotId.isNone
  binding : indeterminateBindings D s event before = .ok ()

theorem mem_sameAttempt {item : HistoryEvent} :
    item ∈ sameAttempt event before ↔
      item ∈ before ∧ SameAttempt event.toEventInput item.toEventInput := by
  simp [sameAttempt]

theorem actualExecution_some {actual : HistoryEvent}
    (h : actualExecution event before = some actual) :
    actual ∈ before ∧ SameAttempt event.toEventInput actual.toEventInput ∧
      actual.kind = .execution := by
  have hm := mem_sameAttempt.mp (List.mem_of_find?_eq_some h)
  exact ⟨hm.1,hm.2,by simpa using List.find?_some h⟩

theorem accepted_execution (h : Accepted D s before event) (k : event.kind = .execution) :
    ExecutionFacts D s before event := by
  have bindings := h.bindings
  simp only [validateEventBindings, k, executionBindings, bind_ok, exists_unit, require_ok]
    at bindings
  obtain ⟨fresh,fields,backed⟩ := bindings
  refine ⟨fun item hm same => fresh item (mem_sameAttempt.mpr ⟨hm,same⟩),⟨fields.1,fields.2.1⟩,
    ?_,?_⟩
  · intro ref href
    simp only [Option.mem_def] at href
    simpa [href] using backed
  · intro pass
    cases href : event.execution with
    | none => simp [href, pass] at backed
    | some ref => rfl

theorem selection_facts (h : selectionBindings event before = .ok ()) :
    event.claimId.isNone = event.slotId.isNone ∧
      (event.claimId.isSome → ∃ m ∈ event.members, Selects event.toEventInput m) ∧
      (event.kind = .observation ∨ event.claimId.isSome →
        ∃ actual, actualExecution event before = some actual ∧
          actual.result = .pass ∧ actual.members = event.members) := by
  simpa [selectionBindings] using h

theorem accepted_observation (h : Accepted D s before event) (k : event.kind = .observation) :
    ObservationFacts D s before event := by
  have bindings := h.bindings
  simp only [validateEventBindings, k, bind_ok, exists_unit, require_ok] at bindings
  obtain ⟨selection,⟨some,_,execution⟩,receipt⟩ := bindings
  obtain ⟨_,selects,actual⟩ := selection_facts selection
  obtain ⟨a,found,pass,members⟩ := actual (Or.inl k)
  obtain ⟨hm,same,ka⟩ := actualExecution_some found
  refine ⟨selects some,⟨a,hm,same,ka,pass,members,execution a found⟩,receipt,?_⟩
  have document := h.document
  simp only [validateHistoryEvent, bind_ok, exists_unit, check_ok] at document
  exact fun hp => ((document.2.2.2.2.2.1 k).2.2 hp).2

theorem accepted_indeterminate (h : Accepted D s before event) (k : event.kind = .indeterminate) :
    IndeterminateFacts D s before event := by
  have bindings := h.bindings
  simp only [validateEventBindings, k, bind_ok, exists_unit] at bindings
  obtain ⟨selection,binding⟩ := bindings
  obtain ⟨whole,selects,actual⟩ := selection_facts selection
  have document := h.document
  simp only [validateHistoryEvent, bind_ok, exists_unit, check_ok] at document
  refine ⟨(document.2.2.2.2.2.2 k).1,selects,?_,whole,binding⟩
  intro some
  obtain ⟨a,found,pass,members⟩ := actual (Or.inr some)
  obtain ⟨hm,same,ka⟩ := actualExecution_some found
  exact ⟨a,hm,same,ka,pass,members⟩

theorem accepted_members (h : Accepted D s before event) :
    event.members ≠ [] ∧ (event.members.map memberKey).Nodup := by
  have document := h.document
  simp only [validateHistoryEvent, members, bind_ok, exists_unit, Schema.ensure_ok] at document
  exact ⟨document.2.1.1,document.2.1.2.nodup⟩

end Bindings

section Attempts

/-- An attempt has at most one execution event. -/
theorem execution_unique (h : Chain D s events) {a b : HistoryEvent} (ha : a ∈ events)
    (hb : b ∈ events) (ka : a.kind = .execution) (kb : b.kind = .execution)
    (same : SameAttempt a.toEventInput b.toEventInput) : a = b := by
  have numbered := chain_numbered h
  obtain ⟨beforeA,_,ea,acceptedA⟩ := chain_mem h ha
  obtain ⟨beforeB,_,eb,acceptedB⟩ := chain_mem h hb
  rcases Nat.lt_trichotomy a.sequence b.sequence with lt | eq | gt
  · have earlier := (numbered_of_before numbered eb ha).mpr lt
    exact absurd (Or.inl ka)
      ((accepted_execution acceptedB kb).fresh a earlier ⟨same.1.symm,same.2.symm⟩)
  · exact numbered_injective numbered ha hb eq
  · have earlier := (numbered_of_before numbered ea hb).mpr gt
    exact absurd (Or.inl kb) ((accepted_execution acceptedA ka).fresh b earlier same)

/-- No execution event follows an execution-level indeterminate event of its attempt. -/
theorem execution_before_indeterminate (h : Chain D s events) {a b : HistoryEvent}
    (ha : a ∈ events) (hb : b ∈ events) (ka : a.kind = .indeterminate) (ca : a.claimId = none)
    (kb : b.kind = .execution) (same : SameAttempt b.toEventInput a.toEventInput) :
    b.sequence < a.sequence := by
  obtain ⟨beforeB,_,eb,acceptedB⟩ := chain_mem h hb
  by_contra ge
  have numbered := chain_numbered h
  have differ : a.sequence ≠ b.sequence := by
    intro e
    have hab := numbered_injective numbered ha hb e
    rw [hab, kb] at ka
    contradiction
  have earlier := (numbered_of_before numbered eb ha).mpr (by omega)
  exact (accepted_execution acceptedB kb).fresh a earlier same (Or.inr ⟨ka,ca⟩)

/-- An observation follows the passing execution of its attempt. -/
theorem observation_after_execution (h : Chain D s events) (hm : event ∈ events)
    (k : event.kind = .observation) :
    ∃ a ∈ events, a.sequence < event.sequence ∧ SameAttempt event.toEventInput a.toEventInput ∧
      a.kind = .execution ∧ a.result = .pass ∧ a.members = event.members ∧
      a.execution = event.execution := by
  obtain ⟨before,after,e,accepted⟩ := chain_mem h hm
  obtain ⟨a,ha,rest⟩ := (accepted_observation accepted k).actual
  have inside : a ∈ events := by simp [e, ha]
  exact ⟨a,inside,(numbered_of_before (chain_numbered h) e inside).mp ha,rest⟩

/-- The artifact of an execution event carries its identity, result and members. -/
theorem execution_artifact (h : Chain D s events) (hm : event ∈ events)
    (k : event.kind = .execution) {ref : ExecutionRef} (href : event.execution = some ref) :
    ∃ artifact, readExecution D s ref none = .ok artifact ∧
      artifact.executionKey = event.executionKey ∧ artifact.attemptId = event.attemptId ∧
      artifact.result = event.result ∧ artifact.descriptor.members = event.members := by
  obtain ⟨_,_,_,accepted⟩ := chain_mem h hm
  exact (accepted_execution accepted k).backed ref href

/-- Execution events with one reference are one event. -/
theorem execution_of_reference (h : Chain D s events) {a b : HistoryEvent} (ha : a ∈ events)
    (hb : b ∈ events) (ka : a.kind = .execution) (kb : b.kind = .execution) {ref : ExecutionRef}
    (ra : a.execution = some ref) (rb : b.execution = some ref) : a = b := by
  obtain ⟨artifact,read,key,attempt,_⟩ := execution_artifact h ha ka ra
  obtain ⟨artifact',read',key',attempt',_⟩ := execution_artifact h hb kb rb
  have e := readExecution_unique read read' rfl
  subst e
  exact execution_unique h ha hb ka kb ⟨key'.symm.trans key,attempt'.symm.trans attempt⟩

end Attempts

section Extension

variable (D)

theorem readReceipt_stable (observation : FileRef) :
    Stable Extends (fun s => readReceipt D s observation) := by
  unfold readReceipt
  refine stable_bind (readFileRef_stable D _) (fun bytes => stable_bind (stable_const _)
    (fun check => stable_bind (stable_const _) (fun _ => ?_)))
  split
  · exact stable_bind (stable_const _) (fun _ => stable_bind (readFileRef_stable D _)
      (fun _ => stable_bind (stable_const _) (fun _ => stable_bind (stable_const _)
        (fun _ => stable_bind (readFileRef_stable D _) (fun _ => stable_bind
          (readFileRef_stable D _) (fun _ => stable_const _))))))
  · exact stable_const _

theorem observationBindings_stable (receipt : Receipt) (selected : RequestSlot)
    (execution : ExecutionRef) (event : HistoryEvent) :
    Stable Extends (fun s => observationBindings D s receipt selected execution event) := by
  unfold observationBindings
  refine stable_bind (readExecution_stable _ _) (fun artifact => stable_bind (stable_const _)
    (fun _ => stable_bind (stable_const _) (fun _ => stable_bind (stable_const _)
      (fun _ => stable_bind (stable_const _) (fun _ => ?_)))))
  cases receipt.check.response with
  | none => exact stable_const _
  | some response =>
    exact stable_bind (stable_const _) (fun _ => stable_bind (readFileRef_stable D _)
      (fun _ => stable_const _))

theorem observationResult_stable (event : HistoryEvent) :
    Stable Extends (fun s => observationResult D s event) := by
  unfold observationResult
  cases event.execution with
  | none => exact stable_const _
  | some execution =>
    cases event.observation with
    | none => exact stable_const _
    | some observation =>
      refine stable_bind (readReceipt_stable D _) (fun receipt => stable_bind (stable_const _)
        (fun _ => ?_))
      cases receipt.request.slots.find? (fun slot => some slot.slotId = event.slotId) with
      | none => exact stable_const _
      | some selected =>
        dsimp only
        exact stable_bind (stable_const _) (fun _ => observationBindings_stable D _ _ _ _)

theorem validateEventBindings_stable (event : HistoryEvent) (previous : List HistoryEvent) :
    Stable Extends (fun s => validateEventBindings D s event previous) := by
  unfold validateEventBindings
  cases event.kind with
  | execution =>
    unfold executionBindings
    refine stable_bind (stable_const _) (fun _ => stable_bind (stable_const _) (fun _ => ?_))
    cases event.execution with
    | none => exact stable_const _
    | some ref => exact stable_bind (readExecution_stable _ _) (fun _ => stable_const _)
  | observation =>
    exact stable_bind (stable_const _) (fun _ => stable_bind (stable_const _)
      (fun _ => observationResult_stable D event))
  | indeterminate =>
    refine stable_bind (stable_const _) (fun _ => ?_)
    unfold indeterminateBindings
    cases event.indeterminateOwner with
    | none => exact stable_const _
    | some ref => exact stable_bind (stable_const _) (fun _ => stable_bind
        (readFileRef_stable D _) (fun _ => stable_const _))

variable {D}

theorem accepted_reference (h : Extends s s') (accepted : Accepted D s before event) :
    reference D s' event = reference D s event := by
  obtain ⟨spelling,stored⟩ := accepted.stored
  have stored' := readBytes_ok.mp (h.kept _ _ (readBytes_ok.mpr stored))
  rw [reference_eq stored, reference_eq stored']

theorem chain_references (h : Extends s s') (chain : Chain D s events) :
    events.map (reference D s') = events.map (reference D s) := by
  refine List.map_congr_left ?_
  intro event hm
  obtain ⟨_,_,_,accepted⟩ := chain_mem chain hm
  exact accepted_reference h accepted

/-- A chain stays accepted in every later store. -/
theorem chain_extends (h : Extends s s') (chain : Chain D s events) : Chain D s' events := by
  intro before event after e
  have accepted := chain before event after e
  have prefixed : Chain D s before := by
    rw [e] at chain
    exact chain_append_left chain
  refine ⟨?_,accepted.document,accepted.sequence,?_,
    validateEventBindings_stable D event before s s' () h accepted.bindings⟩
  · obtain ⟨spelling,stored⟩ := accepted.stored
    exact ⟨spelling,readBytes_ok.mp (h.kept _ _ (readBytes_ok.mpr stored))⟩
  · rw [accepted.previous, headOf, headOf, chain_references h prefixed]

end Extension

end RetainedHistory

end EvidenceV4
