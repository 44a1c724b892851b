import EvidenceV4.PanelRun

/-!
# The verdict of a panel run

The verdict in the summary is a failure exactly when the evidence fails a
required criterion, and a pass carries every condition of the run. What can go
wrong is that no summary is written at all, so a failure of the evidence is
reported exactly when the run can be recorded.
-/

set_option autoImplicit false

namespace EvidenceV4

namespace Panel

open CheckedExcept
open CheckerJson (PyString points)
open EvidenceArtifact (splitlines)
open PythonData

section Statements

variable (panel : Milestone)

def Ending.verdict (ending : Ending) : Option Verdict :=
  ending.summary.map (fun summary => summary.adjudication.verdict)

/-- The calls that return come back in their order; some may be left out. -/
def InOrder (parallel : List (Option Record) → Option (List Record)) : Prop :=
  ∀ results records, parallel results = some records → (records.map some).Sublist results

/-- Git knows the tree and lists neither a change nor an untracked file. -/
def CleanTree (target : Worktree) : Prop :=
  ∃ head tracked listing, target.revParse = .replied 0 head ∧ target.diff = .replied 0 tracked ∧
    target.others = .replied 0 listing ∧ blank tracked = true ∧
    ∀ line ∈ splitlines listing, blank line = true

/-- The brief and the target have the digests that they had before. -/
def Milestone.Unchanged : Prop :=
  (∃ bytes, panel.briefAfter = some bytes ∧
    panel.printing.sha256 bytes = panel.printing.sha256 panel.briefBefore) ∧
  ∃ after, targetSnapshot panel.printing.toLibrary panel.targetAfter = .ok after ∧
    after.available = true ∧ after.head = panel.before.head ∧
    after.snapshotSha256 = panel.before.snapshotSha256 ∧
    after.canonicalStateSha256 = panel.before.canonicalStateSha256

def Drafted (seat : Seat) (record : Record) : Prop :=
  panel.draft seat = some record ∧ record.status = .ok

/-- What a pass of a milestone rests on. -/
structure Carried : Prop where
  evidence : ∀ id ∈ panel.required, Passes panel.evidenceStatus id
  evaluated : ∃ synthesis, panel.synthesis = some synthesis ∧ synthesis.status = .ok ∧
    ∀ id ∈ panel.required, EvaluatedOnce synthesis.data id
  drafted : ∀ seat ∈ panel.seats, ∃ record, Drafted panel seat record
  reviewed : ∀ seat ∈ panel.seats, ∃ record, panel.review seat = some record ∧ record.status = .ok
  families : ∃ families : List PyString, families.Nodup ∧ panel.minFamilies ≤ families.length ∧
    ∀ family ∈ families, ∃ seat ∈ panel.seats, ∃ record, Drafted panel seat record ∧
      panel.family record = family
  unchanged : panel.Unchanged
  clean : CleanTree panel.targetBefore

structure Adjudicated : Prop where
  fails : panel.runWaves.verdict = some .fail ↔
    ∃ id ∈ panel.required, Fails panel.evidenceStatus id
  passes : panel.runWaves.verdict = some .pass → Carried panel

/-- Drafts and reviews suffice for a synthesis. -/
structure Reviewed (drafts reviews : List Record) : Prop where
  firstWave : panel.parallel (panel.seats.map panel.draft) = some drafts
  eachDraft : drafts.length = panel.seats.length
  draftQuorum : panel.draftQuorum drafts = true
  secondWave : panel.parallel ((reviewerSeats drafts).map panel.review) = some reviews
  eachReview : reviews.length = (reviewerSeats drafts).length
  reviewQuorum : panel.reviewQuorum reviews = true

/-- A summary of the run can be written: its texts can be encoded, the target can be read again,
and the reply of a synthesis that is asked for can be recorded. -/
structure Milestone.Recordable : Prop where
  criteria : panel.required.all encodable = true
  metadata : encodableFields panel.metadata = true
  target : ∃ after, targetSnapshot panel.printing.toLibrary panel.targetAfter = .ok after
  synthesis : (∃ drafts reviews, Reviewed panel drafts reviews) → stageable (recorded panel.synthesizer
    (attempt panel.printing panel.profiled panel.synthesisReply)) = true

end Statements

section Facts

variable {panel : Milestone} {status : RunStatus} {stable : Bool} {before : Snapshot}
  {adjudication : Adjudication} {records drafts reviews : List Record} {synthesis : Option Record}
  {after : Snapshot} {stage : Option PyString} {seat : Seat} {record : Record}

theorem settleIncomplete_fail :
    (settleIncomplete status adjudication).verdict = .fail ↔ adjudication.verdict = .fail := by
  unfold settleIncomplete
  split
  · rename_i moved
    apply iff_of_false (by simp [lowered])
    intro fails
    rw [fails] at moved
    simp at moved
  · rfl

theorem settlePass_fail :
    (settlePass status before stable adjudication).verdict = .fail ↔ adjudication.verdict = .fail := by
  unfold settlePass
  split
  · rename_i moved
    apply iff_of_false (by simp [lowered])
    rw [moved.1]
    simp
  · rfl

theorem settleIncomplete_pass (h : (settleIncomplete status adjudication).verdict = .pass) :
    adjudication.verdict = .pass := by
  unfold settleIncomplete at h
  split at h
  · simp [lowered] at h
  · exact h

theorem settlePass_pass (h : (settlePass status before stable adjudication).verdict = .pass) :
    adjudication.verdict = .pass ∧ status = .complete ∧ snapshotOk before stable = true := by
  unfold settlePass at h
  split at h
  · simp [lowered] at h
  · rename_i kept
    by_contra other
    apply kept
    constructor
    · exact h
    · intro carried
      exact other ⟨h,carried⟩

/-- No layer of a summary moves a failure of the evidence, or makes one. -/
theorem summary_fail :
    (panel.summary status stage drafts reviews synthesis after).adjudication.verdict = .fail ↔
      ∃ id ∈ panel.required, Fails panel.evidenceStatus id := by
  show (panel.adjudicate _ _ _).verdict = .fail ↔ _
  rw [Milestone.adjudicate, settlePass_fail, settleIncomplete_fail, guard_fail]

theorem settledStatus_complete (h : panel.settledStatus status stable = .complete) :
    status = .complete ∧ panel.briefStable = true ∧ stable = true := by
  unfold Milestone.settledStatus at h
  split at h
  · simp at h
  · rename_i still
    simpa [h] using still

theorem sha256Text_inj {library : Library} {first second : List UInt8}
    (h : sha256Text library first = sha256Text library second) :
    library.sha256 first = library.sha256 second := by
  simpa [sha256Text, say] using h

theorem briefStable_iff : panel.briefStable = true ↔ ∃ bytes, panel.briefAfter = some bytes ∧
    panel.printing.sha256 bytes = panel.printing.sha256 panel.briefBefore := by
  unfold Milestone.briefStable
  cases panel.briefAfter with
  | none => simp
  | some bytes =>
    rw [Option.map_some, decide_eq_true_eq, Option.some_inj]
    constructor
    · intro same
      exact ⟨bytes,rfl,sha256Text_inj same⟩
    · rintro ⟨read,found,same⟩
      cases found
      exact congrArg (fun digest => say ["sha256:",digest]) same

theorem revisionStable_true (known : panel.before.available = true)
    (h : revisionStable panel.before after = true) : after.available = true ∧
      after.head = panel.before.head ∧ after.snapshotSha256 = panel.before.snapshotSha256 ∧
      after.canonicalStateSha256 = panel.before.canonicalStateSha256 := by
  simpa [revisionStable, known, and_assoc] using h

theorem result_ok {reply : GitReply} {code : ℤ} {text : PyString} (h : reply.result = .ok (code,text))
    (success : code = 0) : reply = .replied 0 text := by
  cases reply with
  | replied found shown =>
    simp only [GitReply.result, pure_ok, Prod.mk.injEq] at h
    rw [h.1, h.2, success]
  | unavailable =>
    simp only [GitReply.result, pure_ok, Prod.mk.injEq] at h
    omega
  | undecodable => simp [GitReply.result] at h

theorem unversioned_available {library : Library} {target : Worktree} {head : Option PyString}
    {snapshot : Snapshot} (h : unversioned library target head = .ok snapshot) :
    snapshot.available = false := by
  simp only [unversioned, bind_ok, pure_ok] at h
  obtain ⟨hashes,read,rfl⟩ := h
  rfl

theorem untrackedPaths_nil {listing : PyString} (h : untrackedPaths listing = []) :
    ∀ line ∈ splitlines listing, blank line = true := by
  intro line known
  by_contra shown
  have kept : line ∈ untrackedPaths listing := by
    rw [untrackedPaths, List.mem_insertionSort, List.mem_filter]
    exact ⟨known,by simpa using shown⟩
  rw [h] at kept
  exact absurd kept List.not_mem_nil

/-- A snapshot that is known and not dirty is one of a clean tree. -/
theorem clean_of_snapshot {library : Library} {target : Worktree} {snapshot : Snapshot}
    (taken : targetSnapshot library target = .ok snapshot) (known : snapshot.available = true)
    (tidy : snapshot.dirty.getD false = false) : CleanTree target := by
  simp only [targetSnapshot, bind_ok] at taken
  obtain ⟨⟨code,head⟩,parsed,taken⟩ := taken
  split at taken
  · rw [unversioned_available taken] at known
    exact absurd known (by decide)
  · rename_i found
    simp only [snapshotAt, bind_ok] at taken
    obtain ⟨⟨diffCode,tracked⟩,diffed,⟨othersCode,listing⟩,untracked,taken⟩ := taken
    split at taken
    · rw [unversioned_available taken] at known
      exact absurd known (by decide)
    · rename_i succeeded
      simp only [versioned, bind_ok, pure_ok] at taken
      obtain ⟨hashes,read,rfl⟩ := taken
      have codes : diffCode = 0 ∧ othersCode = 0 := by simpa using succeeded
      have empty : blank tracked = true ∧ untrackedPaths listing = [] := by simpa using tidy
      exact ⟨head,tracked,listing,result_ok parsed (by simpa using found),
        result_ok diffed codes.1,result_ok untracked codes.2,empty.1,untrackedPaths_nil empty.2⟩

theorem dispatch_some {printing : Printing} {profiled : Bool} {reply : Reply}
    (h : dispatch printing profiled seat reply = some record) :
    stageable record = true ∧ record.seat = seat := by
  unfold dispatch at h
  dsimp only at h
  split at h
  · rename_i staged
    rw [← Option.some_inj.mp h]
    constructor
    · exact staged
    · cases attempt printing profiled reply <;> rfl
  · simp at h

theorem publishable_of_stageable (h : stageable record = true) : publishable record = true := by
  simp only [stageable, Bool.and_eq_true] at h
  exact h.1.1

end Facts

section Waves

variable {panel : Milestone} {seats : List Seat} {call : Seat → Option Record}
  {records drafts reviews : List Record} {seat : Seat} {record : Record}

/-- A wave answers with records of its own calls. -/
theorem wave_mem (inOrder : InOrder panel.parallel)
    (wave : panel.parallel (seats.map call) = some records) (known : record ∈ records) :
    ∃ seat ∈ seats, call seat = some record := by
  have listed : some record ∈ seats.map call :=
    (inOrder _ _ wave).subset (List.mem_map_of_mem known)
  exact List.mem_map.mp listed

/-- A wave of full length answers every call. -/
theorem wave_full (inOrder : InOrder panel.parallel)
    (wave : panel.parallel (seats.map call) = some records)
    (full : records.length = seats.length) (known : seat ∈ seats) :
    ∃ record ∈ records, call seat = some record := by
  have same : records.map some = seats.map call := by
    apply (inOrder _ _ wave).eq_of_length
    rw [List.length_map, List.length_map, full]
  have listed : call seat ∈ records.map some := by
    rw [same]
    exact List.mem_map_of_mem known
  obtain ⟨record,member,answered⟩ := List.mem_map.mp listed
  exact ⟨record,member,answered.symm⟩

theorem mem_okRecords : record ∈ okRecords records ↔ record ∈ records ∧ record.status = .ok := by
  rw [okRecords, List.mem_filter, decide_eq_true_eq]

theorem okRecords_full (full : (okRecords records).length = records.length)
    (known : record ∈ records) : record.status = .ok := by
  have each := List.length_filter_eq_length_iff.mp full record known
  simpa using each

theorem runWaves_reviewed (h : Reviewed panel drafts reviews) :
    panel.runWaves = panel.thirdWave drafts reviews := by
  simp only [Milestone.runWaves, h.firstWave, Milestone.afterDrafts, h.eachDraft, ne_eq,
    not_true_eq_false, if_false, h.draftQuorum, if_true, Milestone.secondWave, h.secondWave,
    Milestone.afterReviews, h.eachReview, h.reviewQuorum]

/-- A run that does not reach its synthesis ends with a summary of what it has. -/
theorem runWaves_unreviewed (inOrder : InOrder panel.parallel)
    (h : ¬ ∃ drafts reviews, Reviewed panel drafts reviews) :
    ∃ stage drafts reviews, (drafts ++ reviews).all publishable = true ∧
      panel.runWaves.summary = panel.finish .incomplete stage drafts reviews none := by
  have staged {drafts : List Record} {seats : List Seat} {call : Seat → Option Record}
      (wave : panel.parallel (seats.map call) = some drafts)
      (each : ∀ seat record, call seat = some record → publishable record = true) :
      drafts.all publishable = true := by
    rw [List.all_eq_true]
    intro record known
    obtain ⟨seat,_,answered⟩ := wave_mem inOrder wave known
    exact each seat record answered
  have drafted (seat : Seat) (record : Record) (answered : panel.draft seat = some record) :
      publishable record = true := publishable_of_stageable (dispatch_some answered).1
  have revised (seat : Seat) (record : Record) (answered : panel.review seat = some record) :
      publishable record = true := publishable_of_stageable (dispatch_some answered).1
  unfold Milestone.runWaves
  split
  · exact ⟨_,[],[],rfl,rfl⟩
  · rename_i drafts wave
    have fine := staged wave drafted
    unfold Milestone.afterDrafts
    split
    · exact ⟨_,drafts,[],by rwa [List.append_nil],rfl⟩
    · rename_i each
      split
      · rename_i quorum
        unfold Milestone.secondWave
        split
        · exact ⟨_,drafts,[],by rwa [List.append_nil],rfl⟩
        · rename_i reviews second
          have alsoFine : (drafts ++ reviews).all publishable = true := by
            rw [List.all_append, fine, staged second revised]
            rfl
          unfold Milestone.afterReviews
          split
          · exact ⟨_,drafts,reviews,alsoFine,rfl⟩
          · rename_i eachReview
            split
            · rename_i reviewQuorum
              exact absurd ⟨drafts,reviews,wave,not_not.mp each,quorum,second,
                not_not.mp eachReview,reviewQuorum⟩ h
            · exact ⟨_,drafts,reviews,alsoFine,rfl⟩
      · exact ⟨_,drafts,[],by rwa [List.append_nil],rfl⟩

theorem thirdWave_summary (drafts reviews : List Record)
    (recorded : panel.synthesis = some record) :
    ∃ status stage, (panel.thirdWave drafts reviews).summary =
      panel.finish status stage drafts reviews (some record) ∧
      (status = .complete → record.status = .ok ∧ panel.covered drafts reviews = .complete) := by
  unfold Milestone.thirdWave
  rw [recorded]
  dsimp only
  split
  · rename_i fine
    exact ⟨_,_,rfl,fun full => ⟨fine,full⟩⟩
  · exact ⟨.incomplete,_,rfl,fun full => absurd full (by simp)⟩

theorem thirdWave_lost (lost : panel.synthesis = none) :
    (panel.thirdWave drafts reviews).summary = none := by
  unfold Milestone.thirdWave
  rw [lost]
  rfl

theorem synthesis_recorded (h : stageable (recorded panel.synthesizer
    (attempt panel.printing panel.profiled panel.synthesisReply)) = true) :
    ∃ record, panel.synthesis = some record ∧ stageable record = true := by
  refine ⟨_,?_,h⟩
  simp only [Milestone.synthesis, dispatch, h, if_true]

theorem reviewed_publishable (inOrder : InOrder panel.parallel) (h : Reviewed panel drafts reviews) :
    (drafts ++ reviews).all publishable = true := by
  rw [List.all_eq_true]
  intro record known
  rcases List.mem_append.mp known with first | second
  · obtain ⟨seat,_,answered⟩ := wave_mem inOrder h.firstWave first
    exact publishable_of_stageable (dispatch_some answered).1
  · obtain ⟨seat,_,answered⟩ := wave_mem inOrder h.secondWave second
    exact publishable_of_stageable (dispatch_some answered).1

/-- The seats of a complete run have drafted, and reviewed. -/
theorem reviewed_complete (inOrder : InOrder panel.parallel) (h : Reviewed panel drafts reviews)
    (full : panel.covered drafts reviews = .complete) (known : seat ∈ panel.seats) :
    (∃ record, Drafted panel seat record) ∧
      ∃ record, panel.review seat = some record ∧ record.status = .ok := by
  have counts : (okRecords drafts).length = panel.seats.length ∧
      (okRecords reviews).length = (reviewerSeats drafts).length := by
    unfold Milestone.covered at full
    split at full
    · assumption
    · simp at full
  obtain ⟨draft,drafted,answered⟩ := wave_full inOrder h.firstWave h.eachDraft known
  have fine : draft.status = .ok := by
    apply okRecords_full _ drafted
    rw [counts.1, h.eachDraft]
  have reviewing : seat ∈ reviewerSeats drafts := by
    rw [← (dispatch_some answered).2]
    exact List.mem_map_of_mem (mem_okRecords.mpr ⟨drafted,fine⟩)
  obtain ⟨review,returned,agreed⟩ := wave_full inOrder h.secondWave h.eachReview reviewing
  have alsoFine : review.status = .ok := by
    apply okRecords_full _ returned
    rw [counts.2, h.eachReview]
  exact ⟨⟨draft,answered,fine⟩,review,agreed,alsoFine⟩

theorem reviewed_families (inOrder : InOrder panel.parallel) (h : Reviewed panel drafts reviews) :
    ∃ families : List PyString, families.Nodup ∧ panel.minFamilies ≤ families.length ∧
      ∀ family ∈ families, ∃ seat ∈ panel.seats, ∃ record, Drafted panel seat record ∧
        panel.family record = family := by
  have quorum := h.draftQuorum
  simp only [Milestone.draftQuorum, Bool.and_eq_true, decide_eq_true_eq] at quorum
  refine ⟨panel.families (okRecords drafts),sortedNames_nodup _,quorum.2,fun family listed => ?_⟩
  obtain ⟨record,counted,named⟩ := List.mem_map.mp (mem_sortedNames.mp listed)
  obtain ⟨drafted,fine⟩ := mem_okRecords.mp counted
  obtain ⟨seat,known,answered⟩ := wave_mem inOrder h.firstWave drafted
  exact ⟨seat,known,record,⟨answered,fine⟩,named⟩

end Waves

section Verdicts

variable {panel : Milestone} {status : RunStatus} {stage : Option PyString}
  {drafts reviews : List Record} {synthesis : Option Record} {record : Record}

theorem finish_recordable (status : RunStatus) (stage : Option PyString) (recordable : panel.Recordable)
    (fine : (drafts ++ reviews).all publishable = true) (staged : synthesis.all stageable = true) :
    ∃ after, panel.finish status stage drafts reviews synthesis =
      some (panel.summary status stage drafts reviews synthesis after) := by
  obtain ⟨after,read⟩ := recordable.target
  refine ⟨after,?_⟩
  simp only [Milestone.finish, read, Milestone.writable, recordable.criteria, recordable.metadata,
    fine, staged, Bool.and_true, if_true]

theorem finish_some {summary : Summary}
    (h : panel.finish status stage drafts reviews synthesis = some summary) :
    ∃ after, targetSnapshot panel.printing.toLibrary panel.targetAfter = .ok after ∧
      panel.required.all encodable = true ∧ encodableFields panel.metadata = true ∧
      summary = panel.summary status stage drafts reviews synthesis after := by
  unfold Milestone.finish at h
  split at h
  · simp at h
  · rename_i after read
    split at h
    · rename_i written
      simp only [Milestone.writable, Bool.and_eq_true] at written
      exact ⟨after,read,written.1.1.1,written.1.1.2,(Option.some_inj.mp h).symm⟩
    · simp at h

/-- What a summary reports on a failure of the evidence. -/
theorem finish_fail {summary : Summary}
    (h : panel.finish status stage drafts reviews synthesis = some summary) :
    summary.adjudication.verdict = .fail ↔ ∃ id ∈ panel.required, Fails panel.evidenceStatus id := by
  obtain ⟨after,_,_,_,rfl⟩ := finish_some h
  exact summary_fail

/-- A summary that passes has a complete run, the synthesis of which passes the criteria. -/
theorem finish_pass {summary : Summary}
    (h : panel.finish status stage drafts reviews synthesis = some summary)
    (pass : summary.adjudication.verdict = .pass) : status = .complete ∧ panel.Unchanged ∧
      CleanTree panel.targetBefore ∧ ∀ id ∈ panel.required, Passes panel.evidenceStatus id ∧
        EvaluatedOnce (synthesisData synthesis) id := by
  obtain ⟨after,read,_,_,rfl⟩ := finish_some h
  obtain ⟨lower,full,carried⟩ := settlePass_pass pass
  obtain ⟨complete,brief,still⟩ := settledStatus_complete full
  have guarded := settleIncomplete_pass lower
  have snapshot : panel.before.available = true ∧ panel.before.dirty.getD false = false := by
    simp only [snapshotOk, Bool.and_eq_true, Bool.not_eq_true'] at carried
    exact ⟨carried.1.1,carried.2⟩
  exact ⟨complete,⟨briefStable_iff.mp brief,after,read,revisionStable_true snapshot.1 still⟩,
    clean_of_snapshot panel.taken snapshot.1 snapshot.2,fun id known => guard_pass guarded known⟩

/-- How a run ends: without a summary it has lost the synthesis or cannot write. -/
theorem runWaves_summary (inOrder : InOrder panel.parallel) :
    ((∃ drafts reviews, Reviewed panel drafts reviews) ∧ panel.synthesis = none ∧
        panel.runWaves.summary = none) ∨
      ∃ status stage drafts reviews synthesis, panel.runWaves.summary =
        panel.finish status stage drafts reviews synthesis ∧
        (drafts ++ reviews).all publishable = true ∧
        (status = .complete → Reviewed panel drafts reviews ∧
          panel.covered drafts reviews = .complete ∧
          ∃ record, synthesis = some record ∧ panel.synthesis = some record ∧ record.status = .ok) ∧
        (∀ record, synthesis = some record → panel.synthesis = some record) := by
  by_cases reviewed : ∃ drafts reviews, Reviewed panel drafts reviews
  · obtain ⟨drafts,reviews,waves⟩ := reviewed
    rw [runWaves_reviewed waves]
    cases written : panel.synthesis with
    | none => exact .inl ⟨⟨drafts,reviews,waves⟩,rfl,thirdWave_lost written⟩
    | some record =>
      obtain ⟨status,stage,finished,full⟩ := thirdWave_summary drafts reviews written
      right
      exact ⟨status,stage,drafts,reviews,some record,finished,reviewed_publishable inOrder waves,
        fun complete => ⟨waves,(full complete).2,record,rfl,rfl,(full complete).1⟩,
        fun _ same => same⟩
  · obtain ⟨stage,drafts,reviews,fine,finished⟩ := runWaves_unreviewed inOrder reviewed
    right
    exact ⟨.incomplete,stage,drafts,reviews,none,finished,fine,
      fun complete => absurd complete (by simp),fun _ same => absurd same (by simp)⟩

theorem runWaves_lost (reviewed : Reviewed panel drafts reviews) (lost : panel.synthesis = none) :
    panel.runWaves.summary = none := by
  rw [runWaves_reviewed reviewed, thirdWave_lost lost]

theorem verdict_some {verdict : Verdict} (h : panel.runWaves.verdict = some verdict) :
    ∃ summary, panel.runWaves.summary = some summary ∧ summary.adjudication.verdict = verdict :=
  Option.map_eq_some_iff.mp h

theorem recordable_of_summary {summary : Summary} (inOrder : InOrder panel.parallel)
    (written : panel.runWaves.summary = some summary) : panel.Recordable := by
  rcases runWaves_summary inOrder with ⟨_,_,lost⟩ | ⟨status,stage,drafts,reviews,synthesis,ended,_,_,_⟩
  · rw [lost] at written
    exact absurd written (by simp)
  · obtain ⟨after,read,criteria,metadata,_⟩ := finish_some (ended ▸ written)
    refine ⟨criteria,metadata,⟨after,read⟩,?_⟩
    rintro ⟨first,second,reviewed⟩
    by_contra unstaged
    have lost : panel.synthesis = none := by
      simp only [Milestone.synthesis, dispatch, if_neg unstaged]
    rw [runWaves_lost reviewed lost] at written
    exact absurd written (by simp)

theorem summary_of_recordable (inOrder : InOrder panel.parallel) (recordable : panel.Recordable) :
    ∃ summary, panel.runWaves.summary = some summary := by
  rcases runWaves_summary inOrder with ⟨reviewed,lost,_⟩ |
    ⟨status,stage,drafts,reviews,synthesis,ended,fine,_,own⟩
  · obtain ⟨record,found,_⟩ := synthesis_recorded (recordable.synthesis reviewed)
    rw [lost] at found
    exact absurd found (by simp)
  · have staged : synthesis.all stageable = true := by
      cases synthesis with
      | none => rfl
      | some record => exact (dispatch_some (own record rfl)).1
    obtain ⟨after,written⟩ := finish_recordable status stage recordable fine staged
    exact ⟨_,ended.trans written⟩

/-- A pass in the summary carries every condition of the run. -/
theorem runWaves_pass (inOrder : InOrder panel.parallel)
    (h : panel.runWaves.verdict = some .pass) : Carried panel := by
  obtain ⟨summary,written,pass⟩ := verdict_some h
  rcases runWaves_summary inOrder with ⟨_,_,lost⟩ |
    ⟨status,stage,drafts,reviews,synthesis,ended,_,full,_⟩
  · rw [lost] at written
    exact absurd written (by simp)
  · obtain ⟨complete,unchanged,clean,each⟩ := finish_pass (ended ▸ written) pass
    obtain ⟨reviewed,counted,record,named,own,fine⟩ := full complete
    have data : synthesisData synthesis = record.data := by
      rw [named, synthesisData, if_pos fine]
    exact ⟨fun id known => (each id known).1,⟨record,own,fine,fun id known => data ▸ (each id known).2⟩,
      fun seat known => (reviewed_complete inOrder reviewed counted known).1,
      fun seat known => (reviewed_complete inOrder reviewed counted known).2,
      reviewed_families inOrder reviewed,unchanged,clean⟩

theorem runWaves_fail (inOrder : InOrder panel.parallel)
    (h : panel.runWaves.verdict = some .fail) :
    ∃ id ∈ panel.required, Fails panel.evidenceStatus id := by
  obtain ⟨summary,written,fail⟩ := verdict_some h
  rcases runWaves_summary inOrder with ⟨_,_,lost⟩ | ⟨_,_,_,_,_,ended,_,_,_⟩
  · rw [lost] at written
    exact absurd written (by simp)
  · exact (finish_fail (ended ▸ written)).mp fail

theorem runWaves_of_fails (inOrder : InOrder panel.parallel) (recordable : panel.Recordable)
    (fails : ∃ id ∈ panel.required, Fails panel.evidenceStatus id) :
    panel.runWaves.verdict = some .fail := by
  obtain ⟨summary,written⟩ := summary_of_recordable inOrder recordable
  rcases runWaves_summary inOrder with ⟨_,_,lost⟩ | ⟨_,_,_,_,_,ended,_,_,_⟩
  · rw [lost] at written
    exact absurd written (by simp)
  · rw [Ending.verdict, written, Option.map_some, (finish_fail (ended ▸ written)).mpr fails]

end Verdicts

section Samples

/-- Run the calls one after another, and fail with the first that raises. -/
def serial (results : List (Option Record)) : Option (List Record) :=
  if results.all Option.isSome then some (results.filterMap id) else none

theorem serial_inOrder : InOrder serial := by
  intro results records h
  unfold serial at h
  split at h
  · rw [← Option.some_inj.mp h]
    clear h
    induction results with
    | nil => exact List.Sublist.slnil
    | cons result rest ih =>
      rename_i complete
      rw [List.all_cons, Bool.and_eq_true] at complete
      cases result with
      | none => exact absurd complete.1 (by simp)
      | some record => exact (ih complete.2).cons_cons (some record)
  · simp at h

def samplePrinting : Printing where
  repr := fun _ => []
  loads := fun _ => none
  sha256 := fun bytes => bytes.map UInt8.toNat
  dumps := fun _ => []

def sampleTree : Worktree where
  revParse := .replied 0 (points "c0ffee\n")
  diff := .replied 0 []
  others := .replied 0 []
  canonical := []
  fileBytes := fun _ => none

def sampleSnapshot : Snapshot := ⟨true,some (points "c0ffee"),
  some (points "sha256:" ++ (snapshotBytes sampleTree (points "c0ffee") [] []).map UInt8.toNat),[],
  some false⟩

def sampleReply (text : String) (data : PyFields) : Reply :=
  .returned (.dict [("text",.str (points text)),("data",.dict data)])

def sampleDraft : PyFields :=
  [("criteria",.list [.dict [("id",.str "A1"),("assessment",.str "supported"),
    ("evidence",.str "run 7")]]),("proposed_verdict",.str "PASS")]

def sampleReview : PyFields :=
  [("unsupported_passes",.list []),("missed_failures",.list []),("contradicted_evidence",.list []),
    ("changes_to_own_eval",.list []),("remaining_disagreements",.list [])]

def sampleSynthesis (rationale : PyString) : PyFields :=
  [("criteria",.list [.dict [("id",.str "A1"),("verdict",.str "PASS"),("evidence",.str "run 7")]]),
    ("verdict",.str "PASS"),("rationale",.str rationale)]

/-- Two seats agree on a pass, while the gate reports a status. -/
def samplePanel (status : String) (rationale : PyString) : Milestone where
  printing := samplePrinting
  seats := [⟨points "one",points "first"⟩,⟨points "two",points "second"⟩]
  enough := by decide
  distinct := by decide +kernel
  minFamilies := 2
  profiled := false
  required := [points "A1"]
  metadata := []
  gate := fun _ => [(points "A1",.str (points status))]
  briefBefore := []
  briefAfter := some []
  targetBefore := sampleTree
  before := sampleSnapshot
  taken := by decide +kernel
  targetAfter := sampleTree
  parallel := serial
  draftReply := fun _ => sampleReply "draft" sampleDraft
  reviewReply := fun _ => sampleReply "review" sampleReview
  synthesizer := ⟨points "three",points "third"⟩
  synthesisReply := sampleReply "synthesis" (sampleSynthesis rationale)

example : (samplePanel "PASS" (points "agreed")).runWaves.verdict = some .pass := by decide +kernel

end Samples

end Panel

end EvidenceV4
