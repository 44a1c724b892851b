import EvidenceV4.PromptBlocks

/-!
# Untrusted content stays in its fence

Each builder puts its artifacts into a frame that is fixed by the mode, the task
and the number of peers. The markers of the task stand once, and no artifact has
a line outside its own block.
-/

set_option autoImplicit false

namespace EvidenceV4

namespace PromptFence

open CheckedExcept
open CheckerJson (PyString points)
open EvidenceArtifact
open LineText
open PythonData

section Confinement

variable {parts : List Part} {text : PyString}

/-- The artifacts of a prompt are confined to their blocks, which fill the gaps of the frame. -/
structure Confined (frame : Frame) (artifacts : List Artifact) (prompt : PyString) : Prop where
  lines : splitlines prompt = frame.fill (artifacts.map block)
  paired : frame.gaps.length = artifacts.length
  trusted : ∀ line ∈ frame.lead ++ frame.gaps.flatten, fenceLine line = false
  bodies : ∀ artifact ∈ artifacts, ∀ line ∈ bodyLines artifact.text, fenceLine line = false
  fences : (splitlines prompt).filter fenceLine =
    artifacts.flatMap (fun artifact => [opening artifact.label,closing artifact.label])
  task : (splitlines prompt).filter (fun line => strip line == taskMarker) = [taskMarker]
  endTask : (splitlines prompt).filter (fun line => strip line == endTaskMarker) = [endTaskMarker]

/-- The parts without the empty one that may stand at the end. -/
def trim (parts : List Part) : List Part :=
  if parts.getLast? = some emptyLine then parts.dropLast else parts

theorem trim_erased : trim (parts.map Part.erased) = (trim parts).map Part.erased := by
  have known (part : Part) : part.erased = emptyLine ↔ part = emptyLine := by
    cases part <;> simp [Part.erased, emptyLine]
  unfold trim
  rw [List.getLast?_map]
  by_cases ends : parts.getLast? = some emptyLine
  · rw [if_pos ends, if_pos (by rw [ends]; rfl), List.map_dropLast]
  · rw [if_neg ends, if_neg]
    intro bad
    obtain ⟨part,found,same⟩ := Option.map_eq_some_iff.mp bad
    rw [(known part).mp same] at found
    exact ends found

/-- The fixed words that stand on lines of a prompt hold no line break. -/
theorem words_free : LineFree taskMarker ∧ LineFree endTaskMarker ∧ LineFree (points "evidence") ∧
    LineFree (points "artifact-") ∧ LineFree (points "review-") ∧
    LineFree (points "Your own artifact is labeled ") ∧ LineFree (points ".") := by
  unfold LineFree
  decide +kernel

theorem markers_apart : fenceLine taskMarker = false ∧ fenceLine endTaskMarker = false ∧
    (strip taskMarker == taskMarker) = true ∧ (strip endTaskMarker == taskMarker) = false ∧
    (strip taskMarker == endTaskMarker) = false ∧ (strip endTaskMarker == endTaskMarker) = true ∧
    endTaskMarker = points "=== END TASK ==" ++ [61] := by
  decide +kernel

/-- A task of which no line looks like a fence or a marker. -/
def TaskClean (task : PyString) : Prop :=
  ∀ line ∈ splitlines task, fenceLine line = false ∧ markerLine line = false

theorem taskClean_strip {task : PyString} (clean : TaskClean task) {line : PyString}
    (member : line ∈ pieces (strip task)) : fenceLine line = false ∧ markerLine line = false := by
  obtain ⟨front,back,before,behind,known⟩ := pieces_strip member
  have padded : fenceLine (front ++ line ++ back) = false ∧
      markerLine (front ++ line ++ back) = false := by
    rcases mem_pieces known with listed | empty
    · exact clean _ listed
    · rw [empty]
      exact fences_apart.2.2.2
  constructor
  · by_contra bad
    rw [Bool.not_eq_false] at bad
    rw [fenceLine_padded before bad] at padded
    exact absurd padded.1 (by decide)
  · rw [← markerLine_padded before behind]
    exact padded.2

theorem inked_strip (written : blank text = false) : Inked (strip text) := by
  cases found : (strip text).getLast? with
  | none =>
    obtain ⟨front,back,same,before,behind⟩ := strip_split text
    rw [List.getLast?_eq_none_iff.mp found, List.append_nil] at same
    rw [blank, same, List.all_append, before, behind] at written
    exact absurd written (by decide)
  | some c =>
    obtain ⟨body,same⟩ := List.getLast?_eq_some_iff.mp found
    exact ⟨body,c,same,strip_ends same⟩

theorem taskBlock_eq (brief : Brief) : brief.taskBlock =
    taskMarker ++ 10 :: (strip brief.task ++ 10 :: endTaskMarker) := by
  simp only [Brief.taskBlock, say, newline_eq, List.flatten_cons, List.flatten_nil, List.append_nil,
    List.singleton_append]

theorem Inked.closed (inked : Inked text) : text.getLast? ≠ some 13 := by
  obtain ⟨body,c,rfl,letter⟩ := inked
  exact inked_closed letter

theorem endTaskMarker_inked : Inked endTaskMarker :=
  ⟨points "=== END TASK ==",61,markers_apart.2.2.2.2.2.2,by decide⟩

theorem taskBlock_inked (brief : Brief) : Inked brief.taskBlock := by
  obtain ⟨body,c,same,letter⟩ := endTaskMarker_inked
  refine ⟨taskMarker ++ 10 :: (strip brief.task ++ 10 :: body),c,?_,letter⟩
  rw [taskBlock_eq, same]
  simp only [List.append_assoc, List.cons_append]

theorem pieces_taskBlock {brief : Brief} (written : blank brief.task = false) :
    pieces brief.taskBlock = taskMarker :: (pieces (strip brief.task) ++ [endTaskMarker]) := by
  rw [taskBlock_eq, pieces_feed (lineFree_closed words_free.1),
    pieces_feed (Inked.closed (inked_strip written)), pieces_free words_free.1,
    pieces_free words_free.2.1]
  rfl

theorem taskBlock_sound {brief : Brief} (written : blank brief.task = false)
    (clean : TaskClean brief.task) : (Part.own brief.taskBlock).Sound := by
  refine ⟨Inked.closed (taskBlock_inked brief),fun line member => ?_⟩
  rw [pieces_taskBlock written] at member
  rcases List.mem_cons.mp member with rfl | later
  · exact markers_apart.1
  · rcases List.mem_append.mp later with inside | last
    · exact (taskClean_strip clean inside).1
    · rw [List.mem_singleton.mp last]
      exact markers_apart.2.1

theorem taskBlock_markers {brief : Brief} (written : blank brief.task = false)
    (clean : TaskClean brief.task) :
    (pieces brief.taskBlock).filter (fun line => strip line == taskMarker) = [taskMarker] ∧
      (pieces brief.taskBlock).filter (fun line => strip line == endTaskMarker) = [endTaskMarker] := by
  have inside (marker : PyString) (isMarker : marker = taskMarker ∨ marker = endTaskMarker) :
      (pieces (strip brief.task)).filter (fun line => strip line == marker) = [] := by
    rw [List.filter_eq_nil_iff]
    intro line member
    have clear := (taskClean_strip clean member).2
    rw [markerLine, Bool.or_eq_false_iff] at clear
    rcases isMarker with rfl | rfl
    · rw [clear.1]
      decide
    · rw [clear.2]
      decide
  obtain ⟨_,_,first,second,third,fourth,_⟩ := markers_apart
  rw [pieces_taskBlock written]
  simp only [List.filter_cons, List.filter_append, List.filter_nil, inside _ (.inl rfl),
    inside _ (.inr rfl), first, second, third, fourth, if_true, Bool.false_eq_true, if_false,
    List.nil_append, and_self]

/-- A part that is sound and holds no marker of the task. -/
def Part.Quiet (part : Part) : Prop := part.Sound ∧ part.Unmarked

theorem confined_parts (brief : Brief) (written : blank brief.task = false)
    (clean : TaskClean brief.task) {before behind front rest : List Part} {last : Part}
    (around : parts = before ++ .own brief.taskBlock :: behind)
    (quiet : ∀ part ∈ before ++ behind, part.Quiet) (ends : parts = front ++ [last] ++ rest)
    (inked : Inked last.text) (empty : rest = [] ∨ rest = [emptyLine]) :
    Confined (frameOf (trim parts)) (artifactsOf parts) (promptText parts) := by
  have sound : ∀ part ∈ parts, part.Sound := by
    intro part member
    rw [around, List.mem_append, List.mem_cons] at member
    rcases member with early | rfl | late
    · exact (quiet part (List.mem_append_left _ early)).1
    · exact taskBlock_sound written clean
    · exact (quiet part (List.mem_append_right _ late)).1
  have not_empty : last ≠ emptyLine := by
    rintro rfl
    obtain ⟨body,c,same,-⟩ := inked
    exact absurd same (List.concat_ne_nil c body).symm
  have trimmed : trim parts = front ++ [last] := by
    rw [ends, trim]
    rcases empty with rfl | rfl
    · rw [List.append_nil, if_neg (by simpa using not_empty)]
    · rw [if_pos (by simp), List.dropLast_concat]
  have kept : ∀ part ∈ front ++ [last], part.Sound := by
    intro part member
    apply sound
    rw [ends]
    exact List.mem_append_left _ member
  have same_artifacts : artifactsOf parts = artifactsOf (front ++ [last]) := by
    rw [ends, artifactsOf_append (front ++ [last])]
    rcases empty with rfl | rfl
    · exact List.append_nil _
    · exact List.append_nil _
  have lines : splitlines (promptText parts) = (front ++ [last]).flatMap Part.lines := by
    rw [ends]
    exact promptText_lines kept inked empty
  have whole (marker : PyString) (isMarker : marker = taskMarker ∨ marker = endTaskMarker) :
      ((front ++ [last]).flatMap Part.lines).filter (fun line => strip line == marker) =
        (pieces brief.taskBlock).filter (fun line => strip line == marker) := by
    have all_lines : (parts.flatMap Part.lines).filter (fun line => strip line == marker) =
        ((front ++ [last]).flatMap Part.lines).filter (fun line => strip line == marker) := by
      rw [ends, List.flatMap_append, List.filter_append]
      have nothing : (rest.flatMap Part.lines).filter (fun line => strip line == marker) = [] := by
        apply unmarked_filter isMarker
        rcases empty with rfl | rfl
        · exact fun part member => absurd member List.not_mem_nil
        · intro part member
          rw [List.mem_singleton.mp member]
          intro line known
          rw [List.mem_singleton.mp known]
          exact fences_apart.2.2.2.2
      rw [nothing, List.append_nil]
    rw [← all_lines, around, List.flatMap_append, List.flatMap_cons, List.filter_append,
      List.filter_append, unmarked_filter isMarker (fun part member =>
        (quiet part (List.mem_append_left _ member)).2),
      unmarked_filter isMarker (fun part member =>
        (quiet part (List.mem_append_right _ member)).2), List.nil_append, List.append_nil]
    rfl
  have markers := taskBlock_markers written clean
  rw [trimmed, same_artifacts]
  constructor
  · rw [lines, frameOf_fill]
  · exact frameOf_paired
  · exact fun line member => frameOf_plain kept member
  · exact fun artifact _ line member => (bodyLines_plain member).1
  · rw [lines, flatMap_fences kept]
  · rw [lines, whole _ (.inl rfl), markers.1]
  · rw [lines, whole _ (.inr rfl), markers.2]

end Confinement

section Builders

variable {library : Library} {mode task evidence : PyString} {builders : Builders} {brief : Brief}

/-- One use of a builder. -/
inductive Call where
  | draft
  | review (ownLabel : PyString) (drafts : List Artifact)
  | synthesis (drafts reviews : List Artifact)

def Builders.prompt (builders : Builders) : Call → PyString
  | .draft => builders.draft
  | .review ownLabel drafts => builders.review ownLabel drafts
  | .synthesis drafts reviews => builders.synthesis drafts reviews

def Brief.parts (brief : Brief) : Call → List Part
  | .draft => brief.draftParts
  | .review ownLabel drafts => brief.reviewParts ownLabel drafts
  | .synthesis drafts reviews => brief.synthesisParts drafts reviews

/-- The artifacts that peers contributed, under the labels that the prompt gives them. -/
def Call.peers : Call → List Artifact
  | .draft => []
  | .review _ drafts => drafts
  | .synthesis drafts reviews =>
    drafts.map (fun draft => ⟨artifactLabel draft.label,draft.text⟩) ++
      reviews.map (fun review => ⟨reviewLabel review.label,review.text⟩)

/-- The artifacts of a prompt in order: the evidence, when there is any, then the peers'. -/
def artifacts (evidence : PyString) (call : Call) : List Artifact :=
  (if blank evidence then [] else [⟨"evidence",evidence⟩]) ++ call.peers

/-- Every label of the call stands on one line. -/
def Call.LineFree : Call → Prop
  | .draft => True
  | .review ownLabel drafts => LineText.LineFree ownLabel ∧ ∀ draft ∈ drafts, LineText.LineFree draft.label
  | .synthesis drafts reviews => ∀ peer ∈ drafts ++ reviews, LineText.LineFree peer.label

/-- Two uses of one builder, with the same own label and the same numbers of artifacts. -/
def Call.SameShape : Call → Call → Prop
  | .draft, .draft => True
  | .review ownLabel drafts, .review ownLabel' drafts' =>
    ownLabel = ownLabel' ∧ drafts.length = drafts'.length
  | .synthesis drafts reviews, .synthesis drafts' reviews' =>
    drafts.length = drafts'.length ∧ reviews.length = reviews'.length
  | _, _ => False

def plainText (text : PyString) : Bool :=
  text.all (fun c => !isLineBreak c) && !fenceLine text && !markerLine text &&
    (text.getLast?.map isSpace == some false)

theorem plainText_quiet {text : PyString} (plain : plainText text = true) :
    (Part.own text).Quiet ∧ Inked text := by
  simp only [plainText, Bool.and_eq_true, List.all_eq_true, Bool.not_eq_true', beq_iff_eq,
    Option.map_eq_some_iff] at plain
  obtain ⟨⟨⟨free,unfenced⟩,unmarked⟩,c,ends,letter⟩ := plain
  obtain ⟨body,same⟩ := List.getLast?_eq_some_iff.mp ends
  refine ⟨⟨⟨lineFree_closed free,fun line member => ?_⟩,fun line member => ?_⟩,body,c,same,letter⟩
  · rw [pieces_free free, List.mem_singleton] at member
    rw [member]
    exact unfenced
  · rw [pieces_free free, List.mem_singleton] at member
    rw [member]
    exact unmarked

/-- The texts of the builders' author that stand as parts of their own. -/
theorem texts_plain : plainText untrustedRule = true ∧
    (∀ mode ∈ [Mode.projectPlan,.milestoneReview], plainText (draftIntro mode) = true ∧
      plainText (reviewIntro mode) = true ∧ plainText (synthIntro mode) = true) ∧
    plainText independentHeading = true ∧ plainText crossReviewsHeading = true := by
  rw [List.forall_mem_cons, List.forall_mem_singleton]
  unfold untrustedRule draftIntro reviewIntro synthIntro
  repeat rw [points_ofList]
  decide +kernel

theorem intros_plain (mode : Mode) : plainText (draftIntro mode) = true ∧
    plainText (reviewIntro mode) = true ∧ plainText (synthIntro mode) = true := by
  apply texts_plain.2.1
  cases mode with
  | projectPlan => exact List.mem_cons_self
  | milestoneReview => exact List.mem_cons_of_mem _ List.mem_cons_self

theorem emptyLine_quiet : emptyLine.Quiet := by
  refine ⟨⟨by decide,fun line member => ?_⟩,fun line member => ?_⟩
  · rw [List.mem_singleton.mp member]
    exact fences_apart.2.2.2.1
  · rw [List.mem_singleton.mp member]
    exact fences_apart.2.2.2.2

theorem ownLabel_quiet {ownLabel : PyString} (free : LineFree ownLabel) :
    (Part.own (say ["Your own artifact is labeled ",ownLabel,"."])).Quiet := by
  have ⟨_,_,_,_,_,first,last⟩ := words_free
  obtain ⟨rest,start⟩ : ∃ rest, points "Your own artifact is labeled " = 89 :: rest :=
    ⟨_,points_ofList _⟩
  have whole : say ["Your own artifact is labeled ",ownLabel,"."] =
      points "Your own artifact is labeled " ++ (ownLabel ++ points ".") := by
    simp only [say, List.flatten_cons, List.flatten_nil, List.append_nil]
  have single := lineFree_append first (lineFree_append free last)
  have plain : fenceLine (points "Your own artifact is labeled " ++ (ownLabel ++ points ".")) = false ∧
      markerLine (points "Your own artifact is labeled " ++ (ownLabel ++ points ".")) = false := by
    rw [start, List.cons_append]
    exact plain_start (by decide) (by decide)
  rw [whole]
  refine ⟨⟨lineFree_closed single,fun line member => ?_⟩,fun line member => ?_⟩
  · rw [pieces_free single, List.mem_singleton] at member
    rw [member]
    exact plain.1
  · rw [pieces_free single, List.mem_singleton] at member
    rw [member]
    exact plain.2

theorem fencedParts_quiet {rename : PyString → PyString} {peers : List Artifact}
    (free : ∀ peer ∈ peers, LineFree (rename peer.label)) {part : Part}
    (member : part ∈ fencedParts rename peers) : part.Quiet := by
  obtain ⟨peer,known,listed⟩ := List.mem_flatMap.mp member
  simp only [List.mem_cons, List.not_mem_nil, or_false] at listed
  rcases listed with rfl | rfl
  · exact ⟨free peer known,trivial⟩
  · exact emptyLine_quiet

theorem prefixed_free {label : PyString} (free : LineFree label) :
    LineFree (artifactLabel label) ∧ LineFree (reviewLabel label) := by
  have ⟨_,_,_,first,second,_⟩ := words_free
  simp only [artifactLabel, reviewLabel, say, List.flatten_cons, List.flatten_nil, List.append_nil]
  exact ⟨lineFree_append first free,lineFree_append second free⟩

/-- The parts behind the task in the context of a prompt. -/
def Brief.evidenceParts (brief : Brief) : List Part :=
  if brief.hasEvidence then
    [emptyLine,.own untrustedRule,emptyLine,.untrusted brief.evidenceBlock] else []

theorem evidenceParts_quiet {part : Part} (member : part ∈ brief.evidenceParts) : part.Quiet := by
  unfold Brief.evidenceParts at member
  split at member
  · simp only [List.mem_cons, List.not_mem_nil, or_false] at member
    rcases member with rfl | rfl | rfl | rfl
    · exact emptyLine_quiet
    · exact (plainText_quiet texts_plain.1).1
    · exact emptyLine_quiet
    · exact ⟨words_free.2.2.1,trivial⟩
  · exact absurd member List.not_mem_nil

/-- The parts of a prompt around the task. -/
theorem parts_around (brief : Brief) {call : Call} (free : call.LineFree) : ∃ before behind,
    brief.parts call = before ++ .own brief.taskBlock :: behind ∧
      ∀ part ∈ before ++ behind, part.Quiet := by
  have rule := (plainText_quiet texts_plain.1).1
  cases call with
  | draft =>
    refine ⟨[.own (draftIntro brief.mode),emptyLine],brief.evidenceParts ++
      (if brief.hasEvidence then [] else [emptyLine,.own untrustedRule]),by
        simp [Brief.parts, Brief.draftParts, Brief.context, Brief.evidenceParts],?_⟩
    intro part member
    simp only [List.mem_append, List.mem_cons, List.not_mem_nil, or_false] at member
    rcases member with (rfl | rfl) | inside | last
    · exact (plainText_quiet (intros_plain _).1).1
    · exact emptyLine_quiet
    · exact evidenceParts_quiet inside
    · split at last
      · exact absurd last List.not_mem_nil
      · simp only [List.mem_cons, List.not_mem_nil, or_false] at last
        rcases last with rfl | rfl
        · exact emptyLine_quiet
        · exact rule
  | review ownLabel drafts =>
    refine ⟨[.own (reviewIntro brief.mode),emptyLine,.own untrustedRule,emptyLine,
      .own (say ["Your own artifact is labeled ",ownLabel,"."]),emptyLine],brief.evidenceParts ++
      ([emptyLine] ++ fencedParts id drafts),by
        simp [Brief.parts, Brief.reviewParts, Brief.context, Brief.evidenceParts],?_⟩
    intro part member
    simp only [List.mem_append, List.mem_cons, List.not_mem_nil, or_false] at member
    rcases member with (rfl | rfl | rfl | rfl | rfl | rfl) | inside | rfl | last
    · exact (plainText_quiet (intros_plain _).2.1).1
    · exact emptyLine_quiet
    · exact rule
    · exact emptyLine_quiet
    · exact ownLabel_quiet free.1
    · exact emptyLine_quiet
    · exact evidenceParts_quiet inside
    · exact emptyLine_quiet
    · exact fencedParts_quiet free.2 last
  | synthesis drafts reviews =>
    refine ⟨[.own (synthIntro brief.mode),emptyLine,.own untrustedRule,emptyLine],
      brief.evidenceParts ++ ([emptyLine,.own independentHeading,emptyLine] ++
        (fencedParts artifactLabel drafts ++ ([.own crossReviewsHeading,emptyLine] ++
          fencedParts reviewLabel reviews))),by
        simp [Brief.parts, Brief.synthesisParts, Brief.context, Brief.evidenceParts],?_⟩
    intro part member
    simp only [List.mem_append, List.mem_cons, List.not_mem_nil, or_false] at member
    rcases member with (rfl | rfl | rfl | rfl) | inside | (rfl | rfl | rfl) | early |
      (rfl | rfl) | last
    · exact (plainText_quiet (intros_plain _).2.2).1
    · exact emptyLine_quiet
    · exact rule
    · exact emptyLine_quiet
    · exact evidenceParts_quiet inside
    · exact emptyLine_quiet
    · exact (plainText_quiet texts_plain.2.2.1).1
    · exact emptyLine_quiet
    · exact fencedParts_quiet (fun peer known =>
        (prefixed_free (free peer (List.mem_append_left _ known))).1) early
    · exact (plainText_quiet texts_plain.2.2.2).1
    · exact emptyLine_quiet
    · exact fencedParts_quiet (fun peer known =>
        (prefixed_free (free peer (List.mem_append_right _ known))).2) last

/-- The parts end in a letter, up to an empty part at the very end. -/
def Ended (parts : List Part) : Prop :=
  ∃ front last rest, parts = front ++ [last] ++ rest ∧ Inked last.text ∧
    (rest = [] ∨ rest = [emptyLine])

theorem ended_fenced (front : List Part) (last : Part) (inked : Inked last.text)
    (rename : PyString → PyString) (peers : List Artifact) :
    Ended (front ++ [last] ++ [emptyLine] ++ fencedParts rename peers) := by
  rcases List.eq_nil_or_concat peers with rfl | ⟨early,peer,rfl⟩
  · exact ⟨front,last,[emptyLine],by simp [fencedParts],inked,.inr rfl⟩
  · refine ⟨front ++ [last] ++ [emptyLine] ++ fencedParts rename early,
      .untrusted ⟨rename peer.label,peer.text⟩,[emptyLine],?_,untrusted_inked _,.inr rfl⟩
    simp [fencedParts]

theorem context_ended (brief : Brief) (front : List Part) : ∃ start last, front ++ brief.context = start ++ [last] ∧
    Inked last.text := by
  unfold Brief.context
  split
  · refine ⟨front ++ [.own brief.taskBlock,emptyLine,.own untrustedRule,emptyLine],
      .untrusted brief.evidenceBlock,by simp,untrusted_inked _⟩
  · exact ⟨front,.own brief.taskBlock,rfl,taskBlock_inked brief⟩

theorem parts_ended (brief : Brief) (call : Call) : Ended (brief.parts call) := by
  cases call with
  | draft =>
    show Ended (brief.draftParts)
    unfold Brief.draftParts
    by_cases some_evidence : brief.hasEvidence = true
    · obtain ⟨start,last,same,inked⟩ :=
        context_ended brief [.own (draftIntro brief.mode),emptyLine]
      rw [if_pos some_evidence, same]
      exact ⟨start,last,[],rfl,inked,.inl rfl⟩
    · rw [if_neg some_evidence]
      refine ⟨[.own (draftIntro brief.mode),emptyLine] ++ brief.context ++ [emptyLine],
        .own untrustedRule,[],?_,(plainText_quiet texts_plain.1).2,.inl rfl⟩
      rw [List.append_nil, List.append_assoc _ [emptyLine]]
      rfl
  | review ownLabel drafts =>
    show Ended (brief.reviewParts ownLabel drafts)
    unfold Brief.reviewParts
    obtain ⟨start,last,same,inked⟩ := context_ended brief
      [.own (reviewIntro brief.mode),emptyLine,.own untrustedRule,emptyLine,
        .own (say ["Your own artifact is labeled ",ownLabel,"."]),emptyLine]
    rw [same]
    exact ended_fenced start last inked id drafts
  | synthesis drafts reviews =>
    show Ended (brief.synthesisParts drafts reviews)
    unfold Brief.synthesisParts
    have heading := (plainText_quiet texts_plain.2.2.2).2
    have whole := ended_fenced ([.own (synthIntro brief.mode),emptyLine,
      .own untrustedRule,emptyLine] ++ brief.context ++ [emptyLine,.own independentHeading,emptyLine] ++
      fencedParts artifactLabel drafts) (.own crossReviewsHeading) heading reviewLabel reviews
    rw [List.append_assoc _ [Part.own crossReviewsHeading] [emptyLine]] at whole
    exact whole

theorem artifactsOf_fenced (rename : PyString → PyString) (peers : List Artifact) :
    artifactsOf (fencedParts rename peers) =
      peers.map (fun peer => ⟨rename peer.label,peer.text⟩) := by
  induction peers with
  | nil => rfl
  | cons peer peers ih =>
    show Artifact.mk _ _ :: artifactsOf (fencedParts rename peers) = _
    rw [ih, List.map_cons]

theorem artifactsOf_context : artifactsOf brief.context =
    if blank brief.evidence then [] else [⟨"evidence",brief.evidence⟩] := by
  unfold Brief.context Brief.hasEvidence
  by_cases nothing : blank brief.evidence = true
  · rw [nothing]
    rfl
  · rw [Bool.not_eq_true] at nothing
    rw [nothing]
    rfl

theorem artifactsOf_rule (absent : Bool) :
    artifactsOf (if absent then [] else [emptyLine,.own untrustedRule]) = [] := by
  cases absent <;> rfl

theorem artifactsOf_parts (brief : Brief) (call : Call) :
    artifactsOf (brief.parts call) = artifacts brief.evidence call := by
  cases call with
  | draft =>
    simp only [Brief.parts, Brief.draftParts, artifactsOf_append, artifactsOf_context, artifacts,
      Call.peers, artifactsOf_rule]
    simp [artifactsOf, emptyLine]
  | review ownLabel drafts =>
    simp only [Brief.parts, Brief.reviewParts, artifactsOf_append, artifactsOf_context,
      artifactsOf_fenced, artifacts, Call.peers, id_eq, List.map_id']
    simp [artifactsOf, emptyLine]
  | synthesis drafts reviews =>
    simp only [Brief.parts, Brief.synthesisParts, artifactsOf_append, artifactsOf_context,
      artifactsOf_fenced, artifacts, Call.peers]
    simp [artifactsOf, emptyLine]

theorem fencedParts_erased (rename : PyString → PyString) {peers peers' : List Artifact}
    (same : peers.length = peers'.length) :
    (fencedParts rename peers).map Part.erased = (fencedParts rename peers').map Part.erased := by
  induction peers generalizing peers' with
  | nil => rw [List.length_eq_zero_iff.mp same.symm]
  | cons peer peers ih =>
    cases peers' with
    | nil => exact absurd same (by simp)
    | cons peer' peers' =>
      have later := ih (Nat.succ.inj same)
      simp only [fencedParts, List.flatMap_cons, List.map_append] at later ⊢
      rw [later]
      rfl

/-- The parts of a prompt, up to its artifacts, depend on the trusted side only. -/
theorem parts_erased {evidence' : PyString} {mode : Mode} {call call' : Call}
    (written : blank evidence = blank evidence') (shape : call.SameShape call') :
    ((Brief.mk mode task evidence).parts call).map Part.erased =
      ((Brief.mk mode task evidence').parts call').map Part.erased := by
  have present : (Brief.mk mode task evidence).hasEvidence =
      (Brief.mk mode task evidence').hasEvidence := by
    rw [Brief.hasEvidence, Brief.hasEvidence, written]
  have context : (Brief.mk mode task evidence).context.map Part.erased =
      (Brief.mk mode task evidence').context.map Part.erased := by
    rw [Brief.context, Brief.context, present]
    cases (Brief.mk mode task evidence').hasEvidence <;> rfl
  cases call with
  | draft =>
    cases call' with
    | draft =>
      simp only [Brief.parts, Brief.draftParts, List.map_append, context]
      rw [present]
    | review => exact absurd shape not_false
    | synthesis => exact absurd shape not_false
  | review ownLabel drafts =>
    cases call' with
    | draft => exact absurd shape not_false
    | review ownLabel' drafts' =>
      obtain ⟨rfl,long⟩ := shape
      simp only [Brief.parts, Brief.reviewParts, List.map_append, context,
        fencedParts_erased id long]
    | synthesis => exact absurd shape not_false
  | synthesis drafts reviews =>
    cases call' with
    | draft => exact absurd shape not_false
    | review => exact absurd shape not_false
    | synthesis drafts' reviews' =>
      simp only [Brief.parts, Brief.synthesisParts, List.map_append, context,
        fencedParts_erased artifactLabel shape.1, fencedParts_erased reviewLabel shape.2]

theorem makeBuilders_ok (made : makeBuilders library mode task evidence = .ok builders) :
    ∃ known, Mode.parse mode = some known ∧ blank task = false ∧
      ∀ call, builders.prompt call = promptText ((Brief.mk known task evidence).parts call) := by
  unfold makeBuilders at made
  split at made
  · exact absurd made (by simp)
  · rename_i known parsed
    split at made
    · exact absurd made (by simp)
    · rename_i written
      rw [pure_ok] at made
      refine ⟨known,parsed,by simpa using written,fun call => ?_⟩
      subst made
      cases call <;> rfl

end Builders

end PromptFence

end EvidenceV4
