import EvidenceV4.MigrationCoverage
import EvidenceV4.SeparatedFields
import EvidenceV4.ShellCommand

/-!
# Recorded commands and the shell

The migration splits a command at its semicolons and each part into words. It
knows no comments and no reserved words, skips a part that is blank, and lists
most of the commands that a shell carries out itself.
-/

set_option autoImplicit false

namespace EvidenceV4

namespace Migration

open CheckedExcept
open CheckerJson (PyString points)
open PythonData
open ShellCommand

section Words

/-- The lexer of the migration and the shell have read the same part of a word. -/
inductive SameRead : LexState → PyString → Bool → State → Raw → Prop where
  | between : SameRead .between [] false .between []
  | word {token : PyString} {quoted : Bool} {raw : Raw} (text : unquote raw = token)
      (closed : openMark none raw = none) (filled : token.isEmpty = false ∨ quoted = true) :
      SameRead .word token quoted .word raw
  | quotation {mark : ℕ} {token : PyString} {quoted : Bool} {raw : Raw}
      (text : unquote raw = token) (opened : openMark none raw = some mark) :
      SameRead (.quotation mark) token quoted (.quotation mark) raw

theorem unquote_letter {c : ℕ} {raw : Raw} (closed : openMark none raw = none)
    (plain : isQuote c = false) : unquote (raw ++ [c]) = unquote raw ++ [c] ∧
      openMark none (raw ++ [c]) = none := by
  constructor
  · rw [unquote, unquoteFrom_append, closed, unquoteFrom, plain]
    rfl
  · rw [openMark_append, closed, openMark, plain]
    rfl

theorem unquote_opens {c : ℕ} {raw : Raw} (closed : openMark none raw = none)
    (quote : isQuote c = true) : unquote (raw ++ [c]) = unquote raw ∧
      openMark none (raw ++ [c]) = some c := by
  constructor
  · rw [unquote, unquoteFrom_append, closed, unquoteFrom, quote]
    exact List.append_nil _
  · rw [openMark_append, closed, openMark, quote]
    rfl

theorem quotes_isQuote (c : ℕ) : quotes c = isQuote c := rfl

/-- Both lexers find the same words in a text without line ends. -/
theorem shellWords_words {text : PyString} (lines : ∀ c ∈ text, c ≠ 10 ∧ c ≠ 13) {state : LexState}
    {token : PyString} {quoted : Bool} {state' : State} {raw : Raw}
    (same : SameRead state token quoted state' raw) :
    shellWords state token quoted text =
      ((words state' raw text).map (fun found => Except.ok (found.map unquote))).getD
        (.error (points "No closing quotation")) := by
  have spaces : ∀ {c : ℕ}, c ≠ 10 ∧ c ≠ 13 → shellSpace c = isBlank c := by
    intro c ⟨feed,carriage⟩
    rw [Bool.eq_iff_iff]
    simp only [shellSpace, isBlank, Bool.or_eq_true, beq_iff_eq]
    omega
  induction text generalizing state token quoted state' raw with
  | nil =>
    cases same with
    | between => rfl
    | word text closed filled =>
      rw [shellWords, if_pos filled, ← text]
      · rfl
      · exact nofun
    | quotation text opened => rfl
  | cons c rest ih =>
    obtain ⟨now,later⟩ := List.forall_mem_cons.mp lines
    cases same with
    | between =>
      rw [shellWords, words, spaces now]
      by_cases blank : isBlank c = true
      · rw [if_pos blank, if_pos blank]
        exact ih later .between
      · rw [if_neg blank, if_neg blank]
        rw [quotes_isQuote]
        by_cases quote : isQuote c = true
        · have opened := @unquote_opens c [] rfl quote
          rw [if_pos quote, if_pos quote]
          exact ih later (.quotation opened.1 opened.2)
        · have letter := @unquote_letter c [] rfl (Bool.eq_false_iff.mpr quote)
          rw [if_neg quote, if_neg quote]
          exact ih later (.word letter.1 letter.2 (.inl rfl))
    | word text closed filled =>
      rw [shellWords, words, spaces now]
      by_cases blank : isBlank c = true
      · rw [if_pos blank, if_pos blank, if_pos filled, ih later .between, ← text]
        cases words .between [] rest with
        | none => rfl
        | some found => rfl
      · rw [if_neg blank, if_neg blank]
        rw [quotes_isQuote]
        by_cases quote : isQuote c = true
        · obtain ⟨kept,opened⟩ := unquote_opens closed quote
          rw [if_pos quote, if_pos quote]
          exact ih later (.quotation (kept.trans text) opened)
        · obtain ⟨grown,closed⟩ := unquote_letter closed (Bool.eq_false_iff.mpr quote)
          rw [if_neg quote, if_neg quote]
          exact ih later (.word (by rw [grown, text]) closed (.inl (by simp)))
    | @quotation mark _ _ _ text opened =>
      rw [shellWords, words]
      by_cases closes : c = mark
      · rw [if_pos closes, if_pos closes]
        apply ih later
        apply SameRead.word
        · rw [unquote, unquoteFrom_append, opened, unquoteFrom, if_pos closes, ← text]
          exact List.append_nil _
        · rw [openMark_append, opened, openMark, if_pos closes]
          rfl
        · exact .inr rfl
      · rw [if_neg closes, if_neg closes]
        apply ih later
        apply SameRead.quotation
        · rw [unquote, unquoteFrom_append, opened, unquoteFrom, if_neg closes, ← text]
          rfl
        · rw [openMark_append, opened, openMark, if_neg closes]
          rfl

end Words

section Segments

variable {host : Host} {segment : PyString} {argv : List PyString}

theorem special_listed {c : ℕ} (listed : shellCharacters.contains c = false) :
    special c = false ∧ c ≠ 10 ∧ c ≠ 13 := by
  have known : ∀ c ∈ letters "|&<>()$`\\*?[~\x7b\x7d!" ++ [10,13], shellCharacters.contains c = true := by
    decide +kernel
  refine ⟨?_,?_,?_⟩
  · cases found : special c with
    | false => rfl
    | true =>
      rw [known c (List.mem_append_left _ (List.contains_iff_mem.mp found))] at listed
      cases listed
  · rintro rfl
    rw [known 10 (by decide)] at listed
    cases listed
  · rintro rfl
    rw [known 13 (by decide)] at listed
    cases listed

/-- The utilities that the shell carries out itself and the migration does not list. -/
def missedUtilities : List PyString := ["break","continue","fc","getopts"]

theorem ownUtilities_missed : ∀ name ∈ ownUtilities, name ∈ shellOnlyCommands ∨ name ∈ missedUtilities := by
  decide +kernel

theorem missed_own : ∀ name ∈ missedUtilities, name ∈ ownUtilities := by decide +kernel

/-- An accepted segment is a plain text, and its words are those that the shell reads. -/
theorem splitSegment_words (apart : 59 ∉ segment) (accepted : splitSegment host segment = .ok argv) :
    ∃ found, Plain segment ∧ words .between [] segment = some found ∧ found ≠ [] ∧
      argv = found.map unquote ∧ assigns (argv.headD []) = false ∧
      argv.headD [] ∉ shellOnlyCommands := by
  unfold splitSegment at accepted
  dsimp only at accepted
  obtain ⟨_,listed,accepted⟩ := (bind_ok _ _ _).mp accepted
  have ordinary : ∀ c ∈ segment, shellCharacters.contains c = false := by
    have sorted := (check_ok _ _ _).mp listed
    have empty : segment.filter (fun c => shellCharacters.contains c) = [] := by
      rw [sortedPoints, ← List.length_eq_zero_iff, List.length_insertionSort,
        List.length_eq_zero_iff, List.dedup_eq_nil] at sorted
      exact sorted
    intro c inside
    exact Bool.eq_false_iff.mpr (List.filter_eq_nil_iff.mp empty c inside)
  have lines : ∀ c ∈ segment, c ≠ 10 ∧ c ≠ 13 := fun c inside => (special_listed (ordinary c inside)).2
  have plain : Plain segment := by
    intro c inside
    obtain ⟨quiet,feed,_⟩ := special_listed (ordinary c inside)
    exact ⟨fun same => apart (same ▸ inside),feed,quiet⟩
  rw [shellWords_words lines .between] at accepted
  cases read : words .between [] segment with
  | none =>
    rw [read] at accepted
    cases accepted
  | some found =>
    rw [read] at accepted
    obtain ⟨_,tokenized,accepted⟩ := (bind_ok _ _ _).mp accepted
    obtain rfl := (pure_ok _ _).mp tokenized
    obtain ⟨_,filled,accepted⟩ := (bind_ok _ _ _).mp accepted
    obtain ⟨_,assigned,accepted⟩ := (bind_ok _ _ _).mp accepted
    obtain ⟨_,builtin,accepted⟩ := (bind_ok _ _ _).mp accepted
    obtain rfl := (pure_ok _ _).mp accepted
    refine ⟨found,plain,rfl,?_,rfl,(check_ok _ _ _).mp assigned,(check_ok _ _ _).mp builtin⟩
    rintro rfl
    exact ((check_ok _ _ _).mp filled).1 rfl

theorem blank_idle (apart : 59 ∉ segment) (white : blank segment = true) : Idle segment := by
  intro c inside
  have space := List.all_eq_true.mp white c inside
  have marks : ∀ c ∈ letters "|&<>()$`\\*?[~\x7b\x7d!'\"#", isSpace c = false := by decide +kernel
  have other : ∀ {d : ℕ}, isSpace d = false → c ≠ d := by
    rintro d plain rfl
    rw [space] at plain
    cases plain
  refine ⟨fun same => apart (same ▸ inside),other (marks 35 (by decide)),?_,?_⟩
  · simp only [isQuote, Bool.or_eq_false_iff, beq_eq_false_iff_ne]
    exact ⟨other (marks 39 (by decide)),other (marks 34 (by decide))⟩
  · cases found : special c with
    | false => rfl
    | true =>
      have listed := marks c (List.mem_append_left (letters "'\"#") (List.contains_iff_mem.mp found))
      rw [space] at listed
      cases listed

end Segments

section Faithfulness

variable {host : Host} {text : PyString} {argvs : List (List PyString)}

/-- The shell runs these programs with these words, and reads no comment in the text. -/
def Faithful (text : PyString) (argvs : List (List PyString)) : Prop :=
  run text = some argvs ∧ ¬ Commented text

/-- Only the last part between semicolons may be blank, and of blanks and line ends alone; no word
starts a comment; and the first word of a part is neither a reserved word nor one of the utilities
of the shell that are not listed. -/
structure Translatable (text : PyString) : Prop where
  separated : ∀ segment ∈ (text.splitOn 59).dropLast, blank segment = false
  ended : ∀ segment ∈ (text.splitOn 59).getLast?, blank segment = true → Tidy segment
  uncommented : ∀ segment ∈ text.splitOn 59, blank segment = false →
    ∀ found ∈ words .between [] segment, ∀ raw ∈ found, ¬ startsComment raw
  named : ∀ segment ∈ text.splitOn 59, blank segment = false →
    ∀ found ∈ words .between [] segment, ∀ first ∈ found.head?,
      first ∉ reserved ∧ unquote first ∉ missedUtilities

/-- A part with its words, none when the migration skips it. -/
def piece (segment : PyString) : List ℕ × Option (List Raw) :=
  (segment,if blank segment = true then none else words .between [] segment)

def pieces (text : PyString) : Pieces := (text.splitOn 59).map piece

theorem joined_pieces (text : PyString) : joined (pieces text) = text := by
  rw [joined_intercalate, pieces, List.map_map]
  have same : (Prod.fst ∘ piece) = id := rfl
  rw [same, List.map_id, List.intercalate_splitOn]

theorem splitCommand_segments (accepted : splitCommand host (.str text) = .ok argvs) :
    List.Forall₂ (fun segment argv => splitSegment host segment = .ok argv)
      ((text.splitOn 59).filter (fun segment => !blank segment)) argvs := by
  unfold splitCommand at accepted
  by_cases white : blank text = true
  · have none : (textOf (.str text)).filter (fun text => !blank text) = none := by
      simp [textOf, white]
    rw [none] at accepted
    cases accepted
  · have kept : (textOf (.str text)).filter (fun text => !blank text) = some text := by
      simp [textOf, white]
    rw [kept] at accepted
    obtain ⟨found,each,accepted⟩ := (bind_ok _ _ _).mp accepted
    obtain ⟨_,_,accepted⟩ := (bind_ok _ _ _).mp accepted
    obtain rfl := (pure_ok _ _).mp accepted
    exact (mapM_ok _ _ _).mp each

/-- What the acceptance of a segment says of its words. -/
structure Worded (raws : List Raw) : Prop where
  filled : raws ≠ []
  assigned : assigns ((raws.map unquote).headD []) = false
  listed : (raws.map unquote).headD [] ∉ shellOnlyCommands

theorem segments_pieces {segments : List PyString} (apart : ∀ segment ∈ segments, 59 ∉ segment)
    (each : List.Forall₂ (fun segment argv => splitSegment host segment = .ok argv)
      (segments.filter (fun segment => !blank segment)) argvs) :
    (∀ segment ∈ segments, Piece (piece segment) ∧
        ((piece segment).2 = none ↔ blank segment = true)) ∧
      argvs = (parts (segments.map piece)).map (fun raws => raws.map unquote) ∧
      ∀ raws ∈ parts (segments.map piece), Worded raws := by
  induction segments generalizing argvs with
  | nil =>
    cases each
    exact ⟨fun _ inside => absurd inside List.not_mem_nil,rfl,
      fun _ inside => absurd inside List.not_mem_nil⟩
  | cons segment segments ih =>
    obtain ⟨first,later⟩ := List.forall_mem_cons.mp apart
    by_cases white : blank segment = true
    · rw [List.filter_cons_of_neg (by simp [white])] at each
      obtain ⟨shapes,same,worded⟩ := ih later each
      have skipped : piece segment = (segment,none) := by rw [piece, if_pos white]
      rw [List.map_cons, List.forall_mem_cons, skipped]
      exact ⟨⟨⟨.idle (blank_idle first white),iff_of_true rfl white⟩,shapes⟩,same,worded⟩
    · rw [List.filter_cons_of_pos (by simp [white])] at each
      cases each with
      | cons accepted each =>
        obtain ⟨shapes,same,worded⟩ := ih later each
        obtain ⟨found,plain,read,filled,rfl,assigned,listed⟩ := splitSegment_words first accepted
        have kept : piece segment = (segment,some found) := by rw [piece, if_neg white, read]
        rw [List.map_cons, List.forall_mem_cons, kept]
        refine ⟨⟨⟨.command plain read filled,iff_of_false nofun white⟩,shapes⟩,?_,?_⟩
        · rw [same]
          rfl
        · exact List.forall_mem_cons.mpr ⟨⟨filled,assigned,listed⟩,worded⟩

theorem simple_worded {raws : List Raw} (worded : Worded raws) : (simple raws).isSome = true ↔
    ∀ first ∈ raws.head?, first ∉ reserved ∧ unquote first ∉ missedUtilities := by
  cases raws with
  | nil => exact absurd rfl worded.filled
  | cons first raws =>
    have unassigned : assignment first = false := by
      cases assigned : assignment first with
      | false => rfl
      | true =>
        have again := worded.assigned
        have same : assigns (unquote first) = true := assignment_unquote assigned
        rw [List.map_cons, List.headD_cons, same] at again
        cases again
    have own : unquote first ∈ ownUtilities ↔ unquote first ∈ missedUtilities := by
      constructor
      · intro inside
        rcases ownUtilities_missed _ inside with listed | missed
        · exact absurd listed worded.listed
        · exact missed
      · exact missed_own _
    simp [simple, unassigned, own]

theorem pieces_found {segment : PyString} {found : List Raw} :
    found ∈ (piece segment).2 ↔ blank segment = false ∧ found ∈ words .between [] segment := by
  unfold piece
  cases blank segment with
  | true => simp
  | false => simp

theorem mem_parts {raws : List Raw} : raws ∈ parts (pieces text) ↔
    ∃ segment ∈ text.splitOn 59, blank segment = false ∧ raws ∈ words .between [] segment := by
  simp only [parts, pieces, List.mem_filterMap, List.mem_map, exists_exists_and_eq_and]
  constructor
  · rintro ⟨segment,inside,same⟩
    exact ⟨segment,inside,pieces_found.mp same⟩
  · rintro ⟨segment,inside,same⟩
    exact ⟨segment,inside,pieces_found.mpr same⟩

theorem uncommented_pieces : Uncommented (pieces text) ↔
    ∀ segment ∈ text.splitOn 59, blank segment = false →
      ∀ found ∈ words .between [] segment, ∀ raw ∈ found, ¬ startsComment raw := by
  simp only [Uncommented, pieces, List.forall_mem_map, pieces_found, and_imp]
  exact forall₂_congr (fun _ _ => forall_comm)

theorem separated_pieces (known : ∀ segment ∈ text.splitOn 59,
      (piece segment).2 = none ↔ blank segment = true) : Separated (pieces text) ↔
    (∀ segment ∈ (text.splitOn 59).dropLast, blank segment = false) ∧
      ∀ segment ∈ (text.splitOn 59).getLast?, blank segment = true → Tidy segment := by
  rw [separated_iff, pieces, ← List.map_dropLast, List.getLast?_map, List.forall_mem_map]
  constructor
  · rintro ⟨front,last⟩
    constructor
    · intro segment inside
      have filled := front segment inside
      rwa [Ne, known segment (List.dropLast_subset _ inside), Bool.not_eq_true] at filled
    · intro segment inside white
      have empty := (known segment (List.mem_of_getLast? inside)).mpr white
      exact last _ (Option.mem_map_of_mem piece inside) empty
  · rintro ⟨front,last⟩
    constructor
    · intro segment inside
      rw [Ne, known segment (List.dropLast_subset _ inside), Bool.not_eq_true]
      exact front segment inside
    · intro p inside empty
      obtain ⟨segment,final,rfl⟩ := Option.mem_map.mp inside
      exact last segment final ((known segment (List.mem_of_getLast? final)).mp empty)

/-- An accepted command is the command of the shell exactly when it holds none of the constructs
that the migration overlooks. -/
theorem splitCommand_iff (accepted : splitCommand host (.str text) = .ok argvs) :
    Faithful text argvs ↔ Translatable text := by
  obtain ⟨shapes,rfl,worded⟩ :=
    segments_pieces (SeparatedFields.splitOn_apart 59 text) (splitCommand_segments accepted)
  have each : ∀ p ∈ pieces text, Piece p :=
    List.forall_mem_map.mpr (fun segment inside => (shapes segment inside).1)
  have whole := run_iff each
  rw [joined_pieces] at whole
  have named : (∀ raws ∈ parts (pieces text), (simple raws).isSome = true) ↔
      ∀ segment ∈ text.splitOn 59, blank segment = false → ∀ found ∈ words .between [] segment,
        ∀ first ∈ found.head?, first ∉ reserved ∧ unquote first ∉ missedUtilities := by
    constructor
    · intro all segment inside filled found read
      have member := mem_parts.mpr ⟨segment,inside,filled,read⟩
      exact (simple_worded (worded found member)).mp (all found member)
    · intro all raws member
      obtain ⟨segment,inside,filled,read⟩ := mem_parts.mp member
      exact (simple_worded (worded raws member)).mpr (all segment inside filled raws read)
  apply whole.trans
  rw [uncommented_pieces, separated_pieces (fun segment inside => (shapes segment inside).2), named]
  constructor
  · rintro ⟨uncommented,⟨separated,ended⟩,named⟩
    exact ⟨separated,ended,uncommented,named⟩
  · rintro ⟨separated,ended,uncommented,named⟩
    exact ⟨uncommented,⟨separated,ended⟩,named⟩

def sampleCommand : PyString := points "cargo test 'a b'; cargo fmt;"

theorem splitCommand_iff_sample :
    Faithful sampleCommand [["cargo","test","a b"],["cargo","fmt"]] ↔ Translatable sampleCommand := by
  have accepted : splitCommand sampleHost (.str sampleCommand) =
      .ok [["cargo","test","a b"],["cargo","fmt"]] := by decide +kernel
  exact splitCommand_iff accepted

/-- A comment is taken for words. -/
theorem splitCommand_comment :
    splitCommand sampleHost (.str (points "cargo test # slow")) =
        .ok [["cargo","test","#","slow"]] ∧
      run (points "cargo test # slow") = some [[points "cargo",points "test"]] ∧
      ¬ Faithful (points "cargo test # slow") [["cargo","test","#","slow"]] := by
  have ran : run (points "cargo test # slow") = some [[points "cargo",points "test"]] := by
    decide +kernel
  refine ⟨by decide +kernel,ran,?_⟩
  rintro ⟨same,_⟩
  rw [ran] at same
  exact absurd same (by decide +kernel)

/-- A conditional is taken for three commands. -/
example : splitCommand sampleHost (.str (points "if true; then false; fi")) =
    .ok [["if","true"],["then","false"],["fi"]] := by decide +kernel

end Faithfulness

end Migration

end EvidenceV4
