import EvidenceV4.ObligationSpec
import EvidenceV4.PromptBlocks

/-!
# The verdict of a voice's report

A report is searched for an inline verdict, then for a verdict below a header,
then for a bare keyword. Each search passes over the menu that a model may copy
from its prompt; the first one looks for the menu in the words that it took from
a line, where a menu has already lost its bars.
-/

set_option autoImplicit false

namespace EvidenceV4

namespace VoiceVerdict

open CheckerJson (PyString points)
open EvidenceArtifact (splitlines pieces occurs isLineBreak dropEmptyLast)
open LineText
open Obligation (edge)
open PythonData

/-- What the character tables say: the characters of words, and upper case,
which white space is free of. -/
structure Casing where
  word : ℕ → Bool
  upper : ℕ → List ℕ
  spaces : ∀ c, isSpace c = true → upper c = [c]

section Matching

/-- A lower-case letter or a sign of a pattern that ignores case. -/
def matchesLetter (c p : ℕ) : Bool :=
  p == c || (97 ≤ c && p + 32 == c) || (c == 105 && (p == 0x130 || p == 0x131)) ||
    (c == 115 && p == 0x17f) || (c == 107 && p == 0x212a)

/-- What follows a literal that is matched without regard to case. -/
def spelled : PyString → PyString → Option PyString
  | [], subject => some subject
  | _ :: _, [] => none
  | c :: literal, p :: subject => if matchesLetter c p then spelled literal subject else none

/-- `[A-Za-z\- ]` -/
def phrase (p : ℕ) : Bool :=
  (65 ≤ p && p ≤ 90) || (97 ≤ p && p ≤ 122) || p == 45 || p == 32 ||
    p == 0x130 || p == 0x131 || p == 0x17f || p == 0x212a

/-- `[:\s]` -/
def separator (p : ℕ) : Bool := p == 58 || isSpace p

/-- Behind `[:\s]+`, which takes as much as leaves a phrase. -/
def phraseStart : PyString → Option PyString
  | [] => none
  | c :: rest =>
    if separator c then
      (phraseStart rest).or (if (rest.head?.map phrase).getD false then some rest else none)
    else none

/-- `(?:\s*\([^)]*\))?` -/
def remark (subject : PyString) : PyString :=
  match subject.dropWhile isSpace with
  | [] => []
  | c :: inner =>
    if c = 40 ∧ 41 ∈ inner then
      subject.takeWhile isSpace ++ c :: (inner.takeWhile (fun p => p != 41) ++ [41])
    else []

/-- The group of `VERDICT_INLINE_RE` at this place. -/
def inlineAt (subject : PyString) : Option PyString :=
  (spelled "verdict" subject).bind (fun rest =>
    (phraseStart rest).map (fun start => start.takeWhile phrase ++ remark (start.dropWhile phrase)))

/-- The first place of a text where a pattern matches, told what stands before it. -/
def search (pattern : Option ℕ → PyString → Option PyString) :
    Option ℕ → PyString → Option PyString
  | before, [] => pattern before []
  | before, c :: rest => (pattern before (c :: rest)).or (search pattern (some c) rest)

def inlineVerdict (line : PyString) : Option PyString :=
  (search (fun _ => inlineAt) none line).map strip

/-- `VERDICT_HEADER_RE.match` -/
def isHeader (line : PyString) : Bool :=
  match line with
  | [] => false
  | c :: rest =>
    c == 35 && ((spelled "verdict" ((rest.dropWhile (fun p => p == 35)).dropWhile isSpace)).map
      (fun behind => behind.all isSpace)).getD false

def keywords : List PyString :=
  ["breaks-again","breaksagain","breaks","survives","indeterminate"].map points

variable (casing : Casing)

/-- The group of `VERDICT_KEYWORD_RE` at this place. -/
def keywordAt (before : Option ℕ) (subject : PyString) : Option PyString :=
  if edge casing.word before subject then
    keywords.findSome? (fun keyword => (spelled keyword subject).bind (fun rest =>
      let found := subject.take keyword.length
      if edge casing.word found.getLast? rest then some found else none))
  else none

def upperText (text : PyString) : PyString := text.flatMap casing.upper

def keywordVerdict (line : PyString) : Option PyString :=
  (search (keywordAt casing) none line).map (upperText casing)

end Matching

section Extraction

variable (casing : Casing)

/-- `_is_template_echo` -/
def isTemplateEcho (s : PyString) : Bool :=
  decide (124 ∈ s) && occurs "SURVIVES" (upperText casing s) && occurs "BREAKS" (upperText casing s)

/-- The inline verdict of a line, unless its words are the menu. -/
def inlineTaken (line : PyString) : Option PyString :=
  (inlineVerdict line).filter (fun verdict => !isTemplateEcho casing verdict)

def emphasis (c : ℕ) : Bool := c == 42 || c == 95 || c == 96

def bare (text : PyString) : PyString :=
  ((text.dropWhile emphasis).reverse.dropWhile emphasis).reverse

def followTaken (line : PyString) : Bool :=
  strip line != [] && !isTemplateEcho casing (strip line)

def headerVerdict : List PyString → Option PyString
  | [] => none
  | line :: rest =>
    if isHeader line then
      match rest.find? (followTaken casing) with
      | some follow => some (bare (strip follow))
      | none => headerVerdict rest
    else headerVerdict rest

def keywordTaken (line : PyString) : Option PyString :=
  if isTemplateEcho casing line then none else keywordVerdict casing line

def verdictOf (lines : List PyString) : Option PyString :=
  ((lines.reverse.findSome? (inlineTaken casing)).or (headerVerdict casing lines)).or
    (lines.reverse.findSome? (keywordTaken casing))

def extractVerdict (content : PyString) : PyString :=
  (verdictOf casing (splitlines content)).getD "(no verdict line found)"

end Extraction

section Texts

theorem splitlines_free (content : PyString) : ∀ line ∈ splitlines content, LineFree line :=
  fun _ member => pieces_mem_free (PromptFence.splitlines_subset member)

end Texts

section Lists

variable {α β : Type} {keep : α → Bool} {xs : List α}

/-- Dropping elements changes no search whose first hit is kept. -/
theorem findSome?_filter {f : α → Option β}
    (first : ∀ x, xs.find? (fun x => (f x).isSome) = some x → keep x = true) :
    (xs.filter keep).findSome? f = xs.findSome? f := by
  induction xs with
  | nil => rfl
  | cons x xs ih =>
    cases hit : f x with
    | some y =>
      have stays : keep x = true := first x (by rw [List.find?_cons_of_pos (by simp [hit])])
      rw [List.filter_cons_of_pos stays, List.findSome?_cons, List.findSome?_cons, hit]
    | none =>
      have later := ih (fun y found => first y (by
        rw [List.find?_cons_of_neg (by simp [hit])]
        exact found))
      by_cases stays : keep x = true
      · rw [List.filter_cons_of_pos stays, List.findSome?_cons, List.findSome?_cons, hit, later]
      · rw [List.filter_cons_of_neg stays, List.findSome?_cons, hit, later]

theorem find?_kept {p : α → Bool} (kept : ∀ x, p x = true → keep x = true) :
    (xs.filter keep).find? p = xs.find? p := by
  rw [List.find?_filter]
  congr
  funext x
  cases hit : p x with
  | false => simp
  | true => simp [kept x hit]

end Lists

section Echo

variable {casing : Casing} {line part front back text : PyString}

/-- A literal that is found behind white space it does not hold lies behind that space. -/
theorem infix_behind (spaces : ∀ c ∈ front, c ∉ part) (filled : part ≠ []) :
    part <:+: front ++ text ↔ part <:+: text := by
  constructor
  · intro inside
    induction front with
    | nil => exact inside
    | cons c front ih =>
      obtain ⟨here,later⟩ := List.forall_mem_cons.mp spaces
      rcases List.infix_cons_iff.mp inside with start | behind
      · cases part with
        | nil => exact absurd rfl filled
        | cons d part =>
          obtain ⟨rfl,_⟩ := List.cons_prefix_cons.mp start
          exact absurd List.mem_cons_self here
      · exact ih later behind
  · exact List.infix_append_of_infix_right

theorem infix_before (spaces : ∀ c ∈ back, c ∉ part) (filled : part ≠ []) :
    part <:+: text ++ back ↔ part <:+: text := by
  have turned : part.reverse <:+: back.reverse ++ text.reverse ↔ part.reverse <:+: text.reverse := by
    apply infix_behind
    · simpa using spaces
    · simpa using filled
  rwa [← List.reverse_append, List.reverse_infix, List.reverse_infix] at turned

theorem upperText_spaces (spaces : text.all isSpace = true) : upperText casing text = text := by
  unfold upperText
  induction text with
  | nil => rfl
  | cons c text ih =>
    rw [List.all_cons, Bool.and_eq_true] at spaces
    rw [List.flatMap_cons, casing.spaces c spaces.1, ih spaces.2]
    rfl

theorem upperText_append (a b : PyString) :
    upperText casing (a ++ b) = upperText casing a ++ upperText casing b := List.flatMap_append

theorem occurs_strip {word : PyString} (solid : word.all (fun c => !isSpace c) = true)
    (filled : word ≠ []) :
    occurs word (upperText casing (strip line)) = occurs word (upperText casing line) := by
  obtain ⟨front,back,split,before,behind⟩ := strip_split line
  have apart : ∀ padding : PyString, padding.all isSpace = true → ∀ c ∈ padding, c ∉ word := by
    intro padding spaces c member inside
    have space := List.all_eq_true.mp spaces c member
    have inked := List.all_eq_true.mp solid c inside
    simp [space] at inked
  have whole : upperText casing line = front ++ (upperText casing (strip line) ++ back) := by
    nth_rewrite 1 [split]
    rw [upperText_append, upperText_append, upperText_spaces before, upperText_spaces behind,
      List.append_assoc]
  unfold occurs
  rw [whole, decide_eq_decide, infix_behind (apart front before) filled,
    infix_before (apart back behind) filled]

/-- White space around a line decides nothing about the menu. -/
theorem isTemplateEcho_strip : isTemplateEcho casing (strip line) = isTemplateEcho casing line := by
  obtain ⟨front,back,split,before,behind⟩ := strip_split line
  have bar : 124 ∈ strip line ↔ 124 ∈ line := by
    constructor
    · intro inside
      rw [split]
      exact List.mem_append_left _ (List.mem_append_right _ inside)
    · intro inside
      rw [split] at inside
      rcases List.mem_append.mp inside with inside | inside
      · rcases List.mem_append.mp inside with inside | inside
        · exact absurd (List.all_eq_true.mp before 124 inside) (by decide)
        · exact inside
      · exact absurd (List.all_eq_true.mp behind 124 inside) (by decide)
  unfold isTemplateEcho
  rw [occurs_strip (by decide) (by decide), occurs_strip (by decide) (by decide), decide_eq_decide.mpr bar]

/-- The menu is found in a line that holds a part with the menu. -/
theorem isTemplateEcho_within (inside : part <:+: line) (echo : isTemplateEcho casing part = true) :
    isTemplateEcho casing line = true := by
  obtain ⟨front,back,rfl⟩ := inside
  simp only [isTemplateEcho, Bool.and_eq_true, decide_eq_true_eq, occurs] at echo ⊢
  have grows : ∀ {word}, word <:+: upperText casing part →
      word <:+: upperText casing (front ++ part ++ back) := by
    intro word found
    rw [upperText_append, upperText_append]
    exact List.infix_append_of_infix_left (List.infix_append_of_infix_right found)
  exact ⟨⟨List.mem_append_left _ (List.mem_append_right _ echo.1.1),grows echo.1.2⟩,grows echo.2⟩

end Echo

section Groups

variable {subject rest start group : PyString}

theorem spelled_suffix {literal : PyString} (found : spelled literal subject = some rest) :
    ∃ read, subject = read ++ rest := by
  induction literal generalizing subject with
  | nil => exact ⟨[],by simpa [spelled] using found⟩
  | cons c literal ih =>
    cases subject with
    | nil => cases found
    | cons p subject =>
      rw [spelled] at found
      split at found
      · obtain ⟨read,rfl⟩ := ih found
        exact ⟨p :: read,rfl⟩
      · cases found

theorem phraseStart_suffix (found : phraseStart subject = some start) :
    ∃ read, subject = read ++ start := by
  induction subject with
  | nil => cases found
  | cons c subject ih =>
    rw [phraseStart] at found
    split at found
    · rcases Option.or_eq_some_iff.mp found with later | ⟨_,here⟩
      · obtain ⟨read,rfl⟩ := ih later
        exact ⟨c :: read,rfl⟩
      · split at here
        · exact ⟨[c],by rw [Option.some.inj here]; rfl⟩
        · cases here
    · cases found

theorem remark_starts (subject : PyString) : remark subject <+: subject := by
  unfold remark
  split
  · exact List.nil_prefix
  · next c inner left =>
    split
    · next closed =>
      have split_space : subject = subject.takeWhile isSpace ++ c :: inner := by
        rw [← left, List.takeWhile_append_dropWhile]
      have split_inner : inner.takeWhile (fun p => p != 41) ++ [41] <+: inner := by
        have behind : inner.dropWhile (fun p => p != 41) ≠ [] := by
          intro none_left
          have all := List.dropWhile_eq_nil_iff.mp none_left 41 closed.2
          exact absurd all (by decide)
        have head := List.head?_dropWhile_not (fun p => p != 41) inner
        cases found : inner.dropWhile (fun p => p != 41) with
        | nil => exact absurd found behind
        | cons d more =>
          rw [found] at head
          obtain rfl : d = 41 := by simpa using head
          refine ⟨more,?_⟩
          rw [List.append_assoc, List.singleton_append, ← found, List.takeWhile_append_dropWhile]
      nth_rewrite 2 [split_space]
      exact List.prefix_append_right_inj _ |>.mpr (List.cons_prefix_cons.mpr ⟨rfl,split_inner⟩)
    · exact List.nil_prefix

theorem inlineAt_within (found : inlineAt subject = some group) : group <:+: subject := by
  obtain ⟨rest,read,found⟩ := Option.bind_eq_some_iff.mp found
  obtain ⟨start,begun,rfl⟩ := Option.map_eq_some_iff.mp found
  obtain ⟨first,rfl⟩ := spelled_suffix read
  obtain ⟨second,rfl⟩ := phraseStart_suffix begun
  have inside : start.takeWhile phrase ++ remark (start.dropWhile phrase) <+: start := by
    nth_rewrite 3 [← @List.takeWhile_append_dropWhile _ phrase start]
    exact (List.prefix_append_right_inj _).mpr (remark_starts _)
  exact List.infix_append_of_infix_right (List.infix_append_of_infix_right inside.isInfix)

theorem search_within {pattern : Option ℕ → PyString → Option PyString}
    (each : ∀ before subject group, pattern before subject = some group → group <:+: subject)
    {before : Option ℕ} (found : search pattern before subject = some group) : group <:+: subject := by
  induction subject generalizing before with
  | nil => exact each _ _ _ found
  | cons c subject ih =>
    rcases Option.or_eq_some_iff.mp found with here | ⟨_,later⟩
    · exact each _ _ _ here
    · exact List.infix_cons (ih later)

theorem strip_within (text : PyString) : strip text <:+: text := by
  obtain ⟨front,back,split,_,_⟩ := strip_split text
  exact ⟨front,back,split.symm⟩

/-- What a line says inline is a part of the line. -/
theorem inlineVerdict_within {line verdict : PyString} (found : inlineVerdict line = some verdict) :
    verdict <:+: line := by
  obtain ⟨group,hit,rfl⟩ := Option.map_eq_some_iff.mp found
  exact (strip_within group).trans (search_within (fun _ _ _ => inlineAt_within) hit)

end Groups

section Law

variable {casing : Casing} {line menu : PyString} {lines : List PyString} {keep : PyString → Bool}

theorem spelled_mem {literal subject rest : PyString} (found : spelled literal subject = some rest)
    (letters : ∀ c ∈ literal, matchesLetter c 124 = false) (bar : 124 ∈ subject) : 124 ∈ rest := by
  induction literal generalizing subject with
  | nil =>
    obtain rfl : subject = rest := by simpa [spelled] using found
    exact bar
  | cons c literal ih =>
    obtain ⟨here,later⟩ := List.forall_mem_cons.mp letters
    cases subject with
    | nil => cases found
    | cons p subject =>
      rw [spelled] at found
      split at found
      · next hit =>
        rcases List.mem_cons.mp bar with rfl | bar
        · rw [here] at hit
          cases hit
        · exact ih found later bar
      · cases found

theorem mem_dropWhile {p : ℕ → Bool} {text : PyString} {c : ℕ} (stays : p c = false)
    (member : c ∈ text) : c ∈ text.dropWhile p := by
  rw [← @List.takeWhile_append_dropWhile _ p text] at member
  rcases List.mem_append.mp member with taken | left
  · rw [List.mem_takeWhile_imp taken] at stays
    cases stays
  · exact left

/-- A header holds no bar, so it is never the menu. -/
theorem isHeader_plain (echo : isTemplateEcho casing line = true) : isHeader line = false := by
  have bar : 124 ∈ line := by
    simp only [isTemplateEcho, Bool.and_eq_true, decide_eq_true_eq] at echo
    exact echo.1.1
  cases line with
  | nil => rfl
  | cons c rest =>
    rw [isHeader]
    by_contra header
    rw [Bool.not_eq_false, Bool.and_eq_true, beq_iff_eq] at header
    obtain ⟨rfl,header⟩ := header
    have inside : 124 ∈ rest := by simpa using bar
    cases read : spelled "verdict" ((rest.dropWhile (fun p => p == 35)).dropWhile isSpace) with
    | none =>
      rw [read] at header
      cases header
    | some behind =>
      rw [read] at header
      have left := spelled_mem read (by decide)
        (mem_dropWhile (by decide) (mem_dropWhile (by decide) inside))
      have space := List.all_eq_true.mp header 124 left
      exact absurd space (by decide)

theorem inlineTaken_some {verdict : PyString} (found : inlineTaken casing line = some verdict) :
    inlineVerdict line = some verdict ∧ isTemplateEcho casing verdict = false := by
  obtain ⟨read,plain⟩ := Option.filter_eq_some_iff.mp found
  exact ⟨read,by simpa using plain⟩

/-- Lines that are no menu are taken at their inline word. -/
theorem inlineTaken_plain (plain : isTemplateEcho casing line = false) :
    inlineTaken casing line = inlineVerdict line := by
  unfold inlineTaken
  cases read : inlineVerdict line with
  | none => rfl
  | some verdict =>
    have kept : isTemplateEcho casing verdict = false := by
      by_contra echo
      rw [Bool.not_eq_false] at echo
      rw [isTemplateEcho_within (inlineVerdict_within read) echo] at plain
      cases plain
    simp [Option.filter, kept]

theorem headerVerdict_filter (menus : ∀ line, keep line = false → isTemplateEcho casing line = true) :
    headerVerdict casing (lines.filter keep) = headerVerdict casing lines := by
  have follows : ∀ line, followTaken casing line = true → keep line = true := by
    intro line taken
    by_contra dropped
    rw [Bool.not_eq_true] at dropped
    have echo := menus line dropped
    rw [← isTemplateEcho_strip] at echo
    simp [followTaken, echo] at taken
  induction lines with
  | nil => rfl
  | cons line lines ih =>
    by_cases stays : keep line = true
    · rw [List.filter_cons_of_pos stays, headerVerdict, headerVerdict, find?_kept follows, ih]
    · have plain := isHeader_plain (menus line (by simpa using stays))
      rw [List.filter_cons_of_neg stays, headerVerdict, if_neg (by simp [plain]), ih]

/-- Dropping menu lines leaves the verdict alone when the line that speaks last
inline is kept. -/
theorem verdictOf_filter (menus : ∀ line, keep line = false → isTemplateEcho casing line = true)
    (last : ∀ line, lines.reverse.find? (fun line => (inlineTaken casing line).isSome) = some line →
      keep line = true) : verdictOf casing (lines.filter keep) = verdictOf casing lines := by
  have bare_words : ∀ line, lines.reverse.find? (fun line => (keywordTaken casing line).isSome) =
      some line → keep line = true := by
    intro line found
    by_contra dropped
    have hit := List.find?_some found
    have echo := menus line (by simpa using dropped)
    simp [keywordTaken, echo] at hit
  unfold verdictOf
  rw [← List.filter_reverse, findSome?_filter last, headerVerdict_filter menus,
    findSome?_filter bare_words]

end Law

section Reports

variable (casing : Casing)

def withoutEchoes (content : PyString) : PyString :=
  unlines ((splitlines content).filter (fun line => !isTemplateEcho casing line))

def withoutLine (menu content : PyString) : PyString :=
  unlines ((splitlines content).filter (fun line => line != menu))

/-- The last line that speaks inline is no menu. -/
def LastWordPlain (content : PyString) : Prop :=
  ∀ line, (splitlines content).reverse.find? (fun line => (inlineTaken casing line).isSome) =
    some line → isTemplateEcho casing line = false

def VerdictLike (line : PyString) : Prop :=
  (inlineVerdict line).isSome ∨ isHeader line = true ∨ (keywordVerdict casing line).isSome

theorem extractVerdict_unlines (keep : PyString → Bool) (content : PyString) :
    extractVerdict casing (unlines ((splitlines content).filter keep)) =
      (verdictOf casing ((splitlines content).filter keep)).getD "(no verdict line found)" := by
  rw [extractVerdict, splitlines_unlines]
  intro line member
  exact splitlines_free content line (List.mem_filter.mp member).1

variable {casing}

theorem verdict_withoutEchoes {content : PyString} (plain : LastWordPlain casing content) :
    extractVerdict casing content = extractVerdict casing (withoutEchoes casing content) := by
  have menus : ∀ line, (!isTemplateEcho casing line) = false → isTemplateEcho casing line = true := by
    simp
  rw [withoutEchoes, extractVerdict_unlines, verdictOf_filter menus]
  · rfl
  · intro line found
    simp [plain line found]

def firstWord : PyString := "VERDICT: a"

def secondWord : PyString := "VERDICT: b"

theorem words_taken : inlineVerdict firstWord = some "a" ∧ inlineVerdict secondWord = some "b" ∧
    firstWord.all (fun c => !isLineBreak c && c != 124) = true ∧
    secondWord.all (fun c => !isLineBreak c && c != 124) = true := by
  unfold firstWord secondWord
  decide +kernel

theorem plain_word {word : PyString} (solid : word.all (fun c => !isLineBreak c && c != 124) = true) :
    LineFree word ∧ isTemplateEcho casing word = false := by
  constructor
  · intro c member
    have each := List.all_eq_true.mp solid c member
    simp only [Bool.and_eq_true, Bool.not_eq_true'] at each
    exact each.1
  · by_contra echo
    rw [Bool.not_eq_false] at echo
    simp only [isTemplateEcho, Bool.and_eq_true, decide_eq_true_eq] at echo
    have each := List.all_eq_true.mp solid 124 echo.1.1
    simp at each

/-- A menu that speaks inline decides against the line above it. -/
theorem verdict_menu {word said menu verdict : PyString} (free : LineFree menu)
    (solid : word.all (fun c => !isLineBreak c && c != 124) = true)
    (spoken : inlineVerdict word = some said) (echo : isTemplateEcho casing menu = true)
    (taken : inlineTaken casing menu = some verdict)
    (law : ∀ content, extractVerdict casing content = extractVerdict casing (withoutLine menu content)) :
    verdict = said := by
  obtain ⟨alone,plain⟩ := @plain_word casing word solid
  have other : word ≠ menu := by
    rintro rfl
    rw [plain] at echo
    cases echo
  have lines := @splitlines_unlines [word,menu] (by simp [alone, free])
  have single := @splitlines_unlines [word] (by simp [alone])
  have word_taken : inlineTaken casing word = some said := by rw [inlineTaken_plain plain, spoken]
  have kept : withoutLine menu (unlines [word,menu]) = unlines [word] := by
    rw [withoutLine, lines]
    simp [other]
  have same := law (unlines [word,menu])
  rw [kept, extractVerdict, extractVerdict, lines, single] at same
  simpa [verdictOf, taken, word_taken] using same

theorem menu_harmless_iff {menu : PyString} (free : LineFree menu)
    (echo : isTemplateEcho casing menu = true) :
    (∀ content, extractVerdict casing content = extractVerdict casing (withoutLine menu content)) ↔
      inlineTaken casing menu = none := by
  constructor
  · intro law
    obtain ⟨first,second,solid,solid'⟩ := words_taken
    cases taken : inlineTaken casing menu with
    | none => rfl
    | some verdict =>
      have one := verdict_menu free solid first echo taken law
      have two := verdict_menu free solid' second echo taken law
      exact absurd (one.symm.trans two) (by decide)
  · intro silent content
    have menus : ∀ line, (line != menu) = false → isTemplateEcho casing line = true := by
      intro line dropped
      rw [show line = menu by simpa using dropped]
      exact echo
    rw [withoutLine, extractVerdict_unlines, verdictOf_filter menus]
    · rfl
    · intro line found
      have hit := List.find?_some found
      by_contra dropped
      rw [show line = menu by simpa using dropped, silent] at hit
      cases hit

theorem findSome?_first {α β : Type} {f : α → Option β} {xs : List α} {x : α}
    (first : xs.find? (fun x => (f x).isSome) = some x) : xs.findSome? f = f x := by
  induction xs with
  | nil => cases first
  | cons y xs ih =>
    rw [List.findSome?_cons]
    cases hit : f y with
    | some z =>
      rw [List.find?_cons_of_pos (by simp [hit])] at first
      rw [← Option.some.inj first, hit]
    | none =>
      rw [List.find?_cons_of_neg (by simp [hit])] at first
      exact ih first

/-- Otherwise the verdict is what a menu says inline. -/
theorem verdict_of_menu {content : PyString} (spoken : ¬ LastWordPlain casing content) :
    ∃ menu ∈ splitlines content, isTemplateEcho casing menu = true ∧
      inlineTaken casing menu = some (extractVerdict casing content) := by
  simp only [LastWordPlain, not_forall] at spoken
  obtain ⟨menu,found,echo⟩ := spoken
  have taken := List.find?_some found
  obtain ⟨verdict,said⟩ := Option.isSome_iff_exists.mp taken
  refine ⟨menu,List.mem_reverse.mp (List.mem_of_find?_eq_some found),by simpa using echo,?_⟩
  rw [said, extractVerdict, verdictOf, findSome?_first found, said]
  rfl

theorem headerVerdict_none {lines : List PyString} (plain : ∀ line ∈ lines, isHeader line = false) :
    headerVerdict casing lines = none := by
  induction lines with
  | nil => rfl
  | cons line lines ih =>
    obtain ⟨here,later⟩ := List.forall_mem_cons.mp plain
    rw [headerVerdict, if_neg (by simp [here]), ih later]

/-- Where only menus look like verdicts there is none, but for a menu that speaks inline. -/
theorem only_menus_iff {lines : List PyString}
    (menus : ∀ line ∈ lines, VerdictLike casing line → isTemplateEcho casing line = true) :
    verdictOf casing lines = none ↔ ∀ line ∈ lines, inlineTaken casing line = none := by
  have headers : headerVerdict casing lines = none := by
    apply headerVerdict_none
    intro line member
    by_contra header
    rw [Bool.not_eq_false] at header
    rw [isHeader_plain (menus line member (.inr (.inl header)))] at header
    cases header
  have bare_words : lines.reverse.findSome? (keywordTaken casing) = none := by
    rw [List.findSome?_eq_none_iff]
    intro line member
    unfold keywordTaken
    by_cases echo : isTemplateEcho casing line = true
    · rw [if_pos echo]
    · rw [if_neg echo, ← Option.not_isSome_iff_eq_none]
      exact fun found => echo (menus line (List.mem_reverse.mp member) (.inr (.inr found)))
  rw [verdictOf, headers, bare_words, Option.or_none, Option.or_none, List.findSome?_eq_none_iff]
  simp

end Reports

/-- Menu lines of a report do not touch its verdict when the line that speaks
last inline is no menu, and otherwise its verdict is what a menu says; a menu is
harmless in every report exactly when no inline words are taken from it. -/
theorem copied_menu_iff (casing : Casing) :
    (∀ content, LastWordPlain casing content →
      extractVerdict casing content = extractVerdict casing (withoutEchoes casing content)) ∧
    (∀ content, ¬ LastWordPlain casing content →
      ∃ menu ∈ splitlines content, isTemplateEcho casing menu = true ∧
        inlineTaken casing menu = some (extractVerdict casing content)) ∧
    (∀ menu, LineFree menu → isTemplateEcho casing menu = true →
      ((∀ content, extractVerdict casing content =
        extractVerdict casing (withoutLine menu content)) ↔ inlineTaken casing menu = none)) ∧
    (∀ content, (∀ line ∈ splitlines content, VerdictLike casing line →
      isTemplateEcho casing line = true) →
        (verdictOf casing (splitlines content) = none ↔
          ∀ line ∈ splitlines content, inlineTaken casing line = none)) := by
  refine ⟨fun _ plain => verdict_withoutEchoes plain,fun _ spoken => verdict_of_menu spoken,?_,?_⟩
  · intro menu free echo
    exact menu_harmless_iff free echo
  · intro content menus
    exact only_menus_iff menus

/-- The characters of plain text. -/
def plainCasing : Casing where
  word := fun c => (48 ≤ c && c ≤ 57) || (65 ≤ c && c ≤ 90) || c == 95 || (97 ≤ c && c ≤ 122)
  upper := fun c => if 97 ≤ c ∧ c ≤ 122 then [c - 32] else [c]
  spaces := by
    intro c space
    apply if_neg
    intro letter
    simp only [isSpace, Bool.or_eq_true, Bool.and_eq_true, decide_eq_true_eq, beq_iff_eq] at space
    omega

/-- The menu of the prompt, copied, reads as its first word. -/
theorem copied_menu_breaks :
    isTemplateEcho plainCasing "VERDICT: BREAKS | SURVIVES | INDETERMINATE" = true ∧
    extractVerdict plainCasing "VERDICT: BREAKS | SURVIVES | INDETERMINATE" = "BREAKS" ∧
    extractVerdict plainCasing
      (withoutEchoes plainCasing "VERDICT: BREAKS | SURVIVES | INDETERMINATE") =
        "(no verdict line found)" := by
  decide +kernel

end VoiceVerdict

end EvidenceV4
