import EvidenceV4.MigrationInputs
import EvidenceV4.VerifiedInputsAgreement

/-!
# Rendered policies

A policy is rendered with its mode in front and each of its entries on a line of
its own, and the documentation promises that the text parses back to the policy.
The parser strips a line, then looks for a comment and a directive, and only then
takes one dot and slash off its front. What was behind them is stored as it is,
and on a line of its own it may be read as something else.
-/

set_option autoImplicit false

namespace EvidenceV4

namespace PolicyRoundTrip

open CheckedExcept TextCode
open VerifiedInputs (Text Rejection InputPolicy Reading LowerCase)
open VerifiedInputs.FvProject
open Migration (renderPolicy modeDirective)
open VerifiedInputsAgreement (splitlines_break splitlines_plain splitlines_pair splitlines_eq_nil)

section Lines

theorem splitlines_return {d : Char} (s : Text) (other : d ≠ '\n') :
    splitlines ('\r' :: d :: s) = [] :: splitlines (d :: s) := by
  rw [splitlines.eq_def]
  simp [other]

theorem splitlines_alone : splitlines ['\r'] = [[]] := rfl

theorem consHead_append {c : Char} {lines : List Text} (filled : lines ≠ []) (more : List Text) :
    consHead c (lines ++ more) = consHead c lines ++ more := by
  cases lines with
  | nil => exact absurd rfl filled
  | cons line lines => rfl

theorem splitlines_ne_nil {s : Text} (filled : s ≠ []) : splitlines s ≠ [] :=
  fun empty => filled (splitlines_eq_nil empty)

/-- The lines of a text are those up to a line feed and those behind it. -/
theorem splitlines_append (a b : Text) :
    splitlines (a ++ '\n' :: b) = splitlines (a ++ ['\n']) ++ splitlines b := by
  induction h : a.length using Nat.strong_induction_on generalizing a with
  | _ n ih =>
    cases a with
    | nil => exact splitlines_break b (by decide) (by decide)
    | cons c a =>
      have inner := ih a.length (by rw [← h]; exact Nat.lt_succ_self _) a rfl
      rw [List.cons_append, List.cons_append]
      by_cases carriage : c = '\r'
      · subst carriage
        cases a with
        | nil =>
          rw [List.nil_append, List.nil_append, splitlines_pair, splitlines_pair]
          rfl
        | cons d a =>
          by_cases feed : d = '\n'
          · subst feed
            have behind := ih a.length (by rw [← h]; simp [Nat.lt_succ_of_lt]) a rfl
            rw [List.cons_append, List.cons_append, splitlines_pair, splitlines_pair, behind]
            rfl
          · rw [List.cons_append, List.cons_append, splitlines_return _ feed,
              splitlines_return _ feed, ← List.cons_append, inner]
            rfl
      cases mark : isLineBreak c with
      | true =>
        rw [splitlines_break _ carriage mark, splitlines_break _ carriage mark, inner]
        rfl
      | false =>
        rw [splitlines_plain _ carriage mark, splitlines_plain _ carriage mark, inner,
          consHead_append (splitlines_ne_nil (by simp))]

/-- A line feed at the end adds an empty line or nothing. -/
theorem splitlines_closed (a : Text) :
    splitlines (a ++ ['\n']) = splitlines a ∨ splitlines (a ++ ['\n']) = splitlines a ++ [[]] := by
  induction h : a.length using Nat.strong_induction_on generalizing a with
  | _ n ih =>
    cases a with
    | nil => exact Or.inr rfl
    | cons c a =>
      have inner := ih a.length (by rw [← h]; exact Nat.lt_succ_self _) a rfl
      rw [List.cons_append]
      by_cases carriage : c = '\r'
      · subst carriage
        cases a with
        | nil => exact Or.inl rfl
        | cons d a =>
          by_cases feed : d = '\n'
          · subst feed
            have behind := ih a.length (by rw [← h]; simp [Nat.lt_succ_of_lt]) a rfl
            rw [List.cons_append, splitlines_pair, splitlines_pair]
            rcases behind with same | more
            · exact Or.inl (by rw [same])
            · exact Or.inr (by rw [more]; rfl)
          · rw [List.cons_append, splitlines_return _ feed, splitlines_return _ feed]
            rcases inner with same | more
            · exact Or.inl (by rw [← List.cons_append, same])
            · exact Or.inr (by rw [← List.cons_append, more]; rfl)
      cases mark : isLineBreak c with
      | true =>
        rw [splitlines_break _ carriage mark, splitlines_break _ carriage mark]
        rcases inner with same | more
        · exact Or.inl (by rw [same])
        · exact Or.inr (by rw [more]; rfl)
      | false =>
        rw [splitlines_plain _ carriage mark, splitlines_plain _ carriage mark]
        rcases inner with same | more
        · exact Or.inl (by rw [same])
        · by_cases empty : a = []
          · subst empty
            exact Or.inl rfl
          · exact Or.inr (by rw [more, consHead_append (splitlines_ne_nil empty)])

/-- A character that the parser takes inside a line. -/
structure Inside (c : Char) : Prop where
  feed : c ≠ '\n'
  carriage : c ≠ '\r'
  ambiguous : c ∉ ambiguousLineChars
  mark : c ≠ bomChar
  control : isControl c = false

theorem Inside.plain {c : Char} (inside : Inside c) : isLineBreak c = false := by
  have ambiguous := inside.ambiguous
  simp only [ambiguousLineChars, List.mem_cons, List.not_mem_nil, or_false, not_or] at ambiguous
  simp [isLineBreak, inside.feed, inside.carriage, ambiguous]

theorem reject_inside {c : Char} (inside : Inside c) (n : ℕ) (rest : Text) :
    rejectAmbiguousCharacters n (c :: rest) = rejectAmbiguousCharacters n rest := by
  rw [rejectAmbiguousCharacters, if_neg inside.feed, if_neg (fun both => inside.carriage both.1),
    if_neg (not_or.mpr ⟨inside.ambiguous,inside.carriage⟩), if_neg inside.mark,
    if_neg (by simp [inside.control])]

theorem reject_line {line : Text} (inside : ∀ c ∈ line, Inside c) (n : ℕ) (rest : Text) :
    rejectAmbiguousCharacters n (line ++ '\n' :: rest) = rejectAmbiguousCharacters (n+1) rest := by
  induction line with
  | nil =>
    rw [List.nil_append, rejectAmbiguousCharacters, if_pos rfl]
  | cons c line ih =>
    rw [List.forall_mem_cons] at inside
    rw [List.cons_append, reject_inside inside.1, ih inside.2]

theorem splitlines_line {line : Text} (inside : ∀ c ∈ line, Inside c) (rest : Text) :
    splitlines (line ++ '\n' :: rest) = line :: splitlines rest := by
  induction line with
  | nil => exact splitlines_break rest (by decide) (by decide)
  | cons c line ih =>
    rw [List.forall_mem_cons] at inside
    rw [List.cons_append, splitlines_plain _ inside.1.carriage inside.1.plain, ih inside.2]
    rfl

/-- The number of the first line only shows in messages. -/
theorem reject_any (s : Text) (n m : ℕ) (passes : rejectAmbiguousCharacters n s = .ok ()) :
    rejectAmbiguousCharacters m s = .ok () := by
  induction s generalizing n m with
  | nil => rfl
  | cons c s ih =>
    rw [rejectAmbiguousCharacters] at passes ⊢
    split_ifs at passes ⊢ with feed pair bad mark control
    · exact ih _ _ passes
    · exact ih _ _ passes
    · exact ih _ _ passes

theorem reject_append {a : Text} (closed : a = [] ∨ a.getLast? = some '\n') (b : Text) (n : ℕ) :
    rejectAmbiguousCharacters n (a ++ b) = .ok () ↔
      rejectAmbiguousCharacters n a = .ok () ∧ rejectAmbiguousCharacters n b = .ok () := by
  induction a generalizing n with
  | nil => exact ⟨fun passes => ⟨rfl,passes⟩,fun both => both.2⟩
  | cons c a ih =>
    have later : a = [] ∨ a.getLast? = some '\n' := by
      cases a with
      | nil => exact Or.inl rfl
      | cons d a => exact Or.inr (by simpa using closed)
    have pair : (c = '\r' ∧ (a ++ b).head? = some '\n') ↔ (c = '\r' ∧ a.head? = some '\n') := by
      cases a with
      | nil =>
        have feed : c = '\n' := by simpa using closed
        subst feed
        simp
      | cons d a => rfl
    have shift : ∀ m, rejectAmbiguousCharacters m b = .ok () ↔
        rejectAmbiguousCharacters n b = .ok () :=
      fun m => ⟨reject_any b m n,reject_any b n m⟩
    rw [List.cons_append, rejectAmbiguousCharacters, rejectAmbiguousCharacters]
    simp only [pair]
    split_ifs with feed both bad mark control
    · rw [ih later, shift]
    · rw [ih later]
    · simp
    · simp
    · simp
    · rw [ih later]

/-- The lines of a text that passes hold none of the rejected characters. -/
theorem lines_inside {s : Text} {n : ℕ} (passes : rejectAmbiguousCharacters n s = .ok ()) :
    ∀ line ∈ splitlines s, ∀ c ∈ line, Inside c := by
  induction s generalizing n with
  | nil => exact fun line member => by cases member
  | cons c s ih =>
    rw [rejectAmbiguousCharacters] at passes
    split_ifs at passes with feed pair bad mark control
    · subst feed
      rw [splitlines_break s (by decide) (by decide)]
      intro line member
      rcases List.mem_cons.mp member with rfl | later
      · exact fun c inside => by cases inside
      · exact ih passes line later
    · obtain ⟨rfl,next⟩ := pair
      obtain ⟨s,rfl⟩ := List.head?_eq_some_iff.mp next
      have rest := ih passes
      rw [splitlines_break s (by decide) (by decide)] at rest
      rw [splitlines_pair]
      exact rest
    · obtain ⟨ambiguous,carriage⟩ := not_or.mp bad
      have inside : Inside c := ⟨feed,carriage,ambiguous,mark,by simpa using control⟩
      have rest := ih passes
      rw [splitlines_plain s carriage inside.plain]
      cases lines : splitlines s with
      | nil =>
        intro line member
        rw [List.mem_singleton.mp member]
        exact fun d only => List.mem_singleton.mp only ▸ inside
      | cons first lines =>
        rw [lines] at rest
        rw [List.forall_mem_cons] at rest
        intro line member
        rcases List.mem_cons.mp member with rfl | later
        · exact List.forall_mem_cons.mpr ⟨inside,rest.1⟩
        · exact rest.2 line later

end Lines

section Stripped

variable {p : Char → Bool}

theorem strip_self {s : Text} (first : ∀ c ∈ s.head?, p c = false)
    (last : ∀ c ∈ s.getLast?, p c = false) : strip p s = s := by
  have front : s.dropWhile p = s := by
    cases s with
    | nil => rfl
    | cons c s => exact List.dropWhile_cons_of_neg (by simp [first c rfl])
  rw [strip, front, List.rdropWhile_eq_self_iff]
  intro filled
  simp [last _ (List.getLast?_eq_some_getLast filled)]

theorem strip_last (s : Text) : ∀ c ∈ (strip p s).getLast?, p c = false := by
  intro c last
  by_cases filled : strip p s = []
  · rw [filled] at last
    cases last
  · have outer := List.rdropWhile_last_not p (s.dropWhile p) filled
    rw [List.getLast?_eq_some_getLast filled] at last
    cases last
    exact (Bool.not_eq_true _).mp outer

theorem strip_head (s : Text) : ∀ c ∈ (strip p s).head?, p c = false := by
  intro c first
  have start : strip p s <+: s.dropWhile p := List.rdropWhile_prefix p _
  obtain ⟨tail,whole⟩ := start
  have outer := List.head?_dropWhile_not p s
  cases inner : strip p s with
  | nil =>
    rw [inner] at first
    cases first
  | cons d rest =>
    rw [inner] at first whole
    cases first
    rw [← whole] at outer
    simpa using outer

theorem strip_strip (s : Text) : strip p (strip p s) = strip p s :=
  strip_self (strip_head s) (strip_last s)

end Stripped

section Reading

variable (l : LowerCase)

/-- What a line is to the parser. -/
inductive LineKind where
  | blank
  | directive (value : Text)
  | entry (entry : Text)

def undotted (line : Text) : Text := if ['.','/'].isPrefixOf line then line.drop 2 else line

def lineKind (raw : Text) : LineKind :=
  let line := strip isSpace raw
  if line = [] ∨ ['#'].isPrefixOf line then .blank
  else
    match directiveValue l line with
    | some value => .directive value
    | none => .entry (undotted line)

/-- The entries that the parser does not reject. -/
structure Permitted (entry : Text) : Prop where
  named : entry ≠ []
  whole : entry ∉ [['.'],['/']]
  inside : isAbsolute entry = false
  climbs : ['.','.'] ∉ pathParts entry

def add (prefixes : List Text) (entry : Text) : List Text :=
  if entry ∈ prefixes then prefixes else prefixes ++ [entry]

variable {l} {s s' : Reading Text} {raw : Text} {n : ℕ}

theorem readLine_of_blank (kind : lineKind l raw = .blank) : readLine l n s raw = .ok s := by
  rw [lineKind] at kind
  rw [readLine]
  split at kind
  · rename_i skipped
    exact if_pos skipped
  · split at kind <;> cases kind

theorem readLine_of_directive {value : Text} (kind : lineKind l raw = .directive value) :
    readLine l n s raw = .ok s' ↔ s.mode = none ∧ s.prefixes = [] ∧ value ∈ policyModes ∧
      s' = ⟨some value,s.prefixes⟩ := by
  rw [lineKind] at kind
  rw [readLine]
  split at kind
  · cases kind
  rename_i counted
  split at kind
  · rename_i found known
    cases kind
    simp only [if_neg counted, known]
    by_cases late : s.mode ≠ none ∨ s.prefixes ≠ []
    · rw [if_pos late]
      simp only [throw_ok, false_iff]
      rintro ⟨none,empty,-,-⟩
      exact late.elim (fun some => some none) (fun filled => filled empty)
    rw [if_neg late]
    rw [not_or, not_not, not_not] at late
    by_cases unknown : value ∉ policyModes
    · rw [if_pos unknown]
      simp only [throw_ok, false_iff]
      exact fun all => unknown all.2.2.1
    · rw [if_neg unknown, pure_ok]
      exact ⟨fun same => ⟨late.1,late.2,not_not.mp unknown,same.symm⟩,fun all => all.2.2.2.symm⟩
  · cases kind

theorem readLine_of_entry {e : Text} (kind : lineKind l raw = .entry e) :
    readLine l n s raw = .ok s' ↔
      Permitted e ∧ s' = ⟨some (s.mode.getD modeExclude),add s.prefixes e⟩ := by
  rw [lineKind] at kind
  rw [readLine]
  split at kind
  · cases kind
  rename_i counted
  split at kind
  · cases kind
  rename_i unknown
  cases kind
  simp only [if_neg counted, unknown]
  rw [← undotted]
  generalize undotted (strip isSpace raw) = entry
  generalize (if s.mode.getD modeExclude = modeInclude then "selects" else "excludes") = verb
  by_cases whole : entry = [] ∨ entry ∈ [['.'],['/']]
  · rw [if_pos whole]
    simp only [throw_ok, false_iff]
    rintro ⟨permitted,-⟩
    exact whole.elim permitted.named permitted.whole
  rw [if_neg whole]
  rw [not_or] at whole
  by_cases absolute : isAbsolute entry = true
  · rw [if_pos absolute]
    simp only [throw_ok, false_iff]
    rintro ⟨permitted,-⟩
    exact absurd absolute (by simp [permitted.inside])
  rw [if_neg absolute]
  by_cases climbs : ['.','.'] ∈ pathParts entry
  · rw [if_pos climbs]
    simp only [throw_ok, false_iff]
    rintro ⟨permitted,-⟩
    exact permitted.climbs climbs
  rw [if_neg climbs, add]
  have permitted : Permitted entry := ⟨whole.1,whole.2,by simpa using absolute,climbs⟩
  split_ifs
  · rw [pure_ok]
    exact ⟨fun same => ⟨permitted,same.symm⟩,fun both => both.2.symm⟩
  · rw [pure_ok]
    exact ⟨fun same => ⟨permitted,same.symm⟩,fun both => both.2.symm⟩

/-- What reading some lines adds to the prefixes. -/
structure Gathered (l : LowerCase) (lines : List Text) (s s' : Reading Text) : Prop where
  keeps : ∀ e ∈ s.prefixes, e ∈ s'.prefixes
  takes : ∀ raw ∈ lines, ∀ e, lineKind l raw = .entry e → e ∈ s'.prefixes
  only : ∀ e ∈ s'.prefixes, e ∈ s.prefixes ∨
    Permitted e ∧ ∃ raw ∈ lines, lineKind l raw = .entry e
  distinct : s.prefixes.Nodup → s'.prefixes.Nodup

theorem mem_add {prefixes : List Text} {e x : Text} : x ∈ add prefixes e ↔ x ∈ prefixes ∨ x = e := by
  unfold add
  split_ifs with known
  · exact ⟨Or.inl,fun either => either.elim id (fun same => same ▸ known)⟩
  · rw [List.mem_append, List.mem_singleton]

theorem add_nodup {prefixes : List Text} {e : Text} (distinct : prefixes.Nodup) :
    (add prefixes e).Nodup := by
  unfold add
  split_ifs with known
  · exact distinct
  · rw [List.nodup_append]
    exact ⟨distinct,List.nodup_singleton e,fun a ha b hb same => known (by
      rw [List.mem_singleton.mp hb] at same
      exact same ▸ ha)⟩

theorem readLine_gathers (read : readLine l n s raw = .ok s') : Gathered l [raw] s s' := by
  cases kind : lineKind l raw with
  | blank =>
    rw [readLine_of_blank kind] at read
    cases read
    exact ⟨fun _ => id,fun r only e => by
      rw [List.mem_singleton.mp only, kind]
      exact nofun,fun _ => Or.inl,id⟩
  | directive value =>
    obtain ⟨-,-,-,rfl⟩ := (readLine_of_directive kind).mp read
    exact ⟨fun _ => id,fun r only e => by
      rw [List.mem_singleton.mp only, kind]
      exact nofun,fun _ => Or.inl,id⟩
  | entry e =>
    obtain ⟨permitted,rfl⟩ := (readLine_of_entry kind).mp read
    constructor
    · exact fun x known => mem_add.mpr (Or.inl known)
    · intro r only x same
      rw [List.mem_singleton.mp only, kind] at same
      cases same
      exact mem_add.mpr (Or.inr rfl)
    · intro x member
      rcases mem_add.mp member with known | rfl
      · exact Or.inl known
      · exact Or.inr ⟨permitted,raw,List.mem_singleton_self raw,kind⟩
    · exact add_nodup

theorem readLines_gathers {lines : List Text} (read : readLines l n s lines = .ok s') :
    Gathered l lines s s' := by
  induction lines generalizing n s with
  | nil =>
    cases (pure_ok _ _).mp read
    exact ⟨fun _ => id,nofun,fun _ => Or.inl,id⟩
  | cons raw lines ih =>
    rw [readLines, bind_ok] at read
    obtain ⟨middle,first,rest⟩ := read
    have early := readLine_gathers first
    have late := ih rest
    constructor
    · exact fun e known => late.keeps e (early.keeps e known)
    · intro r member e kind
      rcases List.mem_cons.mp member with rfl | later
      · exact late.keeps e (early.takes r (List.mem_singleton_self r) e kind)
      · exact late.takes r later e kind
    · intro e member
      rcases late.only e member with known | ⟨permitted,r,later,kind⟩
      · rcases early.only e known with before | ⟨permitted,r,only,kind⟩
        · exact Or.inl before
        · rw [List.mem_singleton.mp only] at kind
          exact Or.inr ⟨permitted,raw,List.mem_cons_self,kind⟩
      · exact Or.inr ⟨permitted,r,List.mem_cons_of_mem _ later,kind⟩
    · exact fun distinct => late.distinct (early.distinct distinct)

/-- After a directive each line adds at most one entry. -/
theorem readLines_grow {mode : Text} {ps lines : List Text}
    (read : readLines l n ⟨some mode,ps⟩ lines = .ok s') :
    s'.mode = some mode ∧ ∃ more, s'.prefixes = ps ++ more ∧ more.length ≤ lines.length := by
  induction lines generalizing n ps with
  | nil =>
    cases (pure_ok _ _).mp read
    exact ⟨rfl,[],(List.append_nil _).symm,Nat.le_refl _⟩
  | cons raw lines ih =>
    rw [readLines, bind_ok] at read
    obtain ⟨middle,first,rest⟩ := read
    cases kind : lineKind l raw with
    | blank =>
      rw [readLine_of_blank kind] at first
      cases first
      obtain ⟨same,more,whole,short⟩ := ih rest
      exact ⟨same,more,whole,Nat.le_succ_of_le short⟩
    | directive value =>
      have start := ((readLine_of_directive kind).mp first).1
      cases start
    | entry e =>
      obtain ⟨-,rfl⟩ := (readLine_of_entry kind).mp first
      obtain ⟨same,more,whole,short⟩ := ih rest
      refine ⟨same,?_⟩
      unfold add at whole
      split_ifs at whole
      · exact ⟨more,whole,Nat.le_succ_of_le short⟩
      · exact ⟨e :: more,by rw [whole, List.append_assoc]; rfl,Nat.succ_le_succ short⟩

/-- Entries on lines of their own read back exactly when each one reads as itself. -/
theorem readLines_back {mode : Text} {ps es : List Text} (permitted : ∀ e ∈ es, Permitted e)
    (distinct : (ps ++ es).Nodup) :
    readLines l n ⟨some mode,ps⟩ es = .ok ⟨some mode,ps ++ es⟩ ↔
      ∀ e ∈ es, lineKind l e = .entry e := by
  induction es generalizing n ps with
  | nil =>
    rw [List.append_nil]
    exact ⟨fun _ => by rintro _ ⟨⟩,fun _ => rfl⟩
  | cons e es ih =>
    rw [List.forall_mem_cons] at permitted
    have split : ps ++ e :: es = (ps ++ [e]) ++ es := by rw [List.append_assoc]; rfl
    have fresh : e ∉ ps := fun known =>
      (List.nodup_append.mp distinct).2.2 e known e List.mem_cons_self rfl
    have next : (ps ++ [e] ++ es).Nodup := split ▸ distinct
    rw [readLines, bind_ok, List.forall_mem_cons]
    constructor
    · rintro ⟨middle,first,rest⟩
      have same : middle = ⟨some mode,ps ++ [e]⟩ ∧ lineKind l e = .entry e := by
        cases kind : lineKind l e with
        | blank =>
          rw [readLine_of_blank kind] at first
          cases first
          obtain ⟨-,more,whole,short⟩ := readLines_grow rest
          rw [← List.append_cancel_left whole, List.length_cons] at short
          omega
        | directive value => cases ((readLine_of_directive kind).mp first).1
        | entry x =>
          obtain ⟨-,rfl⟩ := (readLine_of_entry kind).mp first
          obtain ⟨-,more,whole,short⟩ := readLines_grow rest
          by_cases known : x ∈ ps
          · rw [add, if_pos known] at whole
            rw [← List.append_cancel_left whole, List.length_cons] at short
            omega
          · have front : x = e := by
              rw [add, if_neg known, split, List.append_assoc, List.append_assoc] at whole
              exact (List.cons.inj (List.append_cancel_left whole)).1.symm
            rw [front]
            exact ⟨by rw [add, if_neg fresh]; rfl,rfl⟩
      rw [same.1, split] at rest
      exact ⟨same.2,(ih permitted.2 next).mp rest⟩
    · rintro ⟨kind,each⟩
      refine ⟨_,(readLine_of_entry kind).mpr ⟨permitted.1,rfl⟩,?_⟩
      rw [add, if_neg fresh, split]
      exact (ih permitted.2 next).mpr each

end Reading

section RoundTrip

variable {l : LowerCase}

theorem directiveValue_of {line : Text} :
    directiveValue l line = none ↔ (line.take 5).map Char.toLower ≠ modeDirectivePrefix := by
  have lowered := VerifiedInputsAgreement.lower_eq l
    VerifiedInputsAgreement.modeDirectivePrefix_plain [] (line.take 5)
  unfold directiveValue
  show (if lower l [] (line.take 5) ≠ modeDirectivePrefix then none else some _) = none ↔ _
  by_cases directive : lower l [] (line.take 5) = modeDirectivePrefix
  · rw [if_neg (not_not.mpr directive)]
    exact ⟨nofun,fun other => absurd (lowered.mp directive) other⟩
  · rw [if_pos directive]
    exact ⟨fun _ same => directive (lowered.mpr same),fun _ => rfl⟩

theorem lineKind_strip (raw : Text) : lineKind l (strip isSpace raw) = lineKind l raw := by
  rw [lineKind, strip_strip, lineKind]

/-- What may stand behind a dot and slash for the entry to be read again. -/
structure Plain (l : LowerCase) (rest : Text) : Prop where
  space : ∀ c ∈ rest.head?, isSpace c = false
  comment : ¬ ['#'].isPrefixOf rest = true
  directive : directiveValue l rest = none
  dotted : ¬ ['.','/'].isPrefixOf rest = true

theorem undotted_self {rest : Text} (same : undotted rest = rest) (filled : rest ≠ []) :
    ¬ ['.','/'].isPrefixOf rest = true := by
  intro dotted
  rw [undotted, if_pos dotted] at same
  have length := congrArg List.length same
  rw [List.length_drop] at length
  have positive := List.length_pos_iff.mpr filled
  omega

/-- The rest of a line reads as itself when it is plain. -/
theorem lineKind_rest {rest : Text} (filled : rest ≠ [])
    (last : ∀ c ∈ rest.getLast?, isSpace c = false) :
    lineKind l rest = .entry rest ↔ Plain l rest := by
  constructor
  · intro kind
    have trimmed : strip isSpace rest = rest := by
      rw [lineKind] at kind
      split at kind
      · cases kind
      split at kind
      · cases kind
      · have whole := LineKind.entry.inj kind
        have shorter : (undotted (strip isSpace rest)).length ≤ (strip isSpace rest).length := by
          unfold undotted
          split_ifs
          · rw [List.length_drop]
            omega
          · exact Nat.le_refl _
        have below : (strip isSpace rest).length ≤ (rest.dropWhile isSpace).length :=
          (List.rdropWhile_prefix isSpace _).length_le
        have front := (List.dropWhile_suffix (l := rest) isSpace)
        rw [whole] at shorter
        have kept : rest.dropWhile isSpace = rest := front.eq_of_length_le
          (Nat.le_trans shorter below)
        have first := List.head?_dropWhile_not isSpace rest
        apply strip_self _ last
        intro c known
        rw [kept, known] at first
        simpa using first
    have first := strip_head (p := isSpace) rest
    rw [lineKind, trimmed] at kind
    rw [trimmed] at first
    split at kind
    · cases kind
    rename_i counted
    split at kind
    · cases kind
    rename_i unknown
    exact ⟨first,fun comment => counted (Or.inr comment),unknown,
      undotted_self (LineKind.entry.inj kind) filled⟩
  · intro plain
    have trimmed : strip isSpace rest = rest := strip_self plain.space last
    rw [lineKind, trimmed, if_neg (not_or.mpr ⟨filled,plain.comment⟩), plain.directive]
    show LineKind.entry (undotted rest) = _
    rw [undotted, if_neg plain.dotted]

/-- An entry behind a dot and slash is read again when it is plain, any other always is. -/
theorem entry_stable {raw e : Text} (kind : lineKind l raw = .entry e) (named : e ≠ []) :
    lineKind l e = .entry e ↔
      ∀ rest, strip isSpace raw = '.' :: '/' :: rest → Plain l rest := by
  have whole : undotted (strip isSpace raw) = e := by
    rw [lineKind] at kind
    split at kind
    · cases kind
    split at kind
    · cases kind
    · exact LineKind.entry.inj kind
  by_cases dotted : ['.','/'].isPrefixOf (strip isSpace raw) = true
  · obtain ⟨rest,line⟩ := List.isPrefixOf_iff_prefix.mp dotted
    have behind : e = rest := by
      rw [← whole, undotted, if_pos dotted, ← line]
      rfl
    subst behind
    have last := strip_last (p := isSpace) raw
    rw [← line, List.getLast?_append_of_ne_nil _ named] at last
    rw [lineKind_rest named last, ← line]
    constructor
    · rintro plain rest same
      cases same
      exact plain
    · exact fun each => each e rfl
  · have same : strip isSpace raw = e := by rw [← whole, undotted, if_neg dotted]
    constructor
    · intro _ rest line
      exact absurd (List.isPrefixOf_iff_prefix.mpr ⟨rest,line.symm⟩) dotted
    · intro _
      rw [← same, lineKind_strip, kind, same]

theorem entry_letters {raw e : Text} (kind : lineKind l raw = .entry e) {c : Char}
    (letter : c ∈ e) : c ∈ raw := by
  have stripped : c ∈ strip isSpace raw := by
    rw [lineKind] at kind
    split at kind
    · cases kind
    split at kind
    · cases kind
    · cases kind
      unfold undotted at letter
      split_ifs at letter
      · exact List.mem_of_mem_drop letter
      · exact letter
  have dropped := (List.rdropWhile_prefix isSpace _).subset stripped
  exact (List.dropWhile_suffix isSpace).subset dropped

/-- A line that starts with a dot is no comment and no directive. -/
theorem dotted_entry {raw rest : Text} (line : strip isSpace raw = '.' :: '/' :: rest) :
    lineKind l raw = .entry rest := by
  have unknown : directiveValue l ('.' :: '/' :: rest) = none := by
    rw [directiveValue_of]
    intro same
    have first : some '.' = some 'm' := congrArg List.head? same
    exact absurd first (by decide)
  rw [lineKind, line, if_neg (by simp), unknown]
  rfl

/-- A text of comments and blank lines. -/
def Commentary (header : Text) : Prop :=
  ∀ line ∈ splitlines header, strip isSpace line = [] ∨ ['#'].isPrefixOf (strip isSpace line) = true

/-- The header as it is emitted. -/
def closed (header : Text) : Text :=
  if header = [] ∨ header.getLast? = some '\n' then header else header ++ ['\n']

theorem closed_end (header : Text) : closed header = [] ∨ (closed header).getLast? = some '\n' := by
  unfold closed
  split_ifs with ended
  · exact ended
  · exact Or.inr (by simp)

theorem closed_commentary {header : Text} (commentary : Commentary header) :
    ∀ line ∈ splitlines (closed header), lineKind l line = .blank := by
  have blank : ∀ line, strip isSpace line = [] ∨ ['#'].isPrefixOf (strip isSpace line) = true →
      lineKind l line = .blank := fun line skipped => if_pos skipped
  intro line member
  unfold closed at member
  split_ifs at member with ended
  · exact blank line (commentary line member)
  · rcases splitlines_closed header with same | more
    · rw [same] at member
      exact blank line (commentary line member)
    · rw [more, List.mem_append, List.mem_singleton] at member
      rcases member with known | rfl
      · exact blank line (commentary line known)
      · rfl

theorem splitlines_closing {a : Text} (ended : a = [] ∨ a.getLast? = some '\n') (b : Text) :
    splitlines (a ++ b) = splitlines a ++ splitlines b := by
  rcases ended with rfl | last
  · rfl
  · obtain ⟨front,rfl⟩ := List.getLast?_eq_some_iff.mp last
    rw [List.append_assoc]
    exact splitlines_append front b

def bodyLines (prefixes : List Text) : Text := prefixes.flatMap (fun entry => entry ++ ['\n'])

theorem bodyLines_cons (e : Text) (es : List Text) :
    bodyLines (e :: es) = e ++ '\n' :: bodyLines es := by
  rw [bodyLines, List.flatMap_cons, List.append_assoc]
  rfl

theorem bodyLines_read {es : List Text} (inside : ∀ e ∈ es, ∀ c ∈ e, Inside c) :
    splitlines (bodyLines es) = es ∧ ∀ n, rejectAmbiguousCharacters n (bodyLines es) = .ok () := by
  induction es with
  | nil => exact ⟨rfl,fun _ => rfl⟩
  | cons e es ih =>
    rw [List.forall_mem_cons] at inside
    obtain ⟨lines,passes⟩ := ih inside.2
    rw [bodyLines_cons]
    exact ⟨by rw [splitlines_line inside.1, lines],
      fun n => by rw [reject_line inside.1]; exact passes _⟩

theorem readLines_skip {lines more : List Text} (blank : ∀ line ∈ lines, lineKind l line = .blank)
    (n : ℕ) (s : Reading Text) :
    readLines l n s (lines ++ more) = readLines l (n+lines.length) s more := by
  induction lines generalizing n with
  | nil => rfl
  | cons line lines ih =>
    rw [List.forall_mem_cons] at blank
    rw [List.cons_append, readLines, readLine_of_blank blank.1, List.length_cons,
      Nat.add_comm lines.length, ← Nat.add_assoc]
    exact ih blank.2 (n+1)

theorem modeDirective_kind {mode : Text} (known : mode ∈ policyModes) :
    lineKind l (modeDirective mode) = .directive mode ∧ ∀ c ∈ modeDirective mode, Inside c := by
  have each : mode = modeExclude ∨ mode = modeInclude := by simpa [policyModes] using known
  have value : directiveValue l (modeDirective mode) = some mode := by
    have lowered : lower l [] ((modeDirective mode).take modeDirectivePrefix.length) =
        modeDirectivePrefix := by
      apply (VerifiedInputsAgreement.lower_eq l
        VerifiedInputsAgreement.modeDirectivePrefix_plain [] _).mpr
      rcases each with rfl | rfl
      · decide
      · decide
    rw [directiveValue, lowered, if_neg (not_not.mpr rfl)]
    rcases each with rfl | rfl
    · decide
    · decide
  have stripped : strip isSpace (modeDirective mode) = modeDirective mode := by
    rcases each with rfl | rfl
    · decide
    · decide
  constructor
  · rw [lineKind, stripped, value, if_neg]
    rcases each with rfl | rfl
    · decide
    · decide
  · have plain : ∀ c ∈ modeDirective mode, c ≠ '\n' ∧ c ≠ '\r' ∧ c ∉ ambiguousLineChars ∧
        c ≠ bomChar ∧ isControl c = false := by
      have checked : (modeDirective mode).all (fun c => decide (c ≠ '\n' ∧ c ≠ '\r' ∧
          c ∉ ambiguousLineChars ∧ c ≠ bomChar ∧ isControl c = false)) = true := by
        rcases each with rfl | rfl
        · decide
        · decide
      exact fun c inside => of_decide_eq_true (List.all_eq_true.mp checked c inside)
    intro c member
    obtain ⟨feed,carriage,ambiguous,mark,control⟩ := plain c member
    exact ⟨feed,carriage,ambiguous,mark,control⟩

theorem parsePolicy_ok {t : Text} {p : InputPolicy Text} :
    parsePolicy l t = .ok p ↔ rejectAmbiguousCharacters 1 t = .ok () ∧
      ∃ s, readLines l 1 ⟨none,[]⟩ (splitlines t) = .ok s ∧
        inputPolicy (s.mode.getD modeExclude) s.prefixes = .ok p := by
  rw [parsePolicy, bind_ok]
  constructor
  · rintro ⟨u,passes,rest⟩
    exact ⟨passes,(bind_ok _ _ _).mp rest⟩
  · rintro ⟨passes,rest⟩
    exact ⟨(),passes,(bind_ok _ _ _).mpr rest⟩

theorem inputPolicy_ok {mode : Text} {prefixes : List Text} {p : InputPolicy Text} :
    inputPolicy mode prefixes = .ok p ↔ mode ∈ policyModes ∧ ¬ (mode = modeInclude ∧ prefixes = []) ∧
      p = ⟨mode,prefixes,defaultExclusions⟩ := by
  unfold inputPolicy
  by_cases known : mode ∈ policyModes
  · rw [if_neg (not_not.mpr known)]
    by_cases empty : mode = modeInclude ∧ prefixes = []
    · rw [if_pos empty]
      exact ⟨nofun,fun all => absurd empty all.2.1⟩
    · rw [if_neg empty, pure_ok]
      exact ⟨fun same => ⟨known,empty,same.symm⟩,fun all => all.2.2.symm⟩
  · rw [if_pos known]
    exact ⟨nofun,fun all => absurd all.1 known⟩

/-- A parsed policy is rendered to a text that parses back to it exactly when the
header passes the scan and nothing behind a dot and slash starts with whitespace, a
comment sign, a directive or another dot and slash. -/
theorem round_trip_iff {t : Text} {p : InputPolicy Text} (parsed : parsePolicy l t = .ok p)
    (header : Text) (commentary : Commentary header) :
    parsePolicy l (renderPolicy p header) = .ok p ↔
      rejectAmbiguousCharacters 1 (closed header) = .ok () ∧
        ∀ raw ∈ splitlines t, ∀ rest, strip isSpace raw = '.' :: '/' :: rest → Plain l rest := by
  obtain ⟨passes,s,read,built⟩ := parsePolicy_ok.mp parsed
  obtain ⟨known,named,rfl⟩ := inputPolicy_ok.mp built
  have gathered := readLines_gathers read
  have source : ∀ e ∈ s.prefixes, Permitted e ∧ ∃ raw ∈ splitlines t, lineKind l raw = .entry e :=
    fun e member => (gathered.only e member).resolve_left nofun
  have inside : ∀ e ∈ s.prefixes, ∀ c ∈ e, Inside c := by
    intro e member c letter
    obtain ⟨-,raw,line,kind⟩ := source e member
    exact lines_inside passes raw line c (entry_letters kind letter)
  have distinct : ([] ++ s.prefixes).Nodup := gathered.distinct List.nodup_nil
  have stable : (∀ e ∈ s.prefixes, lineKind l e = .entry e) ↔
      ∀ raw ∈ splitlines t, ∀ rest, strip isSpace raw = '.' :: '/' :: rest → Plain l rest := by
    constructor
    · intro each raw member rest line
      have kind := dotted_entry (l := l) line
      have taken := gathered.takes raw member rest kind
      exact (entry_stable kind (source rest taken).1.named).mp (each rest taken) rest line
    · intro each e member
      obtain ⟨permitted,raw,line,kind⟩ := source e member
      exact (entry_stable kind permitted.named).mpr (each raw line)
  generalize s.mode.getD modeExclude = mode at known named built
  obtain ⟨directive,letters⟩ := modeDirective_kind (l := l) known
  have text : renderPolicy ⟨mode,s.prefixes,defaultExclusions⟩ header =
      closed header ++ (modeDirective mode ++ '\n' :: bodyLines s.prefixes) := List.append_assoc _ _ _
  obtain ⟨lines,free⟩ := bodyLines_read inside
  have scan : rejectAmbiguousCharacters 1 (renderPolicy ⟨mode,s.prefixes,defaultExclusions⟩ header) =
      .ok () ↔ rejectAmbiguousCharacters 1 (closed header) = .ok () := by
    rw [text, reject_append (closed_end header), reject_line letters, free]
    exact and_iff_left rfl
  have shown : splitlines (renderPolicy ⟨mode,s.prefixes,defaultExclusions⟩ header) =
      splitlines (closed header) ++ (modeDirective mode :: s.prefixes) := by
    rw [text, splitlines_closing (closed_end header), splitlines_line letters, lines]
  have opened : readLines l 1 ⟨none,[]⟩
      (splitlines (renderPolicy ⟨mode,s.prefixes,defaultExclusions⟩ header)) =
        readLines l (1+(splitlines (closed header)).length+1) ⟨some mode,[]⟩ s.prefixes := by
    rw [shown, readLines_skip (closed_commentary commentary), readLines,
      (readLine_of_directive directive).mpr ⟨rfl,rfl,known,rfl⟩]
    rfl
  have permitted : ∀ e ∈ s.prefixes, Permitted e := fun e member => (source e member).1
  rw [parsePolicy_ok, scan, opened, ← stable]
  constructor
  · rintro ⟨clean,s',again,same⟩
    obtain ⟨-,-,whole⟩ := inputPolicy_ok.mp same
    have entries : s.prefixes = s'.prefixes := congrArg InputPolicy.prefixes whole
    have back : s' = ⟨some mode,[] ++ s.prefixes⟩ := by
      obtain ⟨kept,-⟩ := readLines_grow again
      cases s'
      cases kept
      cases entries
      rfl
    rw [back] at again
    exact ⟨clean,(readLines_back permitted distinct).mp again⟩
  · rintro ⟨clean,each⟩
    exact ⟨clean,_,(readLines_back permitted distinct).mpr each,
      inputPolicy_ok.mpr ⟨known,named,rfl⟩⟩

/-- An include list with a dotted entry, a comment and an entry outside ASCII. -/
def includeText : Text := "MODE: include\n./src/\r\n# sources\n docs/été \nsrc/\n".toList

def includePolicy : InputPolicy Text :=
  ⟨modeInclude,["src/".toList,"docs/été".toList],defaultExclusions⟩

theorem includeText_round_trip :
    parsePolicy VerifiedInputsAgreement.asciiLower includeText = .ok includePolicy ∧
      parsePolicy VerifiedInputsAgreement.asciiLower (renderPolicy includePolicy "# kept".toList) =
        .ok includePolicy := by
  have parsed : parsePolicy VerifiedInputsAgreement.asciiLower includeText = .ok includePolicy := by
    decide +kernel
  have commentary : Commentary "# kept".toList := by
    unfold Commentary
    decide +kernel
  refine ⟨parsed,(round_trip_iff parsed _ commentary).mpr ⟨by decide +kernel,?_⟩⟩
  have lines : splitlines includeText = ["MODE: include".toList,"./src/".toList,"# sources".toList,
      " docs/été ".toList,"src/".toList] := by decide +kernel
  rw [lines]
  have dotless : ∀ raw : Text, (strip isSpace raw).head? ≠ some '.' → ∀ rest,
      strip isSpace raw = '.' :: '/' :: rest →
        Plain VerifiedInputsAgreement.asciiLower rest := fun raw other rest line =>
    absurd (by rw [line]; rfl) other
  simp only [List.forall_mem_cons]
  refine ⟨dotless _ (by decide +kernel),?_,dotless _ (by decide +kernel),
    dotless _ (by decide +kernel),dotless _ (by decide +kernel),nofun⟩
  · intro rest line
    have whole : "./src/".toList = '.' :: '/' :: rest := by rw [← line]; decide +kernel
    cases whole
    refine ⟨?_,by decide,by decide +kernel,by decide⟩
    intro c first
    obtain rfl := Option.some.inj first
    decide

/-- An entry whose name starts with the comment sign. -/
def hashedText : Text := "./#notes\n".toList

def hashedPolicy : InputPolicy Text := ⟨modeExclude,["#notes".toList],defaultExclusions⟩

theorem hashed_entry_lost :
    parsePolicy VerifiedInputsAgreement.asciiLower hashedText = .ok hashedPolicy ∧ Commentary [] ∧
      parsePolicy VerifiedInputsAgreement.asciiLower (renderPolicy hashedPolicy []) =
        .ok ⟨modeExclude,[],defaultExclusions⟩ ∧
      parsePolicy VerifiedInputsAgreement.asciiLower (renderPolicy hashedPolicy []) ≠
        .ok hashedPolicy := by
  have rendered : parsePolicy VerifiedInputsAgreement.asciiLower (renderPolicy hashedPolicy []) =
      .ok ⟨modeExclude,[],defaultExclusions⟩ := by decide +kernel
  refine ⟨by decide +kernel,nofun,rendered,?_⟩
  rw [rendered]
  decide +kernel

end RoundTrip

end PolicyRoundTrip

end EvidenceV4
