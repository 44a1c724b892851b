import Mathlib.Data.List.Basic
import Mathlib.Tactic.SplitIfs

/-!
# Simple commands of the POSIX shell

A text is read into words and operators, the words into commands, and a command
runs the program that its first word names. What needs an expansion, a pattern,
a redirection or a compound command is outside of this part of the language, and
so is a command that the shell carries out in its own environment.
-/

set_option autoImplicit false

namespace ShellCommand

def letters (s : String) : List ℕ := s.toList.map Char.toNat

/-- A word as it is written, with its quotation marks. -/
abbrev Raw := List ℕ

section Reading

inductive State where
  | between
  | word
  | quotation (mark : ℕ)
  | comment

inductive Token where
  | word (raw : Raw)
  | semicolon
  | newline
  | comment
  deriving DecidableEq

def isBlank (c : ℕ) : Bool := c == 32 || c == 9

def isQuote (c : ℕ) : Bool := c == 39 || c == 34

/-- Characters of operators, expansions, patterns and groups. -/
def special (c : ℕ) : Bool := (letters "|&<>()$`\\*?[~\x7b\x7d!").contains c

/-- Characters with a meaning between double quotes. -/
def expands (c : ℕ) : Bool := (letters "$`\\").contains c

/-- The tokens of a text; `raw` is the part of the current word that was read. -/
def tokens : State → Raw → List ℕ → Option (List Token)
  | .between, _, [] => some []
  | .comment, _, [] => some []
  | .word, raw, [] => some [.word raw]
  | .quotation _, _, [] => none
  | .comment, _, c :: rest =>
    if c = 10 then (tokens .between [] rest).map (.newline :: ·) else tokens .comment [] rest
  | .quotation mark, raw, c :: rest =>
    if c = mark then tokens .word (raw ++ [c]) rest
    else if mark = 34 ∧ expands c = true then none
    else tokens (.quotation mark) (raw ++ [c]) rest
  | .between, _, c :: rest =>
    if isBlank c = true then tokens .between [] rest
    else if c = 59 then (tokens .between [] rest).map (.semicolon :: ·)
    else if c = 10 then (tokens .between [] rest).map (.newline :: ·)
    else if c = 35 then (tokens .comment [] rest).map (.comment :: ·)
    else if isQuote c = true then tokens (.quotation c) [c] rest
    else if special c = true then none
    else tokens .word [c] rest
  | .word, raw, c :: rest =>
    if isBlank c = true then (tokens .between [] rest).map (.word raw :: ·)
    else if c = 59 then (tokens .between [] rest).map (fun ts => .word raw :: .semicolon :: ts)
    else if c = 10 then (tokens .between [] rest).map (fun ts => .word raw :: .newline :: ts)
    else if isQuote c = true then tokens (.quotation c) (raw ++ [c]) rest
    else if special c = true then none
    else tokens .word (raw ++ [c]) rest

/-- The commands of a text; a separator stands behind a command. -/
def commands (current : List Raw) : List Token → Option (List (List Raw))
  | [] => some (if current = [] then [] else [current])
  | .word raw :: ts => commands (current ++ [raw]) ts
  | .comment :: ts => commands current ts
  | .semicolon :: ts => if current = [] then none else (commands [] ts).map (current :: ·)
  | .newline :: ts =>
    (commands [] ts).map (fun more => if current = [] then more else current :: more)

/-- The text of a word without the marks that quote its parts. -/
def unquoteFrom : Option ℕ → Raw → List ℕ
  | _, [] => []
  | none, c :: rest => if isQuote c = true then unquoteFrom (some c) rest else c :: unquoteFrom none rest
  | some mark, c :: rest =>
    if c = mark then unquoteFrom none rest else c :: unquoteFrom (some mark) rest

def unquote (raw : Raw) : List ℕ := unquoteFrom none raw

end Reading

section Running

/-- The reserved words that hold no special character. -/
def reserved : List Raw :=
  ["case","do","done","elif","else","esac","fi","for","if","in","then","until","while"].map letters

/-- The special utilities, and those that act on the environment of the shell that runs them. -/
def ownUtilities : List (List ℕ) :=
  ["break",":","continue",".","eval","exec","exit","export","readonly","return","set","shift",
    "times","trap","unset","alias","bg","cd","command","fc","fg","getopts","hash","jobs","read",
    "type","ulimit","umask","unalias","wait"].map letters

def nameStart (c : ℕ) : Bool := (65 ≤ c && c ≤ 90) || (97 ≤ c && c ≤ 122) || c == 95

def nameCharacter (c : ℕ) : Bool := nameStart c || (48 ≤ c && c ≤ 57)

/-- The word starts with a name and an equals sign. -/
def assignment (word : List ℕ) : Bool :=
  let name := word.takeWhile nameCharacter
  (name.head?.map nameStart).getD false && (word.drop name.length).head? == some 61

/-- The words that a simple command hands to the program it runs. -/
def simple (raws : List Raw) : Option (List (List ℕ)) :=
  match raws with
  | [] => none
  | first :: _ =>
    if first ∈ reserved ∨ assignment first = true ∨ unquote first ∈ ownUtilities then none
    else some (raws.map unquote)

/-- The programs that the shell runs for a text, each with its words. -/
def run (text : List ℕ) : Option (List (List (List ℕ))) := do
  let ts ← tokens .between [] text
  let parts ← commands [] ts
  parts.mapM simple

/-- The shell reads a comment in the text. -/
def Commented (text : List ℕ) : Prop := ∃ ts ∈ tokens .between [] text, .comment ∈ ts

end Running

section Words

/-- The words of a text without separators. -/
def words : State → Raw → List ℕ → Option (List Raw)
  | .between, _, [] => some []
  | .comment, _, [] => some []
  | .word, raw, [] => some [raw]
  | .quotation _, _, [] => none
  | .comment, _, _ :: rest => words .comment [] rest
  | .quotation mark, raw, c :: rest =>
    words (if c = mark then .word else .quotation mark) (raw ++ [c]) rest
  | .between, _, c :: rest =>
    if isBlank c = true then words .between [] rest
    else words (if isQuote c = true then .quotation c else .word) [c] rest
  | .word, raw, c :: rest =>
    if isBlank c = true then (words .between [] rest).map (raw :: ·)
    else words (if isQuote c = true then .quotation c else .word) (raw ++ [c]) rest

/-- No character of the text separates, expands or groups. -/
def Plain (text : List ℕ) : Prop := ∀ c ∈ text, c ≠ 59 ∧ c ≠ 10 ∧ special c = false

theorem expands_special {c : ℕ} (expanding : expands c = true) : special c = true := by
  have known : ∀ c ∈ letters "$`\\", special c = true := by decide
  exact known c (List.contains_iff_mem.mp expanding)

def startsComment (raw : Raw) : Prop := raw.head? = some 35

instance (raw : Raw) : Decidable (startsComment raw) := inferInstanceAs (Decidable (_ = _))

/-- The word being read is the first word found. -/
theorem words_front {text : List ℕ} {state : State} {raw : Raw} {found : List Raw}
    (inside : state = .word ∨ ∃ mark, state = .quotation mark)
    (read : words state raw text = some found) : ∃ more rest, found = (raw ++ more) :: rest := by
  induction text generalizing state raw with
  | nil =>
    rcases inside with rfl | ⟨mark,rfl⟩
    · obtain rfl := Option.some.inj read
      exact ⟨[],[],by rw [List.append_nil]⟩
    · cases read
  | cons c text ih =>
    have step : ∀ {state' : State}, (state' = .word ∨ ∃ mark, state' = .quotation mark) →
        words state' (raw ++ [c]) text = some found → ∃ more rest, found = (raw ++ more) :: rest := by
      intro state' inside' read'
      obtain ⟨more,rest,rfl⟩ := ih inside' read'
      exact ⟨c :: more,rest,by rw [List.append_assoc]; rfl⟩
    rcases inside with rfl | ⟨mark,rfl⟩
    · rw [words] at read
      split_ifs at read with blank quote
      · obtain ⟨rest,_,rfl⟩ := Option.map_eq_some_iff.mp read
        exact ⟨[],rest,by rw [List.append_nil]⟩
      · exact step (.inr ⟨c,rfl⟩) read
      · exact step (.inl rfl) read
    · rw [words] at read
      split_ifs at read with closes
      · exact step (.inl rfl) read
      · exact step (.inr ⟨mark,rfl⟩) read

/-- What ends a text without separators: its end, or the next separator. -/
def Ends (rest : List ℕ) : Prop :=
  ∀ raw, tokens .word raw rest = (tokens .between [] rest).map (.word raw :: ·)

theorem ends_nil : Ends [] := fun _ => rfl

theorem ends_semicolon (rest : List ℕ) : Ends (59 :: rest) := by
  intro raw
  rw [tokens, tokens, if_neg (by decide), if_pos rfl, if_neg (by decide), if_pos rfl, Option.map_map]
  rfl

/-- A state without a comment, and with a word only inside of one. -/
inductive Live : State → Raw → Prop where
  | between : Live .between []
  | word {raw : Raw} (filled : raw ≠ []) : Live .word raw
  | quotation {raw : Raw} (mark : ℕ) (filled : raw ≠ []) : Live (.quotation mark) raw

theorem Live.inside {state : State} {raw : Raw} (live : Live state raw) (filled : raw ≠ []) :
    state = .word ∨ ∃ mark, state = .quotation mark := by
  cases live with
  | between => exact absurd rfl filled
  | word => exact .inl rfl
  | quotation mark => exact .inr ⟨mark,rfl⟩

theorem live_quote (c : ℕ) {raw : Raw} (filled : raw ≠ []) :
    Live (if isQuote c = true then .quotation c else .word) raw := by
  split_ifs
  · exact .quotation c filled
  · exact .word filled

theorem startsComment_append {raw more : Raw} (filled : raw ≠ []) :
    startsComment (raw ++ more) ↔ startsComment raw := by
  unfold startsComment
  rw [List.head?_append_of_ne_nil _ filled]

theorem tokens_quote {c : ℕ} {raw : Raw} {text : List ℕ} (plain : special c = false) :
    (if isQuote c = true then tokens (.quotation c) raw text
      else if special c = true then none else tokens .word raw text) =
      tokens (if isQuote c = true then .quotation c else .word) raw text := by
  by_cases quoted : isQuote c = true
  · rw [if_pos quoted, if_pos quoted]
  · rw [if_neg quoted, if_neg quoted, plain, if_neg Bool.false_ne_true]

/-- Words without a comment are the tokens of a plain text. -/
theorem tokens_words {rest : List ℕ} (ends : Ends rest) {text : List ℕ} {state : State} {raw : Raw}
    {found : List Raw} (plain : Plain text) (live : Live state raw)
    (read : words state raw text = some found) (free : ∀ r ∈ found, ¬ startsComment r) :
    tokens state raw (text ++ rest) = (tokens .between [] rest).map (found.map .word ++ ·) := by
  induction text generalizing state raw found with
  | nil =>
    cases live with
    | between =>
      obtain rfl := Option.some.inj read
      exact Option.map_id'.symm
    | word filled =>
      obtain rfl := Option.some.inj read
      exact ends raw
    | quotation mark filled => cases read
  | cons c text ih =>
    obtain ⟨⟨separate,line,ordinary⟩,later⟩ := List.forall_mem_cons.mp plain
    cases live with
    | between =>
      rw [words] at read
      rw [List.cons_append, tokens]
      by_cases blank : isBlank c = true
      · rw [if_pos blank] at read
        rw [if_pos blank]
        exact ih later .between read free
      · rw [if_neg blank] at read
        have other : c ≠ 35 := by
          rintro rfl
          obtain ⟨more,others,rfl⟩ :=
            words_front ((live_quote 35 (List.cons_ne_nil 35 [])).inside (List.cons_ne_nil 35 [])) read
          exact free _ List.mem_cons_self rfl
        rw [if_neg blank, if_neg separate, if_neg line, if_neg other, tokens_quote ordinary]
        exact ih later (live_quote c (List.cons_ne_nil _ _)) read free
    | word filled =>
      have grown : raw ++ [c] ≠ [] := by simp
      rw [words] at read
      rw [List.cons_append, tokens]
      by_cases blank : isBlank c = true
      · rw [if_pos blank] at read
        obtain ⟨others,found,rfl⟩ := Option.map_eq_some_iff.mp read
        rw [if_pos blank, ih later .between found (fun r inside => free r (List.mem_cons_of_mem _ inside)),
          Option.map_map]
        rfl
      · rw [if_neg blank] at read
        rw [if_neg blank, if_neg separate, if_neg line, tokens_quote ordinary]
        exact ih later (live_quote c grown) read free
    | quotation mark filled =>
      have grown : raw ++ [c] ≠ [] := by simp
      have quiet : ¬ (mark = 34 ∧ expands c = true) := by
        rintro ⟨_,expanding⟩
        rw [expands_special expanding] at ordinary
        cases ordinary
      rw [words] at read
      rw [List.cons_append, tokens]
      by_cases closes : c = mark
      · rw [if_pos closes] at read ⊢
        exact ih later (.word grown) read free
      · rw [if_neg closes] at read ⊢
        rw [if_neg quiet]
        exact ih later (.quotation mark grown) read free

/-- A word that starts a comment is one for the shell. -/
theorem tokens_comment {rest : List ℕ} {text : List ℕ} {state : State} {raw : Raw}
    {found : List Raw} (plain : Plain text) (live : Live state raw)
    (read : words state raw text = some found) (fresh : ¬ startsComment raw)
    (starts : ∃ r ∈ found, startsComment r) {ts : List Token}
    (tokened : tokens state raw (text ++ rest) = some ts) : .comment ∈ ts := by
  induction text generalizing state raw found ts with
  | nil =>
    obtain ⟨r,inside,first⟩ := starts
    cases live with
    | between =>
      obtain rfl := Option.some.inj read
      exact absurd inside List.not_mem_nil
    | word filled =>
      obtain rfl := Option.some.inj read
      rw [List.mem_singleton.mp inside] at first
      exact absurd first fresh
    | quotation mark filled => cases read
  | cons c text ih =>
    obtain ⟨⟨separate,line,ordinary⟩,later⟩ := List.forall_mem_cons.mp plain
    cases live with
    | between =>
      rw [words] at read
      rw [List.cons_append, tokens] at tokened
      by_cases blank : isBlank c = true
      · rw [if_pos blank] at read tokened
        exact ih later .between read fresh starts tokened
      · rw [if_neg blank] at read
        rw [if_neg blank, if_neg separate, if_neg line] at tokened
        by_cases comment : c = 35
        · rw [if_pos comment] at tokened
          obtain ⟨others,_,rfl⟩ := Option.map_eq_some_iff.mp tokened
          exact List.mem_cons_self
        · rw [if_neg comment, tokens_quote ordinary] at tokened
          have fresh' : ¬ startsComment [c] := fun first => comment (Option.some.inj first)
          exact ih later (live_quote c (List.cons_ne_nil _ _)) read fresh' starts tokened
    | word filled =>
      have grown : raw ++ [c] ≠ [] := by simp
      have fresh' : ¬ startsComment (raw ++ [c]) := (startsComment_append filled).not.mpr fresh
      rw [words] at read
      rw [List.cons_append, tokens] at tokened
      by_cases blank : isBlank c = true
      · rw [if_pos blank] at read tokened
        obtain ⟨others,found,rfl⟩ := Option.map_eq_some_iff.mp read
        obtain ⟨more,behind,rfl⟩ := Option.map_eq_some_iff.mp tokened
        obtain ⟨r,inside,first⟩ := starts
        rcases List.mem_cons.mp inside with rfl | inside
        · exact absurd first fresh
        · exact List.mem_cons_of_mem _ (ih later .between found nofun ⟨r,inside,first⟩ behind)
      · rw [if_neg blank] at read
        rw [if_neg blank, if_neg separate, if_neg line, tokens_quote ordinary] at tokened
        exact ih later (live_quote c grown) read fresh' starts tokened
    | quotation mark filled =>
      have grown : raw ++ [c] ≠ [] := by simp
      have fresh' : ¬ startsComment (raw ++ [c]) := (startsComment_append filled).not.mpr fresh
      rw [words] at read
      rw [List.cons_append, tokens] at tokened
      by_cases closes : c = mark
      · rw [if_pos closes] at read tokened
        exact ih later (.word grown) read fresh' starts tokened
      · rw [if_neg closes] at read tokened
        split_ifs at tokened
        exact ih later (.quotation mark grown) read fresh' starts tokened

/-- Words of a plain command are read up to its end. -/
theorem commands_words (current found : List Raw) (ts : List Token) :
    commands current (found.map .word ++ ts) = commands (current ++ found) ts := by
  induction found generalizing current with
  | nil => rw [List.append_nil]; rfl
  | cons raw found ih =>
    rw [List.map_cons, List.cons_append, commands, ih, List.append_assoc]
    rfl

end Words

section Quotation

/-- The mark of the quotation that is open behind a part of a word. -/
def openMark : Option ℕ → Raw → Option ℕ
  | mark, [] => mark
  | none, c :: rest => openMark (if isQuote c = true then some c else none) rest
  | some mark, c :: rest => openMark (if c = mark then none else some mark) rest

theorem unquoteFrom_append (mark : Option ℕ) (a b : Raw) :
    unquoteFrom mark (a ++ b) = unquoteFrom mark a ++ unquoteFrom (openMark mark a) b := by
  induction a generalizing mark with
  | nil => cases mark <;> rfl
  | cons c a ih =>
    cases mark with
    | none =>
      rw [List.cons_append, unquoteFrom, unquoteFrom, openMark]
      by_cases quoted : isQuote c = true
      · rw [if_pos quoted, if_pos quoted, if_pos quoted, ih]
      · rw [if_neg quoted, if_neg quoted, if_neg quoted, ih, List.cons_append]
    | some mark =>
      rw [List.cons_append, unquoteFrom, unquoteFrom, openMark]
      by_cases closes : c = mark
      · rw [if_pos closes, if_pos closes, if_pos closes, ih]
      · rw [if_neg closes, if_neg closes, if_neg closes, ih, List.cons_append]

theorem openMark_append (mark : Option ℕ) (a b : Raw) :
    openMark mark (a ++ b) = openMark (openMark mark a) b := by
  induction a generalizing mark with
  | nil => cases mark <;> rfl
  | cons c a ih =>
    cases mark with
    | none => rw [List.cons_append, openMark, openMark, ih]
    | some mark => rw [List.cons_append, openMark, openMark, ih]

theorem assignment_iff {word : List ℕ} : assignment word = true ↔ ∃ first name rest,
    word = (first :: name) ++ 61 :: rest ∧ nameStart first = true ∧
      ∀ c ∈ first :: name, nameCharacter c = true := by
  have equals : nameCharacter 61 = false := by decide
  simp only [assignment, Bool.and_eq_true, beq_iff_eq]
  constructor
  · rintro ⟨start,sign⟩
    cases front : word.takeWhile nameCharacter with
    | nil =>
      rw [front] at start
      cases start
    | cons first name =>
      rw [front] at start sign
      have whole := List.takeWhile_append_dropWhile (p := nameCharacter) (l := word)
      have left : word.drop (first :: name).length = word.dropWhile nameCharacter := by
        rw [front] at whole
        conv_lhs => rw [← whole]
        exact List.drop_left
      rw [left] at sign
      obtain ⟨rest,behind⟩ := List.head?_eq_some_iff.mp sign
      rw [front, behind] at whole
      refine ⟨first,name,rest,whole.symm,start,?_⟩
      rw [← front]
      exact List.all_eq_true.mp List.all_takeWhile
  · rintro ⟨first,name,rest,rfl,start,named⟩
    have front : ((first :: name) ++ 61 :: rest).takeWhile nameCharacter = first :: name := by
      rw [List.takeWhile_append_of_pos named, List.takeWhile_cons, equals]
      exact List.append_nil _
    rw [front, List.drop_left]
    exact ⟨start,rfl⟩

theorem unquote_cons {c : ℕ} (plain : isQuote c = false) (rest : Raw) :
    unquote (c :: rest) = c :: unquote rest := by
  rw [unquote, unquoteFrom, plain, if_neg Bool.false_ne_true]
  rfl

theorem nameCharacter_plain {c : ℕ} (named : nameCharacter c = true) : isQuote c = false := by
  simp only [nameCharacter, nameStart, Bool.or_eq_true, Bool.and_eq_true, decide_eq_true_eq,
    beq_iff_eq] at named
  simp only [isQuote, Bool.or_eq_false_iff, beq_eq_false_iff_ne]
  omega

/-- A name and an equals sign at the start of a word are not quoted. -/
theorem assignment_unquote {raw : Raw} (assigned : assignment raw = true) :
    assignment (unquote raw) = true := by
  obtain ⟨first,name,rest,rfl,start,named⟩ := assignment_iff.mp assigned
  have kept : ∀ {front : Raw}, (∀ c ∈ front, nameCharacter c = true) →
      unquote (front ++ 61 :: rest) = front ++ 61 :: unquote rest := by
    intro front each
    induction front with
    | nil => exact unquote_cons (by decide) rest
    | cons c front ih =>
      obtain ⟨first,later⟩ := List.forall_mem_cons.mp each
      rw [List.cons_append, unquote_cons (nameCharacter_plain first), ih later]
      rfl
  rw [kept named, assignment_iff]
  exact ⟨first,name,_,rfl,start,named⟩

end Quotation

section Segments

/-- A text of white space of some kind. -/
def Idle (text : List ℕ) : Prop :=
  ∀ c ∈ text, c ≠ 59 ∧ c ≠ 35 ∧ isQuote c = false ∧ special c = false

/-- White space that the shell takes for nothing. -/
def Tidy (text : List ℕ) : Prop := ∀ c ∈ text, isBlank c = true ∨ c = 10

instance (text : List ℕ) : Decidable (Tidy text) := inferInstanceAs (Decidable (∀ c ∈ text, _))

def lineOrWord (t : Token) : Prop := t = .newline ∨ ∃ raw, t = .word raw

theorem tokens_between (raw : Raw) (text : List ℕ) :
    tokens .between raw text = tokens .between [] text := by
  cases text with
  | nil => rfl
  | cons c text => rw [tokens, tokens]

/-- White space is read as line ends and as words of its other characters. -/
theorem tokens_idle {rest : List ℕ} (ends : Ends rest) {text : List ℕ} (idle : Idle text)
    {state : State} {raw : Raw} (shape : state = .between ∨ state = .word) {ts : List Token}
    (read : tokens state raw (text ++ rest) = some ts) :
    ∃ front more, tokens .between [] rest = some more ∧ ts = front ++ more ∧
      (∀ t ∈ front, lineOrWord t) ∧
      (state = .word ∨ ¬ Tidy text → ∃ raw, .word raw ∈ front) := by
  induction text generalizing state raw ts with
  | nil =>
    rcases shape with rfl | rfl
    · rw [List.nil_append, tokens_between] at read
      refine ⟨[],ts,read,rfl,fun _ inside => absurd inside List.not_mem_nil,?_⟩
      rintro (word | untidy)
      · cases word
      · exact absurd (fun _ inside => absurd inside List.not_mem_nil) untidy
    · rw [List.nil_append, ends raw] at read
      obtain ⟨more,behind,rfl⟩ := Option.map_eq_some_iff.mp read
      exact ⟨[.word raw],more,behind,rfl,List.forall_mem_singleton.mpr (.inr ⟨raw,rfl⟩),
        fun _ => ⟨raw,List.mem_cons_self⟩⟩
  | cons c text ih =>
    obtain ⟨⟨separate,comment,quote,ordinary⟩,later⟩ := List.forall_mem_cons.mp idle
    have quote' : ¬ isQuote c = true := by rw [quote]; exact Bool.false_ne_true
    have ordinary' : ¬ special c = true := by rw [ordinary]; exact Bool.false_ne_true
    have tidied : (isBlank c = true ∨ c = 10) → ¬ Tidy (c :: text) → ¬ Tidy text :=
      fun first untidy tidy => untidy (List.forall_mem_cons.mpr ⟨first,tidy⟩)
    rw [List.cons_append] at read
    rcases shape with rfl | rfl
    · rw [tokens] at read
      by_cases blank : isBlank c = true
      · rw [if_pos blank] at read
        obtain ⟨front,more,behind,rfl,only,found⟩ := ih later (.inl rfl) read
        refine ⟨front,more,behind,rfl,only,?_⟩
        rintro (word | untidy)
        · cases word
        · exact found (.inr (tidied (.inl blank) untidy))
      · rw [if_neg blank, if_neg separate] at read
        by_cases line : c = 10
        · rw [if_pos line] at read
          obtain ⟨ts,after,rfl⟩ := Option.map_eq_some_iff.mp read
          obtain ⟨front,more,behind,rfl,only,found⟩ := ih later (.inl rfl) after
          refine ⟨.newline :: front,more,behind,rfl,List.forall_mem_cons.mpr ⟨.inl rfl,only⟩,?_⟩
          rintro (word | untidy)
          · cases word
          · obtain ⟨raw,inside⟩ := found (.inr (tidied (.inr line) untidy))
            exact ⟨raw,List.mem_cons_of_mem _ inside⟩
        · rw [if_neg line, if_neg comment, if_neg quote', if_neg ordinary'] at read
          obtain ⟨front,more,behind,rfl,only,found⟩ := ih later (.inr rfl) read
          exact ⟨front,more,behind,rfl,only,fun _ => found (.inl rfl)⟩
    · rw [tokens] at read
      by_cases blank : isBlank c = true
      · rw [if_pos blank] at read
        obtain ⟨ts,after,rfl⟩ := Option.map_eq_some_iff.mp read
        obtain ⟨front,more,behind,rfl,only,_⟩ := ih later (.inl rfl) after
        exact ⟨.word raw :: front,more,behind,rfl,List.forall_mem_cons.mpr ⟨.inr ⟨raw,rfl⟩,only⟩,
          fun _ => ⟨raw,List.mem_cons_self⟩⟩
      · rw [if_neg blank, if_neg separate] at read
        by_cases line : c = 10
        · rw [if_pos line] at read
          obtain ⟨ts,after,rfl⟩ := Option.map_eq_some_iff.mp read
          obtain ⟨front,more,behind,rfl,only,_⟩ := ih later (.inl rfl) after
          refine ⟨.word raw :: .newline :: front,more,behind,rfl,?_,
            fun _ => ⟨raw,List.mem_cons_self⟩⟩
          exact List.forall_mem_cons.mpr ⟨.inr ⟨raw,rfl⟩,List.forall_mem_cons.mpr ⟨.inl rfl,only⟩⟩
        · rw [if_neg line, if_neg quote', if_neg ordinary'] at read
          obtain ⟨front,more,behind,rfl,only,found⟩ := ih later (.inr rfl) read
          exact ⟨front,more,behind,rfl,only,fun _ => found (.inl rfl)⟩

theorem tokens_tidy {text : List ℕ} (tidy : Tidy text) :
    ∃ ts, tokens .between [] text = some ts ∧ commands [] ts = some [] ∧ .comment ∉ ts := by
  induction text with
  | nil => exact ⟨[],rfl,rfl,List.not_mem_nil⟩
  | cons c text ih =>
    obtain ⟨first,later⟩ := List.forall_mem_cons.mp tidy
    obtain ⟨ts,read,none,free⟩ := ih later
    rw [tokens]
    rcases first with blank | rfl
    · rw [if_pos blank]
      exact ⟨ts,read,none,free⟩
    · rw [if_neg (by decide), if_neg (by decide), if_pos rfl, read]
      refine ⟨.newline :: ts,rfl,?_,by simp [free]⟩
      rw [commands, none]
      rfl

/-- In front of a separator stands a command. -/
theorem commands_semicolon {front : List Token} (only : ∀ t ∈ front, lineOrWord t)
    {current : List Raw} {ts : List Token} {found : List (List Raw)}
    (read : commands current (front ++ .semicolon :: ts) = some found) :
    ∃ more, commands [] ts = some more ∧ more.length < found.length := by
  induction front generalizing current found with
  | nil =>
    rw [List.nil_append, commands] at read
    split_ifs at read
    obtain ⟨more,behind,rfl⟩ := Option.map_eq_some_iff.mp read
    exact ⟨more,behind,Nat.lt_succ_self _⟩
  | cons t front ih =>
    obtain ⟨first,later⟩ := List.forall_mem_cons.mp only
    rw [List.cons_append] at read
    rcases first with rfl | ⟨raw,rfl⟩
    · rw [commands] at read
      obtain ⟨inner,after,rfl⟩ := Option.map_eq_some_iff.mp read
      obtain ⟨more,behind,less⟩ := ih later after
      refine ⟨more,behind,?_⟩
      split_ifs
      · exact less
      · exact Nat.lt_succ_of_lt less
    · exact ih later read

theorem commands_filled {front : List Token} (only : ∀ t ∈ front, lineOrWord t)
    {current : List Raw} (filled : current ≠ [] ∨ ∃ raw, .word raw ∈ front)
    {found : List (List Raw)} (read : commands current front = some found) : found ≠ [] := by
  induction front generalizing current found with
  | nil =>
    rcases filled with filled | ⟨_,inside⟩
    · rw [commands, if_neg filled] at read
      obtain rfl := Option.some.inj read
      exact List.cons_ne_nil _ _
    · exact absurd inside List.not_mem_nil
  | cons t front ih =>
    obtain ⟨first,later⟩ := List.forall_mem_cons.mp only
    rcases first with rfl | ⟨raw,rfl⟩
    · rw [commands] at read
      obtain ⟨inner,after,rfl⟩ := Option.map_eq_some_iff.mp read
      by_cases empty : current = []
      · rw [if_pos empty]
        have later' : ∃ raw, .word raw ∈ front := by
          rcases filled with filled | ⟨raw,inside⟩
          · exact absurd empty filled
          · rcases List.mem_cons.mp inside with same | inside
            · cases same
            · exact ⟨raw,inside⟩
        exact ih later (.inr later') after
      · rw [if_neg empty]
        exact List.cons_ne_nil _ _
    · exact ih later (.inl (by simp)) read

/-- A part of a text between two separators, with the words of its command. -/
inductive Piece : List ℕ × Option (List Raw) → Prop where
  | command {text : List ℕ} {found : List Raw} (plain : Plain text)
      (read : words .between [] text = some found) (filled : found ≠ []) : Piece (text,some found)
  | idle {text : List ℕ} (idle : Idle text) : Piece (text,none)

abbrev Pieces := List (List ℕ × Option (List Raw))

def joined : Pieces → List ℕ
  | [] => []
  | [piece] => piece.1
  | piece :: next :: rest => piece.1 ++ 59 :: joined (next :: rest)

theorem joined_intercalate (all : Pieces) : joined all = [59].intercalate (all.map Prod.fst) := by
  induction all using joined.induct with
  | case1 => rfl
  | case2 piece => simp [joined]
  | case3 piece next rest ih =>
    rw [joined, ih]
    simp only [List.map_cons, List.intercalate_cons_cons, List.append_assoc, List.singleton_append]

/-- No word of a command starts a comment. -/
def Uncommented (all : Pieces) : Prop :=
  ∀ piece ∈ all, ∀ found ∈ piece.2, ∀ raw ∈ found, ¬ startsComment raw

/-- Only the last part may hold no command, and then it is nothing to the shell. -/
def Separated : Pieces → Prop
  | [] => True
  | [(text,none)] => Tidy text
  | (_,none) :: _ :: _ => False
  | (_,some _) :: rest => Separated rest

theorem separated_iff {all : Pieces} : Separated all ↔
    (∀ piece ∈ all.dropLast, piece.2 ≠ none) ∧ ∀ piece ∈ all.getLast?, piece.2 = none → Tidy piece.1 := by
  induction all with
  | nil => simp [Separated]
  | cons piece all ih =>
    obtain ⟨text,found⟩ := piece
    cases all with
    | nil => cases found <;> simp [Separated]
    | cons next all =>
      cases found with
      | none => simp [Separated]
      | some found =>
        rw [Separated, ih, List.dropLast_cons_cons, List.getLast?_cons_cons, List.forall_mem_cons]
        simp

def parts (all : Pieces) : List (List Raw) := all.filterMap Prod.snd

theorem words_tokens {text : List ℕ} {found : List Raw} (plain : Plain text)
    (read : words .between [] text = some found) (free : ∀ r ∈ found, ¬ startsComment r)
    {rest : List ℕ} (ends : Ends rest) : tokens .between [] (text ++ rest) =
      (tokens .between [] rest).map (found.map .word ++ ·) :=
  tokens_words ends plain .between read free

theorem tokens_semicolon (rest : List ℕ) :
    tokens .between [] (59 :: rest) = (tokens .between [] rest).map (.semicolon :: ·) := by
  rw [tokens, if_neg (by decide), if_pos rfl]

theorem commented_tokens {all : Pieces} (pieces : ∀ piece ∈ all, Piece piece)
    (commented : ¬ Uncommented all) {ts : List Token}
    (read : tokens .between [] (joined all) = some ts) : .comment ∈ ts := by
  have starts : ∀ {piece : List ℕ × Option (List Raw)}, Piece piece →
      ¬ (∀ found ∈ piece.2, ∀ raw ∈ found, ¬ startsComment raw) → ∀ {rest : List ℕ} {ts : List Token},
        tokens .between [] (piece.1 ++ rest) = some ts → .comment ∈ ts := by
    intro piece shape starts rest ts read
    cases shape with
    | command plain words' filled =>
      push Not at starts
      obtain ⟨found,same,starts⟩ := starts
      obtain rfl := Option.some.inj same
      exact tokens_comment plain .between words' nofun starts read
    | idle idle => exact absurd (fun _ none => nomatch none) starts
  induction all using joined.induct generalizing ts with
  | case1 => exact absurd (fun _ inside => absurd inside List.not_mem_nil) commented
  | case2 piece =>
    have single : ¬ (∀ found ∈ piece.2, ∀ raw ∈ found, ¬ startsComment raw) :=
      fun free => commented (List.forall_mem_singleton.mpr free)
    have read' : tokens .between [] (piece.1 ++ []) = some ts := by
      rw [List.append_nil]
      exact read
    exact starts (pieces piece List.mem_cons_self) single read'
  | case3 piece next rest ih =>
    obtain ⟨shape,later⟩ := List.forall_mem_cons.mp pieces
    rw [joined] at read
    by_cases free : ∀ found ∈ piece.2, ∀ raw ∈ found, ¬ startsComment raw
    · have behind : ¬ Uncommented (next :: rest) :=
        fun others => commented (List.forall_mem_cons.mpr ⟨free,others⟩)
      cases shape with
      | command plain words' filled =>
        rw [words_tokens plain words' (free _ rfl) (ends_semicolon _), tokens_semicolon,
          Option.map_map] at read
        obtain ⟨more,found,rfl⟩ := Option.map_eq_some_iff.mp read
        exact List.mem_append_right _ (List.mem_cons_of_mem _ (ih later behind found))
      | idle idle =>
        obtain ⟨front,more,after,rfl,_⟩ := tokens_idle (ends_semicolon _) idle (.inl rfl) read
        rw [tokens_semicolon] at after
        obtain ⟨more,found,rfl⟩ := Option.map_eq_some_iff.mp after
        exact List.mem_append_right _ (List.mem_cons_of_mem _ (ih later behind found))
    · exact starts shape free read

/-- Parts that are properly separated are read as their commands. -/
theorem separated_commands {all : Pieces} (pieces : ∀ piece ∈ all, Piece piece)
    (free : Uncommented all) (separated : Separated all) :
    ∃ ts, tokens .between [] (joined all) = some ts ∧ commands [] ts = some (parts all) ∧
      .comment ∉ ts := by
  induction all using joined.induct with
  | case1 => exact ⟨[],rfl,rfl,List.not_mem_nil⟩
  | case2 piece =>
    have shape := pieces piece List.mem_cons_self
    cases shape with
    | command plain words' filled =>
      rename_i text found
      have read := words_tokens plain words' (free _ List.mem_cons_self _ rfl) ends_nil
      rw [List.append_nil] at read
      refine ⟨found.map .word,?_,?_,by simp⟩
      · rw [joined, read]
        simp [tokens]
      · have done := commands_words [] found []
        rw [List.append_nil, List.nil_append, commands, if_neg filled] at done
        exact done
    | idle idle => exact tokens_tidy separated
  | case3 piece next rest ih =>
    obtain ⟨shape,later⟩ := List.forall_mem_cons.mp pieces
    obtain ⟨first,others⟩ := List.forall_mem_cons.mp free
    cases shape with
    | command plain words' filled =>
      rename_i text found
      obtain ⟨ts,read,done,none⟩ := ih later others separated
      refine ⟨found.map .word ++ .semicolon :: ts,?_,?_,by simp [none]⟩
      · rw [joined, words_tokens plain words' (first _ rfl) (ends_semicolon _), tokens_semicolon,
          read]
        rfl
      · rw [commands_words, List.nil_append, commands, if_neg filled, done]
        rfl
    | idle idle => exact separated.elim

/-- Otherwise the shell runs more commands. -/
theorem more_commands {all : Pieces} (pieces : ∀ piece ∈ all, Piece piece)
    (free : Uncommented all) {ts : List Token} {found : List (List Raw)}
    (read : tokens .between [] (joined all) = some ts) (parsed : commands [] ts = some found) :
    (parts all).length ≤ found.length ∧
      (¬ Separated all → (parts all).length < found.length) := by
  induction all using joined.induct generalizing ts found with
  | case1 => exact ⟨Nat.zero_le _,fun other => absurd trivial other⟩
  | case2 piece =>
    have shape := pieces piece List.mem_cons_self
    cases shape with
    | command plain words' filled =>
      obtain ⟨ts',read',parsed',_⟩ := separated_commands pieces free trivial
      rw [read] at read'
      obtain rfl := Option.some.inj read'
      rw [parsed] at parsed'
      obtain rfl := Option.some.inj parsed'
      exact ⟨Nat.le_refl _,fun other => absurd trivial other⟩
    | idle idle =>
      rename_i text
      refine ⟨Nat.zero_le _,fun untidy => ?_⟩
      rw [joined, ← List.append_nil text] at read
      obtain ⟨front,more,after,rfl,only,filled⟩ := tokens_idle ends_nil idle (.inl rfl) read
      obtain rfl := Option.some.inj after
      rw [List.append_nil] at parsed
      exact List.length_pos_of_ne_nil (commands_filled only (.inr (filled (.inr untidy))) parsed)
  | case3 piece next rest ih =>
    obtain ⟨shape,later⟩ := List.forall_mem_cons.mp pieces
    obtain ⟨first,others⟩ := List.forall_mem_cons.mp free
    rw [joined] at read
    cases shape with
    | command plain words' filled =>
      rw [words_tokens plain words' (first _ rfl) (ends_semicolon _), tokens_semicolon,
        Option.map_map] at read
      obtain ⟨ts,inner,rfl⟩ := Option.map_eq_some_iff.mp read
      rw [Function.comp_apply, commands_words, List.nil_append, commands, if_neg filled] at parsed
      obtain ⟨more,behind,rfl⟩ := Option.map_eq_some_iff.mp parsed
      obtain ⟨least,less⟩ := ih later others inner behind
      exact ⟨Nat.succ_le_succ least,fun other => Nat.succ_lt_succ (less other)⟩
    | idle idle =>
      obtain ⟨front,more,after,rfl,only,_⟩ := tokens_idle (ends_semicolon _) idle (.inl rfl) read
      rw [tokens_semicolon] at after
      obtain ⟨ts,inner,rfl⟩ := Option.map_eq_some_iff.mp after
      obtain ⟨more,behind,less⟩ := commands_semicolon only parsed
      have least := (ih later others inner behind).1
      have short := Nat.lt_of_le_of_lt least less
      exact ⟨Nat.le_of_lt short,fun _ => short⟩

theorem simple_words {raws : List Raw} {argv : List (List ℕ)} (done : simple raws = some argv) :
    argv = raws.map unquote := by
  cases raws with
  | nil => cases done
  | cons first raws =>
    rw [simple] at done
    split_ifs at done
    exact (Option.some.inj done).symm

theorem mapM_simple {all : List (List Raw)} {argvs : List (List (List ℕ))} :
    all.mapM simple = some argvs ↔
      argvs = all.map (fun raws => raws.map unquote) ∧ ∀ raws ∈ all, (simple raws).isSome = true := by
  induction all generalizing argvs with
  | nil =>
    rw [List.mapM_nil, List.map_nil]
    constructor
    · intro done
      exact ⟨(Option.some.inj done).symm,fun _ inside => absurd inside List.not_mem_nil⟩
    · rintro ⟨rfl,_⟩
      rfl
  | cons raws all ih =>
    rw [List.mapM_cons, List.map_cons, List.forall_mem_cons]
    constructor
    · intro done
      obtain ⟨argv,first,done⟩ := Option.bind_eq_some_iff.mp done
      obtain ⟨others,rest,done⟩ := Option.bind_eq_some_iff.mp done
      obtain rfl := Option.some.inj done
      obtain ⟨rfl,each⟩ := ih.mp rest
      rw [simple_words first]
      exact ⟨rfl,by rw [first]; rfl,each⟩
    · rintro ⟨rfl,first,each⟩
      obtain ⟨argv,done⟩ := Option.isSome_iff_exists.mp first
      rw [done, ih.mpr ⟨rfl,each⟩, ← simple_words done]
      rfl

/-- The shell runs the commands of properly separated parts. -/
theorem run_separated {all : Pieces} (pieces : ∀ piece ∈ all, Piece piece) (free : Uncommented all)
    (separated : Separated all) :
    run (joined all) = (parts all).mapM simple ∧ ¬ Commented (joined all) := by
  obtain ⟨ts,read,parsed,none⟩ := separated_commands pieces free separated
  constructor
  · show ((tokens .between [] (joined all)).bind fun ts =>
      (commands [] ts).bind fun found => found.mapM simple) = _
    rw [read, Option.bind_some, parsed, Option.bind_some]
  · rintro ⟨ts',read',comment⟩
    rw [read] at read'
    obtain rfl := Option.some.inj read'
    exact none comment

theorem run_some {text : List ℕ} {argvs : List (List (List ℕ))} (done : run text = some argvs) :
    ∃ ts found, tokens .between [] text = some ts ∧ commands [] ts = some found ∧
      found.mapM simple = some argvs := by
  obtain ⟨ts,read,done⟩ := Option.bind_eq_some_iff.mp done
  obtain ⟨found,parsed,done⟩ := Option.bind_eq_some_iff.mp done
  exact ⟨ts,found,read,parsed,done⟩

/-- The shell runs one program for each part, and reads no comment, exactly when the parts are
properly separated, without comments, and simple commands. -/
theorem run_iff {all : Pieces} (pieces : ∀ piece ∈ all, Piece piece) :
    (run (joined all) = some ((parts all).map (fun raws => raws.map unquote)) ∧
      ¬ Commented (joined all)) ↔
      Uncommented all ∧ Separated all ∧ ∀ raws ∈ parts all, (simple raws).isSome = true := by
  constructor
  · rintro ⟨done,uncommented⟩
    obtain ⟨ts,found,read,parsed,each⟩ := run_some done
    have free : Uncommented all := by
      by_contra commented
      exact uncommented ⟨ts,read,commented_tokens pieces commented read⟩
    have separated : Separated all := by
      by_contra other
      have more := (more_commands pieces free read parsed).2 other
      have same := congrArg List.length (mapM_simple.mp each).1
      rw [List.length_map, List.length_map] at same
      omega
    rw [(run_separated pieces free separated).1] at done
    exact ⟨free,separated,(mapM_simple.mp done).2⟩
  · rintro ⟨free,separated,each⟩
    obtain ⟨done,none⟩ := run_separated pieces free separated
    exact ⟨done.trans (mapM_simple.mpr ⟨rfl,each⟩),none⟩

end Segments

end ShellCommand
