import EvidenceV4.JsonText
import Mathlib.Data.List.TakeWhile

/-!
# Beginnings of JSON texts

What a reader consumes is never a backtick at the start of a line, and what
stands behind a finished array does not change how the array is read. An
accepted array text is therefore no proper beginning of another one.
-/

set_option autoImplicit false

namespace JsonText

open CheckedExcept

def backtick : Char := '\x60'

/-- No backtick at the front and none at the start of a line. -/
def Sheltered (s : List Char) : Prop := s.head? ≠ some backtick ∧ ¬ ['\n',backtick] <:+: s

section Shelter

variable {s t : List Char}

theorem sheltered_nil : Sheltered [] := by
  constructor
  · simp
  · simp

theorem sheltered_of_no_backtick (free : backtick ∉ s) : Sheltered s := by
  constructor
  · exact fun start => free (List.mem_of_mem_head? start)
  · exact fun within => free (within.subset (by simp))

theorem sheltered_of_no_newline {c : Char} (front : c ≠ backtick) (line : c ≠ '\n')
    (free : '\n' ∉ s) : Sheltered (c :: s) := by
  constructor
  · simpa using front
  · intro within
    rcases List.mem_cons.mp (within.subset (List.mem_cons_self)) with same | later
    · exact line same.symm
    · exact free later

theorem sheltered_append (first : Sheltered s) (second : Sheltered t) : Sheltered (s ++ t) := by
  constructor
  · cases s with
    | nil => exact second.1
    | cons c s => exact first.1
  · rintro ⟨before,after,same⟩
    rw [List.append_assoc] at same
    rcases List.append_eq_append_iff.mp same with ⟨gap,rfl,tail⟩ | ⟨gap,rfl,tail⟩
    · match gap, tail with
      | [], tail => exact second.2 ⟨[],after,tail⟩
      | [_], tail =>
        obtain ⟨_,tail⟩ := List.cons.inj tail
        exact second.1 (by rw [← show _ = t from tail]; rfl)
      | _ :: _ :: gap, tail =>
        obtain ⟨line,tail⟩ := List.cons.inj tail
        obtain ⟨rfl,_⟩ := List.cons.inj tail
        exact first.2 ⟨before,gap,by rw [← line]; simp⟩
    · exact second.2 ⟨gap,after,by rw [List.append_assoc]; exact tail.symm⟩

end Shelter

/-- The reader went from one text to the other over sheltered characters. -/
def Reads (s rest : List Char) : Prop := ∃ taken, s = taken ++ rest ∧ Sheltered taken

section Consumption

variable {s t u rest : List Char}

theorem reads_refl (s : List Char) : Reads s s := ⟨[],rfl,sheltered_nil⟩

theorem Reads.trans (first : Reads s t) (second : Reads t u) : Reads s u := by
  obtain ⟨a,rfl,shelteredA⟩ := first
  obtain ⟨b,rfl,shelteredB⟩ := second
  exact ⟨a ++ b,(List.append_assoc a b u).symm,sheltered_append shelteredA shelteredB⟩

theorem reads_of_no_backtick {taken : List Char} (split : s = taken ++ rest)
    (free : backtick ∉ taken) : Reads s rest :=
  ⟨taken,split,sheltered_of_no_backtick free⟩

theorem reads_cons {c : Char} (plain : c ≠ backtick) (s : List Char) : Reads (c :: s) s :=
  @reads_of_no_backtick _ _ [c] rfl (by simpa using plain.symm)

theorem reads_takeWhile {p : Char → Bool} (s : List Char) (never : p backtick = false) :
    Reads s (s.dropWhile p) := by
  apply reads_of_no_backtick List.takeWhile_append_dropWhile.symm
  intro member
  rw [List.mem_takeWhile_imp member] at never
  exact Bool.noConfusion never

theorem reads_skip (s : List Char) : Reads s (skipWhitespace s) := reads_takeWhile s rfl

theorem reads_skip_cons {c : Char} (plain : c ≠ backtick) (next : skipWhitespace s = c :: rest) :
    Reads s rest := by
  have skipped := reads_skip s
  rw [next] at skipped
  exact skipped.trans (reads_cons plain rest)

theorem hexValue_newline : hexValue '\n' = none := by decide

theorem hexUnit_newline {a b c d : Char} {unit : Fin 65536} (read : hexUnit a b c d = some unit) :
    '\n' ∉ [a,b,c,d] := by
  simp only [hexUnit, Option.bind_eq_bind, Option.bind_eq_some_iff] at read
  obtain ⟨_,ha,_,hb,_,hc,_,hd,_⟩ := read
  have digit : ∀ {x : Char} {v : ℕ}, hexValue x = some v → '\n' ≠ x := by
    rintro x v found rfl
    simp [hexValue_newline] at found
  simp [digit ha, digit hb, digit hc, digit hd]

theorem shortEscape_newline {e c : Char} (read : shortEscape e = some c) : '\n' ≠ e := by
  rintro rfl
  have unknown : shortEscape '\n' = none := rfl
  simp [unknown] at read

/-- A string literal runs over no line end. -/
theorem readString_line {lexemes : List Lexeme} (read : readString s = some (lexemes,rest)) :
    ∃ taken, s = taken ++ rest ∧ '\n' ∉ taken := by
  induction s using readString.induct generalizing lexemes rest with
  | case1 => simp [readString] at read
  | case2 s =>
    rw [readString_quote, Option.some.injEq, Prod.mk.injEq] at read
    exact ⟨['"'],by simp [read.2],by decide⟩
  | case3 => simp [readString] at read
  | case4 a b c d s _ ih =>
    rw [readString_unicode] at read
    obtain ⟨unit,hex,read⟩ := Option.bind_eq_some_iff.mp read
    obtain ⟨r,found,e⟩ := Option.map_eq_some_iff.mp read
    obtain rfl : r.2 = rest := congrArg Prod.snd e
    obtain ⟨taken,split,free⟩ := ih found
    have digits := hexUnit_newline hex
    exact ⟨'\\' :: 'u' :: a :: b :: c :: d :: taken,by simp [split],by simpa [free] using digits⟩
  | case5 s none =>
    rw [readString] at read
    · simp at read
    · simpa using none
  | case6 e s notUnicode _ ih =>
    rw [readString_short s notUnicode] at read
    obtain ⟨c,escape,read⟩ := Option.bind_eq_some_iff.mp read
    obtain ⟨r,found,same⟩ := Option.map_eq_some_iff.mp read
    obtain rfl : r.2 = rest := congrArg Prod.snd same
    obtain ⟨taken,split,free⟩ := ih found
    have plain := shortEscape_newline escape
    exact ⟨'\\' :: e :: taken,by simp [split],by simp [free, plain]⟩
  | case7 c s quote escape control => simp [readString.eq_def, quote, escape, control] at read
  | case8 c s quote escape control ih =>
    rw [readString_plain s quote escape (not_lt.mp control)] at read
    obtain ⟨r,found,e⟩ := Option.map_eq_some_iff.mp read
    obtain rfl : r.2 = rest := congrArg Prod.snd e
    obtain ⟨taken,split,free⟩ := ih found
    have plain : '\n' ≠ c := by
      rintro rfl
      exact control (by decide)
    exact ⟨c :: taken,by simp [split],by simp [free, plain]⟩

theorem reads_string {lexemes : List Lexeme} (read : readString s = some (lexemes,rest)) :
    Reads ('"' :: s) rest := by
  obtain ⟨taken,rfl,free⟩ := readString_line read
  exact ⟨'"' :: taken,rfl,sheltered_of_no_newline (by decide) (by decide) free⟩

theorem reads_digits {token : List Char} (read : readDigits s = some (token,rest)) :
    Reads s rest := by
  unfold readDigits at read
  split at read
  · simp at read
  · next c s =>
    split_ifs at read with zero digit
    · obtain ⟨_,rfl⟩ := Prod.mk.inj (Option.some.inj read)
      exact reads_cons (by rw [zero]; decide) s
    · obtain ⟨_,rfl⟩ := Prod.mk.inj (Option.some.inj read)
      have plain : c ≠ backtick := by
        rintro rfl
        exact absurd digit (by decide)
      exact (reads_cons plain s).trans (reads_takeWhile s (by decide))

theorem reads_integer {token : List Char} (read : readInteger s = some (token,rest)) :
    Reads s rest := by
  unfold readInteger at read
  split at read
  · simp at read
  · next c s =>
    split_ifs at read with minus
    · obtain ⟨r,found,e⟩ := Option.map_eq_some_iff.mp read
      obtain rfl : r.2 = rest := congrArg Prod.snd e
      exact (reads_cons (by rw [minus]; decide) s).trans (reads_digits found)
    · exact reads_digits read

theorem reads_fraction (s : List Char) : Reads s (readFraction s).2 := by
  unfold readFraction
  split
  · next d s =>
    split_ifs with digit
    · have plain : d ≠ backtick := by
        rintro rfl
        exact absurd digit (by decide)
      exact (reads_cons (by decide) _).trans
        ((reads_cons plain s).trans (reads_takeWhile s (by decide)))
    · exact reads_refl _
  · exact reads_refl _

theorem reads_sign (s : List Char) :
    Reads s (s.drop (List.take 1 (s.takeWhile (fun c => c == '+' || c == '-'))).length) := by
  apply reads_of_no_backtick (List.take_append_drop _ s).symm
  have start := (List.take_prefix 1 (s.takeWhile (fun c => c == '+' || c == '-'))).trans
    (List.takeWhile_prefix _)
  rw [← List.prefix_iff_eq_take.mp start]
  intro member
  have sign := List.mem_takeWhile_imp (List.mem_of_mem_take member)
  exact absurd sign (by decide)

theorem reads_exponent (s : List Char) : Reads s (readExponent s).2 := by
  unfold readExponent
  split
  · exact reads_refl _
  · next e s =>
    dsimp only
    split_ifs with mark digits
    · have plain : e ≠ backtick := by
        rintro rfl
        exact absurd mark (by decide)
      apply (reads_cons plain s).trans
      apply Reads.trans _ (reads_takeWhile _ (by decide))
      exact reads_sign s
    · exact reads_refl _
    · exact reads_refl _

variable {ε σ : Type} (h : Hooks ε σ)

theorem reads_number {value : Json σ} (read : readNumber h s = .ok (value,rest)) :
    Reads s rest := by
  unfold readNumber at read
  split at read
  · simp at read
  · next token later found =>
    have tail := (reads_fraction later).trans (reads_exponent (readFraction later).2)
    dsimp only at read
    split_ifs at read
    all_goals
      simp only [bind_ok, pure_ok, Prod.mk.injEq] at read
      obtain ⟨_,_,_,rfl⟩ := read
      exact (reads_integer found).trans tail

theorem reads_word {word : List Char} (starts : word.isPrefixOf s) (free : backtick ∉ word) :
    Reads s (s.drop word.length) := by
  apply reads_of_no_backtick (List.take_append_drop word.length s).symm
  rw [← List.prefix_iff_eq_take.mp (List.isPrefixOf_iff_prefix.mp starts)]
  exact free

theorem literal_free {w : List Char × Json σ} (member : w ∈ literals) : backtick ∉ w.1 := by
  simp only [literals, List.mem_cons, List.not_mem_nil, or_false] at member
  rcases member with rfl | rfl | rfl <;> simp [backtick]

theorem constant_free {w : List Char} (member : w ∈ constants) : backtick ∉ w := by
  simp only [constants, List.mem_cons, List.not_mem_nil, or_false] at member
  rcases member with rfl | rfl | rfl <;> simp [backtick]

theorem reads_atom {value : Json σ} (read : readAtom h s = .ok (value,rest)) : Reads s rest := by
  unfold readAtom at read
  split at read
  · next word value' found =>
    have starts : word.isPrefixOf s := by simpa using List.find?_some found
    obtain ⟨_,rfl⟩ := Prod.mk.inj ((pure_ok _ _).mp read)
    exact reads_word starts (literal_free (List.mem_of_find?_eq_some found))
  · split at read
    · exact reads_number h read
    · split at read
      · next word found =>
        have starts : word.isPrefixOf s := by simpa using List.find?_some found
        simp only [bind_ok, pure_ok, Prod.mk.injEq] at read
        obtain ⟨_,_,_,rfl⟩ := read
        exact reads_word starts (constant_free (List.mem_of_find?_eq_some found))
      · simp at read

/-- Every reader goes over sheltered characters. -/
theorem reads_all (n : ℕ) :
    (∀ s value rest, readValue h n s = .ok (value,rest) → Reads s rest) ∧
    (∀ seen s value rest, readMembers h n seen s = .ok (value,rest) → Reads s rest) ∧
    (∀ seen s value rest, readElements h n seen s = .ok (value,rest) → Reads s rest) := by
  induction n with
  | zero => simp [readValue, readMembers, readElements]
  | succ n ih =>
    obtain ⟨values,members,elements⟩ := ih
    refine ⟨?_,?_,?_⟩
    · intro s value rest read
      unfold readValue at read
      split at read
      · split at read
        · next found =>
          obtain ⟨_,rfl⟩ := Prod.mk.inj ((pure_ok _ _).mp read)
          exact reads_string found
        · simp at read
      · next tail =>
        apply (reads_cons (by decide) tail).trans
        split at read
        · next found =>
          simp only [bind_ok, pure_ok, Prod.mk.injEq] at read
          obtain ⟨_,_,_,rfl⟩ := read
          exact reads_skip_cons (by decide) found
        · exact (reads_skip tail).trans (members _ _ _ _ read)
      · next tail =>
        apply (reads_cons (by decide) tail).trans
        split at read
        · next found =>
          obtain ⟨_,rfl⟩ := Prod.mk.inj ((pure_ok _ _).mp read)
          exact reads_skip_cons (by decide) found
        · exact (reads_skip tail).trans (elements _ _ _ _ read)
      · exact reads_atom h read
    · intro seen s value rest read
      unfold readMembers at read
      split at read
      · split at read
        · next found =>
          split at read
          · next afterKey colon =>
            simp only [bind_ok, Prod.exists] at read
            obtain ⟨v,later,first,read⟩ := read
            apply (reads_string found).trans
            apply (reads_skip_cons (by decide) colon).trans
            apply (reads_skip afterKey).trans
            apply (values _ _ _ first).trans
            split at read
            · next closing =>
              simp only [bind_ok, pure_ok, Prod.mk.injEq] at read
              obtain ⟨_,_,_,rfl⟩ := read
              exact reads_skip_cons (by decide) closing
            · next next comma =>
              apply (reads_skip_cons (by decide) comma).trans
              exact (reads_skip next).trans (members _ _ _ _ read)
            · simp at read
          · simp at read
        · simp at read
      · simp at read
    · intro seen s value rest read
      unfold readElements at read
      simp only [bind_ok, Prod.exists] at read
      obtain ⟨v,later,first,read⟩ := read
      apply (values _ _ _ first).trans
      split at read
      · next closing =>
        obtain ⟨_,rfl⟩ := Prod.mk.inj ((pure_ok _ _).mp read)
        exact reads_skip_cons (by decide) closing
      · next next comma =>
        apply (reads_skip_cons (by decide) comma).trans
        exact (reads_skip next).trans (elements _ _ _ _ read)
      · simp at read

/-- An accepted text has no backtick at its front or at the start of a line. -/
theorem readText_sheltered {value : Json σ} (read : readText h s = .ok value) : Sheltered s := by
  unfold readText at read
  simp only [bind_ok, Prod.exists] at read
  obtain ⟨v,later,first,read⟩ := read
  have whole := (reads_skip s).trans ((reads_all h _).1 _ _ _ first)
  split at read
  · next closing =>
    have behind := reads_skip later
    rw [closing] at behind
    obtain ⟨taken,rfl,sheltered⟩ := whole.trans behind
    rwa [List.append_nil]
  · simp at read

end Consumption

section Stability

/-- The next character belongs to no number. -/
def Settled (rest : List Char) : Prop :=
  ∃ c later, rest = c :: later ∧ c ≠ '.' ∧ c ≠ 'e' ∧ c ≠ 'E' ∧ isDigit c = false

variable {s rest : List Char} (x : List Char)

theorem dropWhile_stable {p : Char → Bool} (left : s.dropWhile p ≠ []) :
    (s ++ x).dropWhile p = s.dropWhile p ++ x := by
  rw [List.dropWhile_append, if_neg (by simpa using left)]

theorem takeWhile_stable {p : Char → Bool} (left : s.dropWhile p ≠ []) :
    (s ++ x).takeWhile p = s.takeWhile p := by
  rw [List.takeWhile_append, if_neg]
  intro same
  apply left
  have split := congrArg List.length (List.takeWhile_append_dropWhile (p := p) (l := s))
  rw [List.length_append] at split
  exact List.eq_nil_of_length_eq_zero (by omega)

theorem skip_append (left : skipWhitespace s ≠ []) :
    skipWhitespace (s ++ x) = skipWhitespace s ++ x :=
  dropWhile_stable x left

theorem skip_stable {c : Char} (next : skipWhitespace s = c :: rest) :
    skipWhitespace (s ++ x) = c :: (rest ++ x) := by
  rw [skip_append x (by rw [next]; exact List.cons_ne_nil c rest), next]
  rfl

/-- Behind a value stands white space or the mark of the collection. -/
theorem settled_of_skip {c : Char} (next : skipWhitespace s = c :: rest)
    (mark : c = '\x7d' ∨ c = ']' ∨ c = ',') : Settled s := by
  cases s with
  | nil => simp [skipWhitespace] at next
  | cons d s =>
    by_cases space : isWhitespace d = true
    · refine ⟨d,s,rfl,?_⟩
      simp only [isWhitespace, Bool.or_eq_true, beq_iff_eq] at space
      rcases space with ((rfl | rfl) | rfl) | rfl <;> decide
    · rw [skipWhitespace, List.dropWhile_cons_of_neg space] at next
      obtain ⟨rfl,rfl⟩ := List.cons.inj next
      refine ⟨d,s,rfl,?_⟩
      rcases mark with rfl | rfl | rfl <;> decide

theorem readString_stable {lexemes : List Lexeme} (read : readString s = some (lexemes,rest)) :
    readString (s ++ x) = some (lexemes,rest ++ x) := by
  induction s using readString.induct generalizing lexemes rest with
  | case1 => simp [readString] at read
  | case2 s =>
    rw [readString_quote, Option.some.injEq, Prod.mk.injEq] at read
    rw [List.cons_append, readString_quote, read.1, read.2]
  | case3 => simp [readString] at read
  | case4 a b c d s _ ih =>
    rw [readString_unicode] at read
    obtain ⟨unit,hex,read⟩ := Option.bind_eq_some_iff.mp read
    obtain ⟨r,found,e⟩ := Option.map_eq_some_iff.mp read
    obtain ⟨rfl,rfl⟩ := Prod.mk.inj e
    simp only [List.cons_append]
    rw [readString_unicode, hex, Option.bind_some, ih found]
    rfl
  | case5 s none =>
    rw [readString] at read
    · simp at read
    · simpa using none
  | case6 e s notUnicode _ ih =>
    rw [readString_short s notUnicode] at read
    obtain ⟨c,escape,read⟩ := Option.bind_eq_some_iff.mp read
    obtain ⟨r,found,same⟩ := Option.map_eq_some_iff.mp read
    obtain ⟨rfl,rfl⟩ := Prod.mk.inj same
    simp only [List.cons_append]
    rw [readString_short _ notUnicode, escape, Option.bind_some, ih found]
    rfl
  | case7 c s quote escape control => simp [readString.eq_def, quote, escape, control] at read
  | case8 c s quote escape control ih =>
    rw [readString_plain s quote escape (not_lt.mp control)] at read
    obtain ⟨r,found,e⟩ := Option.map_eq_some_iff.mp read
    obtain ⟨rfl,rfl⟩ := Prod.mk.inj e
    rw [List.cons_append, readString_plain _ quote escape (not_lt.mp control), ih found]
    rfl

theorem readDigits_stable {token : List Char} (read : readDigits s = some (token,rest))
    (left : rest ≠ []) : readDigits (s ++ x) = some (token,rest ++ x) := by
  unfold readDigits at read ⊢
  cases s with
  | nil => simp at read
  | cons c s =>
    dsimp only [List.cons_append] at read ⊢
    split_ifs at read ⊢ with zero digit
    · obtain ⟨rfl,rfl⟩ := Prod.mk.inj (Option.some.inj read)
      rfl
    · obtain ⟨rfl,rfl⟩ := Prod.mk.inj (Option.some.inj read)
      rw [takeWhile_stable x left, dropWhile_stable x left]

theorem readInteger_stable {token : List Char} (read : readInteger s = some (token,rest))
    (left : rest ≠ []) : readInteger (s ++ x) = some (token,rest ++ x) := by
  unfold readInteger at read ⊢
  cases s with
  | nil => simp at read
  | cons c s =>
    dsimp only [List.cons_append] at read ⊢
    split_ifs at read ⊢ with minus
    · obtain ⟨r,found,e⟩ := Option.map_eq_some_iff.mp read
      obtain ⟨rfl,rfl⟩ := Prod.mk.inj e
      rw [readDigits_stable x found left]
      rfl
    · exact readDigits_stable x read left

theorem take_takeWhile_stable {p : Char → Bool} (left : s ≠ []) :
    ((s ++ x).takeWhile p).take 1 = (s.takeWhile p).take 1 := by
  cases s with
  | nil => exact absurd rfl left
  | cons c s =>
    by_cases first : p c = true
    · simp [first]
    · simp [first]

theorem length_take_takeWhile (p : Char → Bool) (n : ℕ) :
    ((s.takeWhile p).take n).length ≤ s.length :=
  ((List.take_prefix n _).trans (List.takeWhile_prefix p)).length_le

theorem readExponent_stable (settled : Settled (readExponent s).2) :
    readExponent (s ++ x) = ((readExponent s).1,(readExponent s).2 ++ x) := by
  obtain ⟨c,later,tail,_,small,large,_⟩ := settled
  unfold readExponent at tail ⊢
  cases s with
  | nil => simp at tail
  | cons e s =>
    dsimp only [List.cons_append] at tail ⊢
    by_cases mark : e = 'e' ∨ e = 'E'
    · rw [if_pos mark] at tail ⊢
      rw [if_pos mark]
      split_ifs at tail with digits
      · have filled : s ≠ [] := by
          rintro rfl
          simp at digits
        have short := length_take_takeWhile (s := s) (fun c => c == '+' || c == '-') 1
        rw [take_takeWhile_stable x filled, List.drop_append_of_le_length short]
        generalize List.take 1 (s.takeWhile (fun c => c == '+' || c == '-')) = sign at *
        have front : s.drop sign.length ≠ [] := by
          intro none
          rw [none] at digits
          exact Bool.noConfusion digits
        have more : (s.drop sign.length).dropWhile isDigit ≠ [] := by
          dsimp only at tail
          rw [tail]
          exact List.cons_ne_nil c later
        rw [List.head?_append_of_ne_nil _ front, if_pos digits, if_pos digits,
          takeWhile_stable x more, dropWhile_stable x more]
      · obtain ⟨rfl,_⟩ := List.cons.inj tail
        exact absurd mark (by simp [small, large])
    · rw [if_neg mark, if_neg mark]
      rfl

theorem settled_cons {c : Char} {later : List Char} (settled : Settled (c :: later)) :
    c ≠ '.' ∧ c ≠ 'e' ∧ c ≠ 'E' ∧ isDigit c = false := by
  obtain ⟨d,after,same,facts⟩ := settled
  obtain ⟨rfl,_⟩ := List.cons.inj same
  exact facts

theorem not_settled_nil : ¬ Settled [] := by
  rintro ⟨c,later,none,_⟩
  exact List.cons_ne_nil c later none.symm

theorem readFraction_other {c : Char} (plain : c ≠ '.') (s : List Char) :
    readFraction (c :: s) = ([],c :: s) := by
  unfold readFraction
  split
  · next same => exact absurd (List.cons.inj same).1 plain
  · rfl

theorem readFraction_point (d : Char) (s : List Char) : readFraction ('.' :: d :: s) =
    if isDigit d then ('.' :: d :: s.takeWhile isDigit,s.dropWhile isDigit)
    else ([],'.' :: d :: s) := rfl

theorem readExponent_filled (settled : Settled (readExponent s).2) : s ≠ [] := by
  rintro rfl
  exact not_settled_nil settled

theorem readFraction_stable (settled : Settled (readExponent (readFraction s).2).2) :
    readFraction (s ++ x) = ((readFraction s).1,(readFraction s).2 ++ x) := by
  have filled := readExponent_filled settled
  match s with
  | [] => exact absurd rfl filled
  | c :: s =>
    by_cases point : c = '.'
    · subst point
      match s with
      | [] => exact absurd rfl (settled_cons settled).1
      | d :: s =>
        simp only [List.cons_append]
        rw [readFraction_point] at filled ⊢
        rw [readFraction_point]
        split_ifs at filled ⊢ with digit
        · rw [takeWhile_stable x filled, dropWhile_stable x filled]
        · rfl
    · rw [List.cons_append, readFraction_other point, readFraction_other point]
      rfl

variable {ε σ : Type} (h : Hooks ε σ)

theorem readNumber_stable {value : Json σ} (read : readNumber h s = .ok (value,rest))
    (settled : Settled rest) : readNumber h (s ++ x) = .ok (value,rest ++ x) := by
  unfold readNumber at read ⊢
  split at read
  · simp at read
  · next token later found =>
    have behind : (readExponent (readFraction later).2).2 = rest := by
      dsimp only at read
      split_ifs at read
      all_goals
        simp only [bind_ok, pure_ok, Prod.mk.injEq] at read
        obtain ⟨_,_,_,same⟩ := read
        exact same
    rw [← behind] at settled
    have filled : later ≠ [] := by
      rintro rfl
      exact not_settled_nil settled
    rw [readInteger_stable x found filled]
    dsimp only at read ⊢
    rw [readFraction_stable x settled]
    dsimp only
    rw [readExponent_stable x settled]
    dsimp only
    split_ifs at read ⊢
    all_goals
      simp only [bind_ok, pure_ok, Prod.mk.injEq] at read ⊢
      obtain ⟨n,accepted,rfl,rfl⟩ := read
      exact ⟨n,accepted,rfl,rfl⟩

theorem find_literal_none {c : Char} (s : List Char)
    (other : c ≠ 'n' ∧ c ≠ 't' ∧ c ≠ 'f') :
    (literals (σ := σ)).find? (fun w => w.1.isPrefixOf (c :: s)) = none := by
  obtain ⟨n,t,f⟩ := other
  simp [literals, n.symm, t.symm, f.symm]

theorem readInteger_head {token : List Char} (read : readInteger s = some (token,rest)) :
    ∃ c later, s = c :: later ∧ c ≠ 'n' ∧ c ≠ 't' ∧ c ≠ 'f' := by
  cases s with
  | nil => simp [readInteger] at read
  | cons c s =>
    refine ⟨c,s,rfl,?_⟩
    refine ⟨?_,?_,?_⟩
    all_goals
      rintro rfl
      revert read
      simp [readInteger, readDigits, isDigit]

theorem readAtom_literal {w : List Char × Json σ} (member : w ∈ literals) (s : List Char) :
    readAtom h (w.1 ++ s) = .ok (w.2,s) := by
  simp only [literals, List.mem_cons, List.not_mem_nil, or_false] at member
  rcases member with rfl | rfl | rfl
  all_goals rfl

theorem readAtom_constant {w : List Char} (member : w ∈ constants) (s : List Char) :
    readAtom h (w ++ s) = (h.constant w).map (fun value => (value,s)) := by
  simp only [constants, List.mem_cons, List.not_mem_nil, or_false] at member
  rcases member with rfl | rfl | rfl
  all_goals
    show (h.constant _ >>= fun value => pure (value,s)) = _
    cases h.constant _ with
    | error e => rfl
    | ok value => rfl

theorem readAtom_stable {value : Json σ} (read : readAtom h s = .ok (value,rest))
    (settled : Settled rest) : readAtom h (s ++ x) = .ok (value,rest ++ x) := by
  unfold readAtom at read
  split at read
  · next word value' found =>
    have starts : word.isPrefixOf s := by simpa using List.find?_some found
    obtain ⟨later,rfl⟩ := List.isPrefixOf_iff_prefix.mp starts
    obtain ⟨rfl,rfl⟩ := Prod.mk.inj ((pure_ok _ _).mp read)
    rw [List.append_assoc, readAtom_literal h (List.mem_of_find?_eq_some found),
      List.drop_left]
  · split at read
    · next token found =>
      obtain ⟨c,later,rfl,other⟩ := readInteger_head found
      have number := readNumber_stable x h read settled
      have integer : ∃ r, readInteger (c :: later ++ x) = some r := by
        unfold readNumber at number
        split at number
        · simp at number
        · next _ _ again => exact ⟨_,again⟩
      obtain ⟨r,integer⟩ := integer
      rw [readAtom, List.cons_append, find_literal_none _ other]
      rw [List.cons_append] at integer number
      simp only [integer, number]
    · split at read
      · next word found =>
        have starts : word.isPrefixOf s := by simpa using List.find?_some found
        obtain ⟨later,rfl⟩ := List.isPrefixOf_iff_prefix.mp starts
        simp only [bind_ok, pure_ok, Prod.mk.injEq] at read
        obtain ⟨v,accepted,rfl,rfl⟩ := read
        rw [List.append_assoc, readAtom_constant h (List.mem_of_find?_eq_some found), accepted,
          List.drop_left]
        rfl
      · simp at read

theorem filled_of_shorter (shorter : rest.length < s.length) : s ≠ [] := by
  rintro rfl
  simp at shorter

theorem not_cons_append {c : Char} (filled : s ≠ []) (other : ∀ later, s ≠ c :: later) :
    ∀ later, s ++ x ≠ c :: later := by
  intro later same
  match s with
  | [] => exact filled rfl
  | d :: s =>
    obtain ⟨rfl,_⟩ := List.cons.inj same
    exact other s rfl

/-- What stands behind a finished value or collection does not change how it is read. -/
theorem read_stable (n : ℕ) :
    (∀ s value rest, readValue h n s = .ok (value,rest) →
      (Settled rest ∨ ∃ tail, s = '[' :: tail) →
      readValue h n (s ++ x) = .ok (value,rest ++ x)) ∧
    (∀ seen s value rest, readMembers h n seen s = .ok (value,rest) →
      readMembers h n seen (s ++ x) = .ok (value,rest ++ x)) ∧
    (∀ seen s value rest, readElements h n seen s = .ok (value,rest) →
      readElements h n seen (s ++ x) = .ok (value,rest ++ x)) := by
  induction n with
  | zero => simp [readValue, readMembers, readElements]
  | succ n ih =>
    obtain ⟨values,members,elements⟩ := ih
    refine ⟨?_,?_,?_⟩
    · intro s value rest read settled
      unfold readValue at read
      split at read
      · split at read
        · next found =>
          obtain ⟨rfl,rfl⟩ := Prod.mk.inj ((pure_ok _ _).mp read)
          exact readValue_string h n (readString_stable x found)
        · simp at read
      · next tail =>
        split at read
        · next found =>
          rw [List.cons_append, readValue_object_close h n (skip_stable x found)]
          simp only [bind_ok, pure_ok, Prod.mk.injEq] at read ⊢
          obtain ⟨fields,accepted,rfl,rfl⟩ := read
          exact ⟨fields,accepted,rfl,rfl⟩
        · next more =>
          have filled := filled_of_shorter ((read_length h n).2.1 _ _ _ _ read)
          have skipped := skip_append x filled
          have other := not_cons_append x filled more
          rw [List.cons_append, readValue_object h n (by rw [skipped]; exact other), skipped]
          exact members _ _ _ _ read
      · next tail =>
        split at read
        · next found =>
          obtain ⟨rfl,rfl⟩ := Prod.mk.inj ((pure_ok _ _).mp read)
          rw [List.cons_append, readValue_array_close h n (skip_stable x found)]
        · next more =>
          have filled := filled_of_shorter ((read_length h n).2.2 _ _ _ _ read)
          have skipped := skip_append x filled
          have other := not_cons_append x filled more
          rw [List.cons_append, readValue_array h n (by rw [skipped]; exact other), skipped]
          exact elements _ _ _ _ read
      · next quote brace bracket =>
        have filled := filled_of_shorter (readAtom_length h read)
        rw [readValue_atom h n (not_cons_append x filled quote) (not_cons_append x filled brace)
          (not_cons_append x filled bracket)]
        rcases settled with settled | ⟨tail,same⟩
        · exact readAtom_stable x h read settled
        · exact absurd same (bracket tail)
    · intro seen s value rest read
      unfold readMembers at read
      split at read
      · split at read
        · next found =>
          split at read
          · next colon =>
            simp only [bind_ok, Prod.exists] at read
            obtain ⟨v,later,first,read⟩ := read
            have key := readString_stable x found
            have mark := skip_stable x colon
            have behind := filled_of_shorter ((read_length h n).1 _ _ _ first)
            split at read
            · next closing =>
              have entry := values _ _ _ first (Or.inl (settled_of_skip closing (by simp)))
              rw [← skip_append x behind] at entry
              rw [List.cons_append, readMembers_close h seen key mark entry (skip_stable x closing)]
              simp only [bind_ok, pure_ok, Prod.mk.injEq] at read ⊢
              obtain ⟨fields,accepted,rfl,rfl⟩ := read
              exact ⟨fields,accepted,rfl,rfl⟩
            · next next comma =>
              have entry := values _ _ _ first (Or.inl (settled_of_skip comma (by simp)))
              rw [← skip_append x behind] at entry
              have filled := filled_of_shorter ((read_length h n).2.1 _ _ _ _ read)
              rw [List.cons_append, readMembers_comma h seen key mark entry (skip_stable x comma),
                skip_append x filled]
              exact members _ _ _ _ read
            · simp at read
          · simp at read
        · simp at read
      · simp at read
    · intro seen s value rest read
      unfold readElements at read
      simp only [bind_ok, Prod.exists] at read
      obtain ⟨v,later,first,read⟩ := read
      split at read
      · next closing =>
        obtain ⟨rfl,rfl⟩ := Prod.mk.inj ((pure_ok _ _).mp read)
        have entry := values _ _ _ first (Or.inl (settled_of_skip closing (by simp)))
        exact readElements_close h seen entry (skip_stable x closing)
      · next next comma =>
        have entry := values _ _ _ first (Or.inl (settled_of_skip comma (by simp)))
        have filled := filled_of_shorter ((read_length h n).2.2 _ _ _ _ read)
        rw [readElements_comma h seen entry (skip_stable x comma), skip_append x filled]
        exact elements _ _ _ _ read
      · simp at read

/-- An accepted array text is the beginning of another one only up to white space. -/
theorem array_prefix {v w : Json σ} (short : readText h ('[' :: s) = .ok v)
    (long : readText h ('[' :: (s ++ x)) = .ok w) : skipWhitespace x = [] := by
  have start : ∀ t, skipWhitespace ('[' :: t) = '[' :: t := fun t => rfl
  rw [readText_enough h _ (2*x.length)] at short
  simp only [start, bind_ok, Prod.exists] at short
  obtain ⟨v',later,first,closing⟩ := short
  have bound : 2*('[' :: s).length+1+2*x.length = 2*('[' :: (s ++ x)).length+1 := by
    simp only [List.length_cons, List.length_append]
    omega
  rw [bound] at first
  have again := (read_stable x h _).1 _ _ _ first (Or.inr ⟨s,rfl⟩)
  rw [List.cons_append] at again
  unfold readText at long
  simp only [start, again, bind_ok, Prod.exists, Except.ok.injEq, Prod.mk.injEq] at long
  obtain ⟨_,rest,⟨_,rfl⟩,last⟩ := long
  split at closing
  · next spaces =>
    split at last
    · next ends =>
      rw [skipWhitespace, List.dropWhile_append, if_pos (by simpa [skipWhitespace] using spaces)] at ends
      exact ends
    · simp at last
  · simp at closing

end Stability

end JsonText
