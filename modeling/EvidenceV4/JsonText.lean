import EvidenceV4.CheckedExcept
import Mathlib.Data.Nat.Basic

/-!
# JSON texts

Values, the lexical grammar of strings and numbers, and a reader of texts that
leaves the meaning of strings, numbers and objects to its caller. A string
literal is a list of lexemes, each a plain character or an escape. The reader
descends with a bound on its depth, and any bound above twice the length of the
text gives the same answer.
-/

set_option autoImplicit false

namespace JsonText

open CheckedExcept

-- named, so that definitions over texts keep these constants and no proofs of their own
instance unitBound : @NeZero ℕ Zero.ofOfNat0 65536 := ⟨Nat.succ_ne_zero 65535⟩

instance lawfulChars : LawfulBEq (List Char) := inferInstance

inductive Json (σ : Type) where
  | null
  | bool (value : Bool)
  | number (value : ℤ)
  | string (value : σ)
  | array (entries : List (Json σ))
  | object (fields : List (σ × Json σ))

def isWhitespace (c : Char) : Bool := c == ' ' || c == '\t' || c == '\n' || c == '\r'

def skipWhitespace (s : List Char) : List Char := s.dropWhile isWhitespace

inductive Lexeme where
  | plain (c : Char)
  | short (c : Char)
  | unicode (unit : Fin 65536)
  deriving DecidableEq

def hexValue (c : Char) : Option ℕ :=
  if 48 ≤ c.toNat ∧ c.toNat ≤ 57 then some (c.toNat - 48)
  else if 97 ≤ c.toNat ∧ c.toNat ≤ 102 then some (c.toNat - 87)
  else if 65 ≤ c.toNat ∧ c.toNat ≤ 70 then some (c.toNat - 55)
  else none

def hexUnit (a b c d : Char) : Option (Fin 65536) := do
  let a ← hexValue a
  let b ← hexValue b
  let c ← hexValue c
  let d ← hexValue d
  pure (Fin.ofNat 65536 (((a*16+b)*16+c)*16+d))

/-- The character that a two-character escape stands for. -/
def shortEscape : Char → Option Char
  | '"' => some '"'
  | '\\' => some '\\'
  | '/' => some '/'
  | 'b' => some '\x08'
  | 'f' => some '\x0c'
  | 'n' => some '\n'
  | 'r' => some '\r'
  | 't' => some '\t'
  | _ => none

/-- The lexemes up to the closing quote and the text behind it. -/
def readString : List Char → Option (List Lexeme × List Char)
  | [] => none
  | c :: rest =>
    if c = '"' then some ([],rest)
    else if c = '\\' then
      match rest with
      | [] => none
      | e :: rest =>
        if e = 'u' then
          match rest with
          | a :: b :: c :: d :: rest =>
            (hexUnit a b c d).bind (fun unit =>
              (readString rest).map (fun r => (.unicode unit :: r.1,r.2)))
          | _ => none
        else
          (shortEscape e).bind (fun c =>
            (readString rest).map (fun r => (.short c :: r.1,r.2)))
    else if c.toNat < 32 then none
    else (readString rest).map (fun r => (.plain c :: r.1,r.2))

def isDigit (c : Char) : Bool := 48 ≤ c.toNat && c.toNat ≤ 57

/-- Zero, or a nonzero digit and the digits after it. -/
def readDigits : List Char → Option (List Char × List Char)
  | [] => none
  | c :: rest =>
    if c = '0' then some ([c],rest)
    else if isDigit c then some (c :: rest.takeWhile isDigit,rest.dropWhile isDigit)
    else none

def readInteger : List Char → Option (List Char × List Char)
  | [] => none
  | c :: rest =>
    if c = '-' then (readDigits rest).map (fun r => ('-' :: r.1,r.2))
    else readDigits (c :: rest)

def readFraction : List Char → List Char × List Char
  | '.' :: d :: rest =>
    if isDigit d then ('.' :: d :: rest.takeWhile isDigit,rest.dropWhile isDigit)
    else ([],'.' :: d :: rest)
  | s => ([],s)

def readExponent : List Char → List Char × List Char
  | [] => ([],[])
  | e :: rest =>
    if e = 'e' ∨ e = 'E' then
      let sign := rest.takeWhile (fun c => c == '+' || c == '-') |>.take 1
      let digits := rest.drop sign.length
      if (digits.head?.map isDigit).getD false then
        (e :: sign ++ digits.takeWhile isDigit,digits.dropWhile isDigit)
      else ([],e :: rest)
    else ([],e :: rest)

/-- What the caller does with the parts of a text. -/
structure Hooks (ε σ : Type) where
  malformed : ε
  string : List Lexeme → σ
  integer : List Char → Except ε ℤ
  float : List Char → Except ε (Json σ)
  constant : List Char → Except ε (Json σ)
  pairs : List (σ × Json σ) → Except ε (List (σ × Json σ))

section Reader

variable {ε σ : Type} (h : Hooks ε σ)

def readNumber (s : List Char) : Except ε (Json σ × List Char) :=
  match readInteger s with
  | none => throw h.malformed
  | some (token,rest) =>
    let (fraction,rest) := readFraction rest
    let (exponent,rest) := readExponent rest
    if fraction = [] ∧ exponent = [] then do
      let value ← h.integer token
      pure (.number value,rest)
    else do
      let value ← h.float (token ++ fraction ++ exponent)
      pure (value,rest)

def literals : List (List Char × Json σ) :=
  [("null".toList,.null),("true".toList,.bool true),("false".toList,.bool false)]

def constants : List (List Char) := ["NaN".toList,"Infinity".toList,"-Infinity".toList]

def readAtom (s : List Char) : Except ε (Json σ × List Char) :=
  match literals.find? (fun w => w.1.isPrefixOf s) with
  | some (word,value) => pure (value,s.drop word.length)
  | none =>
    match readInteger s with
    | some _ => readNumber h s
    | none =>
      match constants.find? (fun w => w.isPrefixOf s) with
      | some word => do
        let value ← h.constant word
        pure (value,s.drop word.length)
      | none => throw h.malformed

mutual

def readValue : ℕ → List Char → Except ε (Json σ × List Char)
  | 0, _ => throw h.malformed
  | n+1, s =>
    match s with
    | '"' :: rest =>
      match readString rest with
      | some (lexemes,rest) => pure (.string (h.string lexemes),rest)
      | none => throw h.malformed
    | '\x7b' :: rest =>
      match skipWhitespace rest with
      | '\x7d' :: rest => do
        let fields ← h.pairs []
        pure (.object fields,rest)
      | s => readMembers n [] s
    | '[' :: rest =>
      match skipWhitespace rest with
      | ']' :: rest => pure (.array [],rest)
      | s => readElements n [] s
    | s => readAtom h s

def readMembers : ℕ → List (σ × Json σ) → List Char → Except ε (Json σ × List Char)
  | 0, _, _ => throw h.malformed
  | n+1, seen, s =>
    match s with
    | '"' :: rest =>
      match readString rest with
      | some (lexemes,rest) =>
        match skipWhitespace rest with
        | ':' :: rest => do
          let (value,rest) ← readValue n (skipWhitespace rest)
          let seen := seen ++ [(h.string lexemes,value)]
          match skipWhitespace rest with
          | '\x7d' :: rest => do
            let fields ← h.pairs seen
            pure (.object fields,rest)
          | ',' :: rest => readMembers n seen (skipWhitespace rest)
          | _ => throw h.malformed
        | _ => throw h.malformed
      | none => throw h.malformed
    | _ => throw h.malformed

def readElements : ℕ → List (Json σ) → List Char → Except ε (Json σ × List Char)
  | 0, _, _ => throw h.malformed
  | n+1, seen, s => do
    let (value,rest) ← readValue n s
    let seen := seen ++ [value]
    match skipWhitespace rest with
    | ']' :: rest => pure (.array seen,rest)
    | ',' :: rest => readElements n seen (skipWhitespace rest)
    | _ => throw h.malformed

end

/-- One value with whitespace on both sides and nothing else. -/
def readText (s : List Char) : Except ε (Json σ) := do
  let (value,rest) ← readValue h (2*s.length+1) (skipWhitespace s)
  match skipWhitespace rest with
  | [] => pure value
  | _ => throw h.malformed

end Reader

section

-- the rules below share these equations, so they are made before the first of them
attribute [local simp] readString readValue readMembers readElements

end

section Rules

variable {ε σ : Type} (h : Hooks ε σ)

theorem readValue_string (n : ℕ) {s rest : List Char} {lexemes : List Lexeme}
    (read : readString s = some (lexemes,rest)) :
    readValue h (n+1) ('"' :: s) = .ok (.string (h.string lexemes),rest) := by
  simp only [readValue, read]
  rfl

theorem readValue_object_close (n : ℕ) {s rest : List Char}
    (close : skipWhitespace s = '\x7d' :: rest) :
    readValue h (n+1) ('\x7b' :: s) = (do
      let fields ← h.pairs []
      pure (.object fields,rest)) := by
  simp only [readValue, close]

theorem readValue_object (n : ℕ) {s : List Char}
    (more : ∀ rest, skipWhitespace s ≠ '\x7d' :: rest) :
    readValue h (n+1) ('\x7b' :: s) = readMembers h n [] (skipWhitespace s) := by
  simp only [readValue]

theorem readValue_array_close (n : ℕ) {s rest : List Char}
    (close : skipWhitespace s = ']' :: rest) :
    readValue h (n+1) ('[' :: s) = .ok (.array [],rest) := by
  simp only [readValue, close]
  rfl

theorem readValue_array (n : ℕ) {s : List Char}
    (more : ∀ rest, skipWhitespace s ≠ ']' :: rest) :
    readValue h (n+1) ('[' :: s) = readElements h n [] (skipWhitespace s) := by
  simp only [readValue]

theorem readValue_atom (n : ℕ) {s : List Char} (quote : ∀ rest, s ≠ '"' :: rest)
    (brace : ∀ rest, s ≠ '\x7b' :: rest) (bracket : ∀ rest, s ≠ '[' :: rest) :
    readValue h (n+1) s = readAtom h s := by
  unfold readValue
  split
  · exact absurd rfl (quote _)
  · exact absurd rfl (brace _)
  · exact absurd rfl (bracket _)
  · rfl

section Entry

variable {n : ℕ} {s afterKey afterColon afterValue rest : List Char} {lexemes : List Lexeme}
  {value : Json σ}

theorem readMembers_close (seen : List (σ × Json σ))
    (key : readString s = some (lexemes,afterKey))
    (colon : skipWhitespace afterKey = ':' :: afterColon)
    (entry : readValue h n (skipWhitespace afterColon) = .ok (value,afterValue))
    (close : skipWhitespace afterValue = '\x7d' :: rest) :
    readMembers h (n+1) seen ('"' :: s) = (do
      let fields ← h.pairs (seen ++ [(h.string lexemes,value)])
      pure (.object fields,rest)) := by
  simp only [readMembers, key, colon, entry, close, bind, Except.bind]

theorem readMembers_comma (seen : List (σ × Json σ))
    (key : readString s = some (lexemes,afterKey))
    (colon : skipWhitespace afterKey = ':' :: afterColon)
    (entry : readValue h n (skipWhitespace afterColon) = .ok (value,afterValue))
    (comma : skipWhitespace afterValue = ',' :: rest) :
    readMembers h (n+1) seen ('"' :: s) =
      readMembers h n (seen ++ [(h.string lexemes,value)]) (skipWhitespace rest) := by
  conv_lhs => unfold readMembers
  simp only [key, colon, entry, comma, bind, Except.bind]

theorem readElements_close (seen : List (Json σ))
    (entry : readValue h n s = .ok (value,afterValue))
    (close : skipWhitespace afterValue = ']' :: rest) :
    readElements h (n+1) seen s = .ok (.array (seen ++ [value]),rest) := by
  simp only [readElements, entry, close, bind, Except.bind]
  rfl

theorem readElements_comma (seen : List (Json σ))
    (entry : readValue h n s = .ok (value,afterValue))
    (comma : skipWhitespace afterValue = ',' :: rest) :
    readElements h (n+1) seen s = readElements h n (seen ++ [value]) (skipWhitespace rest) := by
  conv_lhs => unfold readElements
  simp only [entry, comma, bind, Except.bind]

end Entry

end Rules

section Progress

theorem length_skipWhitespace (s : List Char) : (skipWhitespace s).length ≤ s.length :=
  (List.dropWhile_suffix isWhitespace).length_le

theorem skipWhitespace_cons_length {s rest : List Char} {c : Char}
    (h : skipWhitespace s = c :: rest) : rest.length < s.length := by
  have bound := length_skipWhitespace s
  rw [h, List.length_cons] at bound
  omega

/-- The reading rules of a string literal. -/
theorem readString_quote (rest : List Char) : readString ('"' :: rest) = some ([],rest) := by
  rw [readString.eq_def]
  rfl

theorem readString_unicode {a b c d : Char} (rest : List Char) :
    readString ('\\' :: 'u' :: a :: b :: c :: d :: rest) =
      (hexUnit a b c d).bind (fun unit =>
        (readString rest).map (fun r => (.unicode unit :: r.1,r.2))) := by
  rw [readString.eq_def]
  rfl

theorem readString_short {e : Char} (rest : List Char) (h : e ≠ 'u') :
    readString ('\\' :: e :: rest) = (shortEscape e).bind (fun c =>
      (readString rest).map (fun r => (.short c :: r.1,r.2))) := by
  rw [readString.eq_def]
  simp [h]

theorem readString_plain {c : Char} (rest : List Char) (quote : c ≠ '"') (escape : c ≠ '\\')
    (control : 32 ≤ c.toNat) :
    readString (c :: rest) = (readString rest).map (fun r => (.plain c :: r.1,r.2)) := by
  rw [readString.eq_def]
  simp [quote, escape, not_lt.mpr control]

/-- Reading a string consumes its closing quote. -/
theorem readString_length {s rest : List Char} {lexemes : List Lexeme}
    (h : readString s = some (lexemes,rest)) : rest.length < s.length := by
  induction s using readString.induct generalizing lexemes rest with
  | case1 => simp [readString] at h
  | case2 s =>
    rw [readString_quote, Option.some.injEq, Prod.mk.injEq] at h
    simp [h.2]
  | case3 => simp [readString] at h
  | case4 a b c d s _ ih =>
    rw [readString_unicode] at h
    obtain ⟨_,_,h⟩ := Option.bind_eq_some_iff.mp h
    obtain ⟨r,hr,e⟩ := Option.map_eq_some_iff.mp h
    obtain rfl : r.2 = rest := congrArg Prod.snd e
    have shorter := ih hr
    simp only [List.length_cons]
    omega
  | case5 s none =>
    rw [readString] at h
    · simp at h
    · simpa using none
  | case6 e s notUnicode _ ih =>
    rw [readString_short s notUnicode] at h
    obtain ⟨_,_,h⟩ := Option.bind_eq_some_iff.mp h
    obtain ⟨r,hr,e⟩ := Option.map_eq_some_iff.mp h
    obtain rfl : r.2 = rest := congrArg Prod.snd e
    have shorter := ih hr
    simp only [List.length_cons]
    omega
  | case7 c s quote escape control => simp [readString.eq_def, quote, escape, control] at h
  | case8 c s quote escape control ih =>
    rw [readString_plain s quote escape (not_lt.mp control)] at h
    obtain ⟨r,hr,e⟩ := Option.map_eq_some_iff.mp h
    obtain rfl : r.2 = rest := congrArg Prod.snd e
    have shorter := ih hr
    simp only [List.length_cons]
    omega

theorem readDigits_length {s token rest : List Char} (h : readDigits s = some (token,rest)) :
    rest.length < s.length := by
  unfold readDigits at h
  split at h
  · simp at h
  · next c s =>
    have shorter := (List.dropWhile_suffix (l := s) isDigit).length_le
    split_ifs at h
    · simp only [Option.some.injEq, Prod.mk.injEq] at h
      simp [h.2]
    · simp only [Option.some.injEq, Prod.mk.injEq] at h
      rw [← h.2, List.length_cons]
      omega

theorem readInteger_length {s token rest : List Char} (h : readInteger s = some (token,rest)) :
    rest.length < s.length := by
  unfold readInteger at h
  split at h
  · simp at h
  · split_ifs at h
    · obtain ⟨r,hr,e⟩ := Option.map_eq_some_iff.mp h
      obtain rfl : r.2 = rest := congrArg Prod.snd e
      have shorter := readDigits_length hr
      simp only [List.length_cons]
      omega
    · exact readDigits_length h

theorem readFraction_length (s : List Char) : (readFraction s).2.length ≤ s.length := by
  unfold readFraction
  split
  · next d rest =>
    split_ifs
    · have shorter := (List.dropWhile_suffix (l := rest) isDigit).length_le
      simp only [List.length_cons]
      omega
    · exact le_rfl
  · exact le_rfl

theorem readExponent_length (s : List Char) : (readExponent s).2.length ≤ s.length := by
  unfold readExponent
  split
  · exact le_rfl
  · next e rest =>
    simp only
    split_ifs
    · have digits := (List.dropWhile_suffix (l := rest.drop
        (List.take 1 (rest.takeWhile (fun c => c == '+' || c == '-'))).length) isDigit).length_le
      rw [List.length_drop] at digits
      simp only [List.length_cons]
      omega
    · exact le_rfl
    · exact le_rfl

variable {ε σ : Type} (h : Hooks ε σ)

theorem readNumber_length {s rest : List Char} {value : Json σ}
    (read : readNumber h s = .ok (value,rest)) : rest.length < s.length := by
  unfold readNumber at read
  split at read
  · simp at read
  · next token later token' =>
    have first := readInteger_length token'
    have second := readFraction_length later
    have third := readExponent_length (readFraction later).2
    simp only at read
    split_ifs at read
    all_goals
      simp only [bind_ok, pure_ok, Prod.mk.injEq] at read
      obtain ⟨_,_,_,rfl⟩ := read
      omega

theorem drop_prefix_length {word s : List Char} (starts : word.isPrefixOf s)
    (filled : word ≠ []) : (s.drop word.length).length < s.length := by
  have long := (List.isPrefixOf_iff_prefix.mp starts).length_le
  have positive := List.length_pos_iff.mpr filled
  rw [List.length_drop]
  omega

theorem literal_ne_nil {w : List Char × Json σ} (hw : w ∈ literals) : w.1 ≠ [] := by
  simp only [literals, List.mem_cons, List.not_mem_nil, or_false] at hw
  rcases hw with rfl | rfl | rfl <;> simp

theorem constant_ne_nil {w : List Char} (hw : w ∈ constants) : w ≠ [] := by
  simp only [constants, List.mem_cons, List.not_mem_nil, or_false] at hw
  rcases hw with rfl | rfl | rfl <;> simp

theorem readAtom_length {s rest : List Char} {value : Json σ}
    (read : readAtom h s = .ok (value,rest)) : rest.length < s.length := by
  unfold readAtom at read
  split at read
  · next word value' found =>
    have starts : word.isPrefixOf s := by simpa using List.find?_some found
    have shorter := drop_prefix_length starts (literal_ne_nil (List.mem_of_find?_eq_some found))
    simp only [pure_ok, Prod.mk.injEq] at read
    rw [← read.2]
    exact shorter
  · split at read
    · exact readNumber_length h read
    · split at read
      · next word found =>
        have starts : word.isPrefixOf s := by simpa using List.find?_some found
        have shorter := drop_prefix_length starts
          (constant_ne_nil (List.mem_of_find?_eq_some found))
        simp only [bind_ok, pure_ok, Prod.mk.injEq] at read
        obtain ⟨_,_,_,rfl⟩ := read
        exact shorter
      · simp at read

/-- Every reader consumes at least one character of what it accepts. -/
theorem read_length (n : ℕ) :
    (∀ s value rest, readValue h n s = .ok (value,rest) → rest.length < s.length) ∧
    (∀ seen s value rest, readMembers h n seen s = .ok (value,rest) → rest.length < s.length) ∧
    (∀ seen s value rest, readElements h n seen s = .ok (value,rest) →
      rest.length < s.length) := by
  induction n with
  | zero => simp [readValue, readMembers, readElements]
  | succ n ih =>
    obtain ⟨values,members,elements⟩ := ih
    refine ⟨?_,?_,?_⟩
    · intro s value rest read
      unfold readValue at read
      split at read
      · split at read
        · next found =>
          simp only [pure_ok, Prod.mk.injEq] at read
          have shorter := readString_length found
          simp only [List.length_cons, ← read.2]
          omega
        · simp at read
      · next tail =>
        split at read
        · next found =>
          simp only [bind_ok, pure_ok, Prod.mk.injEq] at read
          obtain ⟨_,_,_,rfl⟩ := read
          have shorter := skipWhitespace_cons_length found
          simp only [List.length_cons]
          omega
        · have shorter := members _ _ _ _ read
          have skipped := length_skipWhitespace tail
          simp only [List.length_cons]
          omega
      · next tail =>
        split at read
        · next found =>
          simp only [pure_ok, Prod.mk.injEq] at read
          have shorter := skipWhitespace_cons_length found
          simp only [List.length_cons, ← read.2]
          omega
        · have shorter := elements _ _ _ _ read
          have skipped := length_skipWhitespace tail
          simp only [List.length_cons]
          omega
      · exact readAtom_length h read
    · intro seen s value rest read
      unfold readMembers at read
      split at read
      · split at read
        · next found =>
          split at read
          · next afterKey colon =>
            simp only [bind_ok, Prod.exists] at read
            obtain ⟨v,later,first,read⟩ := read
            have key := readString_length found
            have mark := skipWhitespace_cons_length colon
            have entry := values _ _ _ first
            have skipped := length_skipWhitespace afterKey
            split at read
            · next closing =>
              simp only [bind_ok, pure_ok, Prod.mk.injEq] at read
              obtain ⟨_,_,_,rfl⟩ := read
              have last := skipWhitespace_cons_length closing
              simp only [List.length_cons]
              omega
            · next next comma =>
              have last := skipWhitespace_cons_length comma
              have more := members _ _ _ _ read
              have skipped' := length_skipWhitespace next
              simp only [List.length_cons]
              omega
            · simp at read
          · simp at read
        · simp at read
      · simp at read
    · intro seen s value rest read
      unfold readElements at read
      simp only [bind_ok, Prod.exists] at read
      obtain ⟨v,later,first,read⟩ := read
      have entry := values _ _ _ first
      split at read
      · next closing =>
        simp only [pure_ok, Prod.mk.injEq] at read
        have last := skipWhitespace_cons_length closing
        rw [← read.2]
        omega
      · next next comma =>
        have last := skipWhitespace_cons_length comma
        have more := elements _ _ _ _ read
        have skipped := length_skipWhitespace next
        omega
      · simp at read

/-- A bound above twice the length of the text is never what ends the reading. -/
theorem read_enough (n : ℕ) :
    (∀ m s, 2*s.length < n → 2*s.length < m → readValue h n s = readValue h m s) ∧
    (∀ m seen s, 2*s.length < n → 2*s.length < m →
      readMembers h n seen s = readMembers h m seen s) ∧
    (∀ m seen s, 2*s.length+1 < n → 2*s.length+1 < m →
      readElements h n seen s = readElements h m seen s) := by
  induction n with
  | zero => simp
  | succ n ih =>
    obtain ⟨values,members,elements⟩ := ih
    refine ⟨?_,?_,?_⟩
    · intro m s hn hm
      obtain ⟨m,rfl⟩ := Nat.exists_eq_succ_of_ne_zero (show m ≠ 0 by omega)
      unfold readValue
      split
      · rfl
      · next tail =>
        have skipped := length_skipWhitespace tail
        simp only [List.length_cons] at hn hm
        split
        · rfl
        · exact members _ _ _ (by omega) (by omega)
      · next tail =>
        have skipped := length_skipWhitespace tail
        simp only [List.length_cons] at hn hm
        split
        · rfl
        · exact elements _ _ _ (by omega) (by omega)
      · rfl
    · intro m seen s hn hm
      obtain ⟨m,rfl⟩ := Nat.exists_eq_succ_of_ne_zero (show m ≠ 0 by omega)
      unfold readMembers
      split
      · split
        · next found =>
          have key := readString_length found
          simp only [List.length_cons] at hn hm
          split
          · next afterKey colon =>
            have mark := skipWhitespace_cons_length colon
            have skipped := length_skipWhitespace afterKey
            apply bind_congr_ok (values _ _ (by omega) (by omega))
            intro first read
            have entry := (read_length h n).1 _ _ _ read
            simp only
            split
            · rfl
            · next next comma =>
              have last := skipWhitespace_cons_length comma
              have skipped' := length_skipWhitespace next
              exact members _ _ _ (by omega) (by omega)
            · rfl
          · rfl
        · rfl
      · rfl
    · intro m seen s hn hm
      obtain ⟨m,rfl⟩ := Nat.exists_eq_succ_of_ne_zero (show m ≠ 0 by omega)
      unfold readElements
      apply bind_congr_ok (values _ _ (by omega) (by omega))
      intro first read
      have entry := (read_length h n).1 _ _ _ read
      simp only
      split
      · rfl
      · next next comma =>
        have last := skipWhitespace_cons_length comma
        have skipped := length_skipWhitespace next
        exact elements _ _ _ (by omega) (by omega)
      · rfl

/-- A text is read alike with every larger bound. -/
theorem readText_enough (s : List Char) (more : ℕ) :
    readText h s = (do
      let (value,rest) ← readValue h (2*s.length+1+more) (skipWhitespace s)
      match skipWhitespace rest with
      | [] => pure value
      | _ => throw h.malformed) := by
  have skipped := length_skipWhitespace s
  have same := (read_enough h (2*s.length+1)).1 (2*s.length+1+more) (skipWhitespace s)
    (by omega) (by omega)
  rw [readText, same]

end Progress

end JsonText
