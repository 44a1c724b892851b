import EvidenceV4.Schema
import EvidenceV4.Utf16

/-!
# Canonical JSON of the producer

The encoder `C` writes one text for a value: keys in byte order, no whitespace,
and the only escapes are those of the quote, the backslash and the control
characters. The parser `parseJSON` accepts any JSON text whose numbers are safe
integers, negative only directly under `exit_code`, and whose objects have
distinct keys. A position in an error message counts UTF-16 code units.
-/

set_option autoImplicit false

namespace EvidenceV4

namespace CanonicalJson

open CheckedExcept JsonText
open Schema (utf8Bytes utf8Compare)

abbrev Value := Json String

def maxSafeInteger : ℕ := 9007199254740991

def isSafeInteger (n : ℤ) : Bool := n.natAbs ≤ maxSafeInteger

/-- Only an exit code may be negative. -/
def SignAllowed (field : Option String) (n : ℤ) : Prop := 0 ≤ n ∨ field = some "exit_code"

instance (field : Option String) (n : ℤ) : Decidable (SignAllowed field n) :=
  inferInstanceAs (Decidable (_ ∨ _))

def hexDigit (n : ℕ) : Char := if n < 10 then Char.ofNat (48+n) else Char.ofNat (87+n)

def escapeChar (c : Char) : List Char :=
  if c = '"' then ['\\','"']
  else if c = '\\' then ['\\','\\']
  else if c.toNat < 32 then ['\\','u','0','0',hexDigit (c.toNat/16),hexDigit (c.toNat%16)]
  else [c]

def quote (value : String) : List Char := '"' :: (value.toList.flatMap escapeChar ++ ['"'])

def keyOrder {β : Type} (a b : String × β) : Bool := utf8Compare a.1 b.1 != .gt

def separated (parts : List (List Char)) : List Char := List.intercalate [','] parts

mutual

def encode (field : Option String) : Value → Except String (List Char)
  | .null => pure "null".toList
  | .string v => pure (quote v)
  | .bool v => pure (if v then "true".toList else "false".toList)
  | .number v => do
    check (isSafeInteger v ∧ SignAllowed field v) "noncanonical integer or signed field"
    pure (toString v).toList
  | .array entries => do
    let parts ← encodeEntries entries
    pure ('[' :: (separated parts ++ [']']))
  | .object fields => do
    let parts ← encodeFields fields
    let sorted := parts.insertionSort (fun a b => keyOrder a b)
    pure ('\x7b' :: (separated (sorted.map (fun p => quote p.1 ++ ':' :: p.2)) ++ ['\x7d']))

def encodeEntries : List Value → Except String (List (List Char))
  | [] => pure []
  | entry :: rest => do
    let part ← encode none entry
    let parts ← encodeEntries rest
    pure (part :: parts)

def encodeFields : List (String × Value) → Except String (List (String × List Char))
  | [] => pure []
  | (k,v) :: rest => do
    let part ← encode (some k) v
    let parts ← encodeFields rest
    pure ((k,part) :: parts)

end

def C (value : Value) : Except String (List UInt8) := do
  let text ← encode none value
  pure (utf8Bytes (String.ofList text))

section Digest

variable (sha256 : List UInt8 → String)

def H (bytes : List UInt8) : Hash := "sha256:" ++ sha256 bytes

def D (label : String) (value : Value) : Except String Hash := do
  let bytes ← C value
  pure (H sha256 (utf8Bytes ("fv-evidence-v4/" ++ label ++ "\x00") ++ bytes))

end Digest

/-- Where and why the parser stopped; `taken` code units of `rest` were already read. -/
inductive Failure where
  | stopped (rest : List Char) (taken : ℕ) (why : String)
  | scalar (message : String)

def fail {α : Type} (rest : List Char) (taken : ℕ) (why : String) : Except Failure α :=
  throw (.stopped rest taken why)

def scanString : List Char → Except Failure (List Lexeme × List Char)
  | [] => fail [] 0 "unterminated string"
  | c :: rest =>
    if c = '"' then pure ([],rest)
    else if c.toNat < 32 then fail rest 0 "unescaped control"
    else if c = '\\' then
      match rest with
      | [] => fail [] 1 "bad escape"
      | e :: rest =>
        if e = 'u' then
          match rest with
          | a :: b :: c :: d :: rest' =>
            match hexUnit a b c d with
            | none => fail rest 0 "bad Unicode escape"
            | some unit => (fun r => (.unicode unit :: r.1,r.2)) <$> scanString rest'
          | _ => fail rest 0 "bad Unicode escape"
        else
          match shortEscape e with
          | none => fail (e :: rest) 1 "bad escape"
          | some c => (fun r => (.short c :: r.1,r.2)) <$> scanString rest
    else (fun r => (.plain c :: r.1,r.2)) <$> scanString rest

/-- The value of a literal must be a sequence of scalars. -/
def assertScalar (units : List CodeUnit) : Except Failure String :=
  match decodeUnits units with
  | .ok text => pure (String.ofList text)
  | .error message => throw (.scalar message)

def string (s : List Char) : Except Failure (String × List Char) := do
  let (lexemes,rest) ← scanString s
  let value ← assertScalar (lexemes.flatMap lexemeUnits)
  pure (value,rest)

def tokenValue (token : List Char) : ℤ :=
  match token with
  | '-' :: digits => -(Nat.ofDigitChars 10 digits 0)
  | digits => Nat.ofDigitChars 10 digits 0

/-- A fraction, an exponent or one more digit behind a number. -/
def continuesNumber (s : List Char) : Bool :=
  match s with
  | [] => false
  | c :: _ => c == '.' || c == 'e' || c == 'E' || isDigit c

def number (field : Option String) (s : List Char) : Except Failure (Value × List Char) :=
  match readInteger s with
  | none => fail s 0 "value required"
  | some (token,rest) =>
    if token = ['-','0'] ∨ continuesNumber rest then fail rest 0 "integer spelling"
    else if isSafeInteger (tokenValue token) ∧ SignAllowed field (tokenValue token) then
      pure (.number (tokenValue token),rest)
    else fail rest 0 "integer range or signed field"

def words : List (List Char × Value) :=
  [("true".toList,.bool true),("false".toList,.bool false),("null".toList,.null)]

def atom (field : Option String) (s : List Char) : Except Failure (Value × List Char) :=
  match words.find? (fun w => w.1.isPrefixOf s) with
  | some (word,literal) => pure (literal,s.drop word.length)
  | none => number field s

mutual

def value : ℕ → Option String → List Char → Except Failure (Value × List Char)
  | 0, _, s => fail s 0 "value required"
  | n+1, field, s =>
    match skipWhitespace s with
    | '"' :: rest => do
      let (v,rest) ← string rest
      pure (.string v,rest)
    | '\x7b' :: rest =>
      match skipWhitespace rest with
      | '\x7d' :: rest => pure (.object [],rest)
      | s => members n [] s
    | '[' :: rest =>
      match skipWhitespace rest with
      | ']' :: rest => pure (.array [],rest)
      | s => elements n [] s
    | s => atom field s

def members : ℕ → List (String × Value) → List Char → Except Failure (Value × List Char)
  | 0, _, s => fail s 0 "object key required"
  | n+1, result, s =>
    match s with
    | '"' :: rest => do
      let (key,rest) ← string rest
      let s := skipWhitespace rest
      if key ∈ result.map Prod.fst then fail s 0 "duplicate object key"
      else
        match s with
        | ':' :: rest => do
          let (v,rest) ← value n (some key) rest
          let result := result ++ [(key,v)]
          match skipWhitespace rest with
          | '\x7d' :: rest => pure (.object result,rest)
          | ',' :: rest => members n result (skipWhitespace rest)
          | s => fail s 1 "comma required"
        | s => fail s 1 "colon required"
    | s => fail s 0 "object key required"

def elements : ℕ → List Value → List Char → Except Failure (Value × List Char)
  | 0, _, s => fail s 0 "value required"
  | n+1, result, s => do
    let (v,rest) ← value n none s
    let result := result ++ [v]
    match skipWhitespace rest with
    | ']' :: rest => pure (.array result,rest)
    | ',' :: rest => elements n result rest
    | s => fail s 1 "comma required"

end

def codeUnitLength (s : List Char) : ℕ := (s.flatMap charUnits).length

def describe (text : List Char) : Failure → String
  | .stopped rest taken why => "invalid v4 JSON at " ++
      toString (codeUnitLength text - codeUnitLength rest + taken) ++ ": " ++ why
  | .scalar message => message

def decodeUTF8 (bytes : List UInt8) : Except String (List Char) :=
  match String.fromUTF8? ⟨bytes.toArray⟩ with
  | some text => pure text.toList
  | none => throw "invalid UTF-8"

def parseText (text : List Char) : Except Failure Value := do
  let (result,rest) ← value (2*text.length+1) none text
  match skipWhitespace rest with
  | [] => pure result
  | rest => fail rest 0 "trailing bytes"

def parseJSON (bytes : List UInt8) : Except String Value := do
  let text ← decodeUTF8 bytes
  (parseText text).mapError (describe text)

section Strings

@[simp] theorem fail_ok {α : Type} (rest : List Char) (taken : ℕ) (why : String) (a : α) :
    (fail rest taken why : Except Failure α) = .ok a ↔ False :=
  throw_ok _ a

/-- The scanner accepts the string literals of the grammar. -/
theorem scanString_ok (s : List Char) (r : List Lexeme × List Char) :
    scanString s = .ok r ↔ readString s = some r := by
  induction s using readString.induct generalizing r with
  | case1 => simp [scanString, readString]
  | case2 rest =>
    rw [readString_quote, scanString.eq_def]
    simp
  | case3 => simp [scanString, readString]
  | case4 a b c d rest _ ih =>
    rw [readString_unicode, scanString.eq_def]
    cases unit : hexUnit a b c d with
    | none => simp [unit]
    | some _ => simp [unit, ih]
  | case5 rest short =>
    have refused : readString ('\\' :: 'u' :: rest) = none := by
      rw [readString.eq_def]
      simp only [Char.reduceEq, ↓reduceIte]
    rw [refused, scanString.eq_def]
    simp only [Char.reduceEq, Char.reduceToNat, Nat.reduceLT, ↓reduceIte]
    simp
  | case6 e rest notUnicode _ ih =>
    rw [readString_short rest notUnicode, scanString.eq_def]
    cases escape : shortEscape e with
    | none => simp [notUnicode, escape]
    | some _ => simp [notUnicode, escape, ih]
  | case7 c rest quote escape control =>
    rw [readString.eq_def, scanString.eq_def]
    simp [quote, escape, control]
  | case8 c rest quote escape control ih =>
    rw [readString_plain rest quote escape (not_lt.mp control), scanString.eq_def]
    simp [quote, escape, control, ih]

end Strings

section

-- made once for the rules below
attribute [local simp] value members elements

end

section Rules

variable {n : ℕ} {field : Option String} {s t rest : List Char}

theorem value_string_of {v : String} (quote : skipWhitespace s = '"' :: t)
    (read : string t = .ok (v,rest)) : value (n+1) field s = .ok (.string v,rest) := by
  simp only [value, quote, read]
  rfl

theorem value_object_close (brace : skipWhitespace s = '\x7b' :: t)
    (close : skipWhitespace t = '\x7d' :: rest) :
    value (n+1) field s = .ok (.object [],rest) := by
  simp only [value, brace, close]
  rfl

theorem value_object (brace : skipWhitespace s = '\x7b' :: t)
    (more : ∀ rest, skipWhitespace t ≠ '\x7d' :: rest) :
    value (n+1) field s = members n [] (skipWhitespace t) := by
  simp only [value, brace]

theorem value_array_close (bracket : skipWhitespace s = '[' :: t)
    (close : skipWhitespace t = ']' :: rest) :
    value (n+1) field s = .ok (.array [],rest) := by
  simp only [value, bracket, close]
  rfl

theorem value_array (bracket : skipWhitespace s = '[' :: t)
    (more : ∀ rest, skipWhitespace t ≠ ']' :: rest) :
    value (n+1) field s = elements n [] (skipWhitespace t) := by
  simp only [value, bracket]

theorem value_atom (quote : ∀ rest, skipWhitespace s ≠ '"' :: rest)
    (brace : ∀ rest, skipWhitespace s ≠ '\x7b' :: rest)
    (bracket : ∀ rest, skipWhitespace s ≠ '[' :: rest) :
    value (n+1) field s = atom field (skipWhitespace s) := by
  unfold value
  split
  · next start => exact absurd start (quote _)
  · next start => exact absurd start (brace _)
  · next start => exact absurd start (bracket _)
  · rfl

variable {key : String} {v : Value} {afterKey afterColon afterValue : List Char}

theorem members_close {result : List (String × Value)} (read : string s = .ok (key,afterKey))
    (fresh : key ∉ result.map Prod.fst) (colon : skipWhitespace afterKey = ':' :: afterColon)
    (entry : value n (some key) afterColon = .ok (v,afterValue))
    (close : skipWhitespace afterValue = '\x7d' :: rest) :
    members (n+1) result ('"' :: s) = .ok (.object (result ++ [(key,v)]),rest) := by
  unfold members
  simp only [read, bind, Except.bind]
  rw [if_neg fresh]
  simp only [colon, entry, close]
  rfl

theorem members_comma {result : List (String × Value)} (read : string s = .ok (key,afterKey))
    (fresh : key ∉ result.map Prod.fst) (colon : skipWhitespace afterKey = ':' :: afterColon)
    (entry : value n (some key) afterColon = .ok (v,afterValue))
    (comma : skipWhitespace afterValue = ',' :: rest) :
    members (n+1) result ('"' :: s) =
      members n (result ++ [(key,v)]) (skipWhitespace rest) := by
  conv_lhs => unfold members
  simp only [read, bind, Except.bind]
  rw [if_neg fresh]
  simp only [colon, entry, comma]

theorem elements_close (result : List Value) (entry : value n none s = .ok (v,afterValue))
    (close : skipWhitespace afterValue = ']' :: rest) :
    elements (n+1) result s = .ok (.array (result ++ [v]),rest) := by
  simp only [elements, entry, close, bind, Except.bind]
  rfl

theorem elements_comma (result : List Value) (entry : value n none s = .ok (v,afterValue))
    (comma : skipWhitespace afterValue = ',' :: rest) :
    elements (n+1) result s = elements n (result ++ [v]) rest := by
  conv_lhs => unfold elements
  simp only [entry, comma, bind, Except.bind]

end Rules

end CanonicalJson

end EvidenceV4
