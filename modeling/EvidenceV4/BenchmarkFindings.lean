import EvidenceV4.JsonPrefix
import EvidenceV4.OrderedRecord
import EvidenceV4.PythonData
import Mathlib.Data.List.DropRight

/-!
# Findings of a benchmark dispatch

`parse_findings` looks for fenced JSON arrays with a lazy pattern, decodes them
from the last to the first and keeps the first one that decodes, or decodes the
whole text. An integer of more than 4300 digits raises another exception than a
malformed text does. `dedup` collects the fields of a finding into a tuple that
has to be hashed. The conversion of a fraction is the parameter `float`.
-/

set_option autoImplicit false

namespace EvidenceV4

namespace BenchmarkFindings

open CheckedExcept JsonText PythonData
open CheckerJson (PyString points)
open CanonicalJson (tokenValue)
open PolicyDocument (mapGet)

/-- A string, or a number with a fraction, an exponent or no finite value. -/
abbrev Leaf := PyString ⊕ PyFloat

section Decoder

variable (float : List Char → PyFloat)

def maxStrDigits : ℕ := 4300

def integer (token : List Char) : Except PyError ℤ :=
  if maxStrDigits < (token.filter isDigit).length then throw .valueError
  else pure (tokenValue token)

def constant (word : List Char) : PyFloat :=
  if word = "NaN".toList then .nan else .infinite (word.head? = some '-')

def hooks : Hooks PyError Leaf where
  malformed := .jsonDecodeError
  string := fun lexemes => .inl (codePoints lexemes)
  integer := integer
  float := fun token => pure (.string (.inr (float token)))
  constant := fun word => pure (.string (.inr (constant word)))
  pairs := fun entries => pure (OrderedRecord.assignAll [] entries)

def key : Leaf → PyString
  | .inl name => name
  | .inr _ => []

mutual

def value : Json Leaf → PyData
  | .null => .none
  | .bool b => .bool b
  | .number n => .int n
  | .string (.inl text) => .str text
  | .string (.inr number) => .float number
  | .array entries => .list (values entries)
  | .object fields => .dict (fieldValues fields)

def values : List (Json Leaf) → List PyData
  | [] => []
  | entry :: rest => value entry :: values rest

def fieldValues : List (Leaf × Json Leaf) → PyFields
  | [] => []
  | (name,entry) :: rest => (key name,value entry) :: fieldValues rest

end

/-- `json.loads` on a string. -/
def loads (text : List Char) : Except PyError PyData :=
  if text.head? = some '\ufeff' then throw .jsonDecodeError
  else (readText (hooks float) text).map value

end Decoder

section Search

def space (c : Char) : Bool := isSpace c.toNat

/-- Three backticks. -/
def fenceClose : List Char := [backtick,backtick,backtick]

/-- Three backticks and `json`. -/
def fenceOpen : List Char := [backtick,backtick,backtick,'j','s','o','n']

/-- The fence and the bracket at the front, and the text behind them. -/
def opening (s : List Char) : Option (List Char) :=
  if fenceOpen.isPrefixOf s then
    match (s.drop fenceOpen.length).dropWhile space with
    | '[' :: rest => some rest
    | _ => none
  else none

/-- The text up to the first bracket that a closing fence follows, and the text behind the
fence. -/
def closing : List Char → Option (List Char × List Char)
  | [] => none
  | c :: s =>
    if c = ']' ∧ fenceClose.isPrefixOf (s.dropWhile space) then
      some ([']'],(s.dropWhile space).drop fenceClose.length)
    else (closing s).map (fun r => (c :: r.1,r.2))

/-- A match of `FENCE` at the front: its group and the text behind it. -/
def matchAt (s : List Char) : Option (List Char × List Char) := do
  let body ← opening s
  let (inside,rest) ← closing body
  pure ('[' :: inside,rest)

def findallFrom : ℕ → List Char → List (List Char)
  | 0, _ => []
  | _, [] => []
  | n+1, c :: s =>
    match matchAt (c :: s) with
    | some (block,rest) => block :: findallFrom n rest
    | none => findallFrom n s

/-- `FENCE.findall(text)` -/
def findall (text : List Char) : List (List Char) := findallFrom text.length text

def strip (text : List Char) : List Char := (text.dropWhile space).rdropWhile space

end Search

section Parse

variable (float : List Char → PyFloat)

def FIELDS : List PyString :=
  [points "file",points "line",points "category",points "severity",points "title"]

def isInt : PyData → Bool
  | .bool _ => true
  | .int _ => true
  | _ => false

def finding : PyData → Option PyFields
  | .dict f =>
    if FIELDS.all (has f) ∧ isInt (get f (points "line")) then
      some (FIELDS.map (fun k => (k,get f k)))
    else none
  | _ => none

/-- The first of the texts that decodes to a list. -/
def firstList : List (List Char) → Except PyError (Option (List PyData))
  | [] => pure none
  | candidate :: rest =>
    match loads float candidate with
    | .ok (.list data) => pure (some data)
    | .ok _ => firstList rest
    | .error .jsonDecodeError => firstList rest
    | .error e => throw e

def parseFindings (text : List Char) : Except PyError (Option (List PyFields)) := do
  let parsed ← firstList float (findall text).reverse
  let parsed ← match parsed with
    | some data => pure (some data)
    | none => firstList float [strip text]
  pure (parsed.map (fun data => data.filterMap finding))

def hashable : PyData → Bool
  | .list _ => false
  | .dict _ => false
  | _ => true

def hash : PyData → Except PyError Unit
  | .list _ => throw (.typeError (points "unhashable type: 'list'"))
  | .dict _ => throw (.typeError (points "unhashable type: 'dict'"))
  | _ => pure ()

/-- Members of tuples are alike when they are equal or one object, as every decoded `NaN` is. -/
def sameMember (a b : PyData) : Bool :=
  equal a b || (match a, b with
    | .float .nan, .float .nan => true
    | _, _ => false)

def sameTuple (a b : List PyData) : Bool :=
  a.length == b.length && (a.zip b).all (fun pair => sameMember pair.1 pair.2)

def dedupFrom : List (List PyData) → List PyFields → Except PyError (List PyFields)
  | _, [] => pure []
  | seen, f :: rest => do
    let key := FIELDS.map (get f)
    key.forM hash
    if seen.any (sameTuple key) then dedupFrom seen rest
    else do
      let out ← dedupFrom (seen ++ [key]) rest
      pure (FIELDS.map (fun k => (k,get f k)) :: out)

def dedup (findings : List PyFields) : Except PyError (List PyFields) := dedupFrom [] findings

end Parse

end BenchmarkFindings

end EvidenceV4
