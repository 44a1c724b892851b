import EvidenceV4.CanonicalRoundTrip

/-!
# JSON of the portable checker

The checker decodes with a library reader whose hooks refuse every number but a
plain integer and every repeated key, and walks the result once more for signs
and surrogates. It accepts the texts that the producer's own parser accepts, and
both encoders write the same bytes for what was read. A Python string is a list
of code points, which may be surrogates until they are checked.
-/

set_option autoImplicit false

namespace EvidenceV4

namespace CheckerJson

open CheckedExcept JsonText
open CanonicalJson (Value maxSafeInteger hexDigit tokenValue separated)
open Schema (utf8Bytes)

abbrev PyString := List ℕ

instance lawfulPoints : LawfulBEq PyString := inferInstanceAs (LawfulBEq (List ℕ))

abbrev PyValue := Json PyString

def points (s : String) : PyString := s.toList.map Char.toNat

def V4Error {α : Type} (message : String) : Except PyString α := throw (points message)

def scalar (value : PyString) : Except PyString Unit :=
  if ∃ c ∈ value, isSurrogate c then V4Error "string contains a non-scalar value" else pure ()

mutual

def grammar (field : Option PyString) : PyValue → Except PyString Unit
  | .null => pure ()
  | .bool _ => pure ()
  | .number value =>
    if maxSafeInteger < value.natAbs ∨ (value < 0 ∧ field ≠ some (points "exit_code")) then
      V4Error "integer out of range or negative outside exit_code"
    else pure ()
  | .string value => scalar value
  | .array entries => grammarEntries entries
  | .object fields => grammarFields fields

def grammarEntries : List PyValue → Except PyString Unit
  | [] => pure ()
  | entry :: rest => do
    grammar none entry
    grammarEntries rest

def grammarFields : List (PyString × PyValue) → Except PyString Unit
  | [] => pure ()
  | (key,entry) :: rest => do
    scalar key
    grammar (some key) entry
    grammarFields rest

end

/-- The whole token is a signed decimal integer. -/
def integerSpelling (token : List Char) : Bool :=
  match readInteger token with
  | some (_,[]) => true
  | _ => false

def integer (token : List Char) : Except PyString ℤ :=
  if token = ['-','0'] ∨ integerSpelling token = false then V4Error "noncanonical integer token"
  else if 16 < (token.dropWhile (fun c => c == '-')).length then
    V4Error "integer exceeds safe range"
  else if maxSafeInteger < (tokenValue token).natAbs then V4Error "integer exceeds safe range"
  else pure (tokenValue token)

def reject (token : List Char) : Except PyString PyValue :=
  throw (points "noninteger JSON token: " ++ token.map Char.toNat)

def addPair (result : List (PyString × PyValue)) (entry : PyString × PyValue) :
    Except PyString (List (PyString × PyValue)) :=
  if entry.1 ∈ result.map Prod.fst then throw (points "duplicate JSON key: " ++ entry.1)
  else pure (result ++ [entry])

def pairs (entries : List (PyString × PyValue)) : Except PyString (List (PyString × PyValue)) :=
  entries.foldlM addPair []

def hooks : Hooks PyString PyString :=
  { malformed := points "invalid v4 JSON"
    string := codePoints
    integer := integer
    float := reject
    constant := reject
    pairs := pairs }

/-- `json.loads` on a string, which may not start with a byte-order mark. -/
def loads (text : List Char) : Except PyString PyValue :=
  if text.head? = some '\ufeff' then throw hooks.malformed else readText hooks text

def decode (data : List UInt8) : Except PyString (List Char) :=
  match String.fromUTF8? ⟨data.toArray⟩ with
  | some text => pure text.toList
  | none => V4Error "invalid v4 JSON"

def parseJson (data : List UInt8) : Except PyString PyValue := do
  let text ← decode data
  let value ← loads text
  grammar none value
  pure value

def escapePoint (c : ℕ) : PyString :=
  if c = 34 then points "\\\""
  else if c = 92 then points "\\\\"
  else if c < 32 then
    points "\\u00" ++ [(hexDigit (c/16)).toNat,(hexDigit (c%16)).toNat]
  else [c]

def quote (value : PyString) : PyString := 34 :: (value.flatMap escapePoint ++ [34])

/-- `str.encode("utf-8")` of a string without surrogates. -/
def encodeUtf8 (value : PyString) : List UInt8 := utf8Bytes (String.ofList (value.map Char.ofNat))

def keyOrder (a b : PyString × PyString) : Bool := decide (encodeUtf8 a.1 ≤ encodeUtf8 b.1)

def joined (parts : List PyString) : PyString := List.intercalate [44] parts

mutual

def encode : PyValue → Except PyString PyString
  | .null => pure (points "null")
  | .bool b => pure (if b then points "true" else points "false")
  | .number value =>
    if maxSafeInteger < value.natAbs then V4Error "canonical integer exceeds safe range"
    else pure (points (toString value))
  | .string value => do
    scalar value
    pure (quote value)
  | .array entries => do
    let parts ← encodeEntries entries
    pure (91 :: (joined parts ++ [93]))
  | .object fields => do
    let parts ← encodeFields fields
    let sorted := parts.insertionSort (fun a b => keyOrder a b)
    pure (123 :: (joined (sorted.map (fun p => quote p.1 ++ 58 :: p.2)) ++ [125]))

def encodeEntries : List PyValue → Except PyString (List PyString)
  | [] => pure []
  | entry :: rest => do
    let part ← encode entry
    let parts ← encodeEntries rest
    pure (part :: parts)

def encodeFields : List (PyString × PyValue) → Except PyString (List (PyString × PyString))
  | [] => pure []
  | (key,entry) :: rest => do
    scalar key
    let part ← encode entry
    let parts ← encodeFields rest
    pure ((key,part) :: parts)

end

def C (value : PyValue) : Except PyString (List UInt8) := do
  grammar none value
  let text ← encode value
  pure (encodeUtf8 text)

section Digest

variable (sha256 : List UInt8 → String)

def H (data : List UInt8) : Hash := "sha256:" ++ sha256 data

def D (label : String) (value : PyValue) : Except PyString Hash := do
  let bytes ← C value
  pure (H sha256 (encodeUtf8 (points "fv-evidence-v4/" ++ points label) ++ [0] ++ bytes))

end Digest

mutual

/-- A value of the producer in the representation of the checker. -/
def toPython : Value → PyValue
  | .null => .null
  | .bool b => .bool b
  | .number n => .number n
  | .string s => .string (points s)
  | .array entries => .array (toPythonEntries entries)
  | .object fields => .object (toPythonFields fields)

def toPythonEntries : List Value → List PyValue
  | [] => []
  | entry :: rest => toPython entry :: toPythonEntries rest

def toPythonFields : List (String × Value) → List (PyString × PyValue)
  | [] => []
  | (key,entry) :: rest => (points key,toPython entry) :: toPythonFields rest

end

end CheckerJson

end EvidenceV4
