import EvidenceV4.Schema
import EvidenceV4.TextCode
import EvidenceV4.Utf16

/-!
# Verified-input policies

A policy file lists the prefixes that a project excludes from, or includes in,
its verified inputs. The checker parses it in `fv_project.py`, where a text is a
list of characters, and the producer in `evidence-run.ts`, where a text is a
list of UTF-16 code units. A rejection keeps the line and the part of the text
that its message shows.
-/

set_option autoImplicit false

namespace EvidenceV4

namespace VerifiedInputs

open CheckedExcept JsonText TextCode
open Schema (utf8Bytes)

abbrev Text := List Char

abbrev Units := List CodeUnit

inductive Rejection (σ : Type) where
  | terminator (lineno : ℕ) (char : σ)
  | byteOrderMark (lineno : ℕ)
  | control (lineno : ℕ) (char : σ)
  | lateDirective (lineno : ℕ)
  | unknownMode (lineno : ℕ) (value : σ)
  | wholeProject (lineno : ℕ) (verb : String)
  | absolute (lineno : ℕ) (entry : σ)
  | escapes (lineno : ℕ) (entry : σ)
  | policyMode (mode : σ)
  | noPath
  deriving DecidableEq

structure InputPolicy (σ : Type) where
  mode : σ
  prefixes : List σ
  structural : List σ
  deriving DecidableEq

/-- What the lines read so far declare. -/
structure Reading (σ : Type) where
  mode : Option σ
  prefixes : List σ

/-- Lower-casing in one version of Unicode, with the code points around a character. Outside ASCII
only the Kelvin sign has an ASCII letter for its lower case. -/
structure LowerCase where
  char : List ℕ → List ℕ → Char → List Char
  ascii : ∀ before after c, c.toNat < 128 → char before after c = [c.toLower]
  other : ∀ before after c, 128 ≤ c.toNat →
    char before after c = ['k'] ∨ ∃ x ∈ char before after c, 128 ≤ x.toNat

namespace FvProject

def verifiedInputsRelative : Text := ".fv/verified-inputs.txt".toList

def defaultExclusions : List Text :=
  [".fv/evidence/".toList,".fv/verify/".toList,".fv/panels/".toList,".fv/changes/".toList,
    ".fv/attacks/".toList,".fv/code-adversarial/".toList,".fv/history/".toList,
    ".fv/.migrate-staging/".toList,".colosseum/".toList]

def modeExclude : Text := "exclude".toList

def modeInclude : Text := "include".toList

def policyModes : List Text := [modeExclude,modeInclude]

def modeDirectivePrefix : Text := "mode:".toList

def ambiguousLineChars : List Char :=
  ['\x0b','\x0c','\x1c','\x1d','\x1e','\x85','\u2028','\u2029']

def bomChar : Char := '\ufeff'

def isControl (c : Char) : Bool := c.toNat ≤ 0x1f || (0x7f ≤ c.toNat && c.toNat ≤ 0x9f)

def rejectAmbiguousCharacters (lineno : ℕ) : Text → Except (Rejection Text) Unit
  | [] => pure ()
  | c :: rest =>
    if c = '\n' then rejectAmbiguousCharacters (lineno+1) rest
    else if c = '\r' ∧ rest.head? = some '\n' then rejectAmbiguousCharacters lineno rest
    else if c ∈ ambiguousLineChars ∨ c = '\r' then throw (.terminator lineno [c])
    else if c = bomChar then throw (.byteOrderMark lineno)
    else if isControl c then throw (.control lineno [c])
    else rejectAmbiguousCharacters lineno rest

def isLineBreak (c : Char) : Bool :=
  c ∈ ['\n','\r','\x0b','\x0c','\x1c','\x1d','\x1e','\x85','\u2028','\u2029']

/-- `str.splitlines`. -/
def splitlines : Text → List Text
  | [] => []
  | c :: rest =>
    if c = '\r' then
      match rest with
      | [] => [[]]
      | d :: rest =>
        if d = '\n' then [] :: splitlines rest else [] :: splitlines (d :: rest)
    else if isLineBreak c then [] :: splitlines rest
    else consHead c (splitlines rest)

/-- `str.isspace` on one character. -/
def isSpace (c : Char) : Bool :=
  (9 ≤ c.toNat && c.toNat ≤ 13) || (0x1c ≤ c.toNat && c.toNat ≤ 0x20) || c.toNat == 0x85 ||
    c.toNat == 0xa0 || c.toNat == 0x1680 || (0x2000 ≤ c.toNat && c.toNat ≤ 0x200a) ||
    c.toNat == 0x2028 || c.toNat == 0x2029 || c.toNat == 0x202f || c.toNat == 0x205f ||
    c.toNat == 0x3000

/-- `str.lower`, after the code points `before`. -/
def lower (l : LowerCase) (before : List ℕ) : Text → Text
  | [] => []
  | c :: rest =>
    l.char before (rest.map Char.toNat) c ++ lower l (before ++ [c.toNat]) rest

def directiveValue (l : LowerCase) (line : Text) : Option Text :=
  let head := lower l [] (line.take modeDirectivePrefix.length)
  if head ≠ modeDirectivePrefix then none
  else some (strip isSpace (line.drop modeDirectivePrefix.length))

/-- `Path(line).is_absolute()` on a POSIX host. -/
def isAbsolute (line : Text) : Bool := ['/'].isPrefixOf line

/-- `Path(line).parts` on a POSIX host. -/
def pathParts (line : Text) : List Text :=
  let parts := (splitAt (· == '/') line).filter (fun part => part != [] && part != ['.'])
  if isAbsolute line then
    let root := if ['/','/'].isPrefixOf line && !(['/','/','/'].isPrefixOf line) then ['/','/']
      else ['/']
    root :: parts
  else parts

def readLine (l : LowerCase) (lineno : ℕ) (s : Reading Text) (raw : Text) :
    Except (Rejection Text) (Reading Text) :=
  let line := strip isSpace raw
  if line = [] ∨ ['#'].isPrefixOf line then pure s
  else
    match directiveValue l line with
    | some value =>
      if s.mode ≠ none ∨ s.prefixes ≠ [] then throw (.lateDirective lineno)
      else if value ∉ policyModes then throw (.unknownMode lineno value)
      else pure ⟨some value,s.prefixes⟩
    | none =>
      let mode := s.mode.getD modeExclude
      let entry := if ['.','/'].isPrefixOf line then line.drop 2 else line
      if entry = [] ∨ entry ∈ [['.'],['/']] then
        throw (.wholeProject lineno (if mode = modeInclude then "selects" else "excludes"))
      else if isAbsolute entry then throw (.absolute lineno entry)
      else if ['.','.'] ∈ pathParts entry then throw (.escapes lineno entry)
      else if entry ∈ s.prefixes then pure ⟨some mode,s.prefixes⟩
      else pure ⟨some mode,s.prefixes ++ [entry]⟩

def readLines (l : LowerCase) : ℕ → Reading Text → List Text →
    Except (Rejection Text) (Reading Text)
  | _, s, [] => pure s
  | lineno, s, raw :: rest => do
    let s ← readLine l lineno s raw
    readLines l (lineno+1) s rest

/-- The constructor of `InputPolicy` with its checks. -/
def inputPolicy (mode : Text) (prefixes : List Text) : Except (Rejection Text) (InputPolicy Text) :=
  if mode ∉ policyModes then throw (.policyMode mode)
  else if mode = modeInclude ∧ prefixes = [] then throw .noPath
  else pure ⟨mode,prefixes,defaultExclusions⟩

def parsePolicy (l : LowerCase) (text : Text) : Except (Rejection Text) (InputPolicy Text) := do
  rejectAmbiguousCharacters 1 text
  let s ← readLines l 1 ⟨none,[]⟩ (splitlines text)
  inputPolicy (s.mode.getD modeExclude) s.prefixes

def matchesPrefixes (relative : Text) (prefixes : List Text) : Bool :=
  prefixes.any (fun entry =>
    if ['/'].isSuffixOf entry then entry.isPrefixOf relative
    else relative == entry || (entry ++ ['/']).isPrefixOf relative)

def selectors (policy : InputPolicy Text) : List Text :=
  if policy.mode ≠ modeInclude then []
  else if verifiedInputsRelative ∈ policy.prefixes then policy.prefixes
  else policy.prefixes ++ [verifiedInputsRelative]

def selects (policy : InputPolicy Text) (relative : Text) : Bool :=
  if matchesPrefixes relative policy.structural then false
  else if policy.mode = modeInclude then matchesPrefixes relative (selectors policy)
  else !matchesPrefixes relative policy.prefixes

def orderInputs (paths : List Text) : List Text :=
  paths.insertionSort (fun a b => utf8Bytes (String.ofList a) ≤ utf8Bytes (String.ofList b))

end FvProject

/-- A string of the producer. -/
def units (s : String) : Units := s.toList.flatMap charUnits

namespace EvidenceRun

def verifiedInputsRelative : Units := units ".fv/verified-inputs.txt"

def defaultExclusions : List Units :=
  [units ".fv/evidence/",units ".fv/verify/",units ".fv/panels/",units ".fv/changes/",
    units ".fv/attacks/",units ".fv/code-adversarial/",units ".fv/history/",
    units ".fv/.migrate-staging/",units ".colosseum/"]

def modeExclude : Units := units "exclude"

def modeInclude : Units := units "include"

def policyModes : List Units := [modeExclude,modeInclude]

def modeDirectivePrefix : Units := units "mode:"

def ambiguousLineChars : List CodeUnit := [0x0b,0x0c,0x1c,0x1d,0x1e,0x85,0x2028,0x2029]

def bomChar : CodeUnit := 0xfeff

def lineFeed : CodeUnit := 0x0a

def carriageReturn : CodeUnit := 0x0d

def slash : CodeUnit := 0x2f

def dot : CodeUnit := 0x2e

def isControlChar (u : CodeUnit) : Bool := u.val ≤ 0x1f || (0x7f ≤ u.val && u.val ≤ 0x9f)

def pythonWhitespaceClass (u : CodeUnit) : Bool :=
  u ∈ [0x09,0x0a,0x0b,0x0c,0x0d] || (0x1c ≤ u.val && u.val ≤ 0x1f) || u.val == 0x20 ||
    u.val == 0x85 || u.val == 0xa0 || u.val == 0x1680 || (0x2000 ≤ u.val && u.val ≤ 0x200a) ||
    u.val == 0x2028 || u.val == 0x2029 || u.val == 0x202f || u.val == 0x205f || u.val == 0x3000

/-- The scan that `parseInputPolicy` starts with. -/
def scan (lineno : ℕ) : Units → Except (Rejection Units) Unit
  | [] => pure ()
  | u :: rest =>
    if u = lineFeed then scan (lineno+1) rest
    else if u = carriageReturn ∧ rest.head? = some lineFeed then scan lineno rest
    else if u = carriageReturn ∨ u ∈ ambiguousLineChars then throw (.terminator lineno [u])
    else if u = bomChar then throw (.byteOrderMark lineno)
    else if isControlChar u then throw (.control lineno [u])
    else scan lineno rest

def singlePoint (u : CodeUnit) : Char ⊕ CodeUnit :=
  if isSurrogate u.val then .inr u else .inl (Char.ofNat u.val)

/-- The characters of a string and the surrogates that stand alone. -/
def stringPoints : Units → List (Char ⊕ CodeUnit)
  | [] => []
  | u :: rest =>
    match rest with
    | [] => [singlePoint u]
    | l :: rest =>
      if isHigh u && isLow l then .inl (Char.ofNat (pairPoint u l)) :: stringPoints rest
      else singlePoint u :: stringPoints (l :: rest)

def pointNumber : Char ⊕ CodeUnit → ℕ
  | .inl c => c.toNat
  | .inr u => u.val

def lowerPoints (l : LowerCase) (before : List ℕ) : List (Char ⊕ CodeUnit) → Units
  | [] => []
  | .inl c :: rest => (l.char before (rest.map pointNumber) c).flatMap charUnits ++
      lowerPoints l (before ++ [c.toNat]) rest
  | .inr u :: rest => u :: lowerPoints l (before ++ [u.val]) rest

/-- `String.prototype.toLowerCase`. -/
def toLowerCase (l : LowerCase) (s : Units) : Units := lowerPoints l [] (stringPoints s)

def directiveValue (l : LowerCase) (line : Units) : Option Units :=
  if toLowerCase l (line.take modeDirectivePrefix.length) ≠ modeDirectivePrefix then none
  else some (strip pythonWhitespaceClass (line.drop modeDirectivePrefix.length))

/-- `path.isAbsolute` on a POSIX host. -/
def isAbsolute (line : Units) : Bool := [slash].isPrefixOf line

def readLine (l : LowerCase) (lineno : ℕ) (s : Reading Units) (raw : Units) :
    Except (Rejection Units) (Reading Units) :=
  let line := strip pythonWhitespaceClass raw
  if line = [] ∨ (units "#").isPrefixOf line then pure s
  else
    match directiveValue l line with
    | some value =>
      if s.mode ≠ none ∨ s.prefixes ≠ [] then throw (.lateDirective lineno)
      else if value ∉ policyModes then throw (.unknownMode lineno value)
      else pure ⟨some value,s.prefixes⟩
    | none =>
      let mode := s.mode.getD modeExclude
      let entry := if (units "./").isPrefixOf line then line.drop 2 else line
      if entry = [] ∨ entry = [dot] ∨ entry = [slash] then
        throw (.wholeProject lineno (if mode = modeInclude then "selects" else "excludes"))
      else if isAbsolute entry then throw (.absolute lineno entry)
      else if [dot,dot] ∈ splitAt (· == slash) entry then throw (.escapes lineno entry)
      else if entry ∈ s.prefixes then pure ⟨some mode,s.prefixes⟩
      else pure ⟨some mode,s.prefixes ++ [entry]⟩

def readLines (l : LowerCase) : ℕ → Reading Units → List Units →
    Except (Rejection Units) (Reading Units)
  | _, s, [] => pure s
  | lineno, s, raw :: rest => do
    let s ← readLine l lineno s raw
    readLines l (lineno+1) s rest

def parseInputPolicy (l : LowerCase) (text : Units) : Except (Rejection Units) (InputPolicy Units) := do
  scan 1 text
  let lines := splitBreaks (· == carriageReturn) (· == lineFeed) text
  let s ← readLines l 1 ⟨none,[]⟩ lines
  if s.mode = some modeInclude ∧ s.prefixes = [] then throw .noPath
  else pure ⟨s.mode.getD modeExclude,s.prefixes,defaultExclusions⟩

def matchesPrefixes (relative : Units) (prefixes : List Units) : Bool :=
  prefixes.any (fun entry =>
    if [slash].isSuffixOf entry then entry.isPrefixOf relative
    else relative == entry || (entry ++ [slash]).isPrefixOf relative)

def policySelectors (policy : InputPolicy Units) : List Units :=
  if policy.mode ≠ modeInclude then []
  else if verifiedInputsRelative ∈ policy.prefixes then policy.prefixes
  else policy.prefixes ++ [verifiedInputsRelative]

def policySelects (relative : Units) (policy : InputPolicy Units) : Bool :=
  if matchesPrefixes relative policy.structural then false
  else if policy.mode = modeInclude then matchesPrefixes relative (policySelectors policy)
  else !matchesPrefixes relative policy.prefixes

/-- `Buffer.from(s, "utf8")`, which replaces a surrogate that stands alone. -/
def bufferBytes (s : Units) : List UInt8 :=
  utf8Bytes (String.ofList ((stringPoints s).map (Sum.elim id (fun _ => '\ufffd'))))

def bufferCompare (a b : List UInt8) : Ordering :=
  if a < b then .lt else if a = b then .eq else .gt

def orderVerifiedInputs (paths : List Units) : List Units :=
  paths.insertionSort (fun left right =>
    bufferCompare (bufferBytes left) (bufferBytes right) != .gt)

end EvidenceRun

end VerifiedInputs

end EvidenceV4
