import EvidenceV4.Findings
import EvidenceV4.PythonData
import Mathlib.Data.List.Infix

/-!
# Raw artifacts of executions

An artifact is the output of a command behind which the producer writes a
trailer with the exit code. The gate decodes the bytes with replacement, splits
the text at every boundary that Python knows, and asks of a passing artifact
that one trailer, the canonical one, ends it and that the marker of its evidence
class occurs. A trailer shows its code in decimal digits of any script.
-/

set_option autoImplicit false

namespace EvidenceV4

namespace EvidenceArtifact

open CheckerJson (PyString points)
open Findings
open PolicyDocument (mapGet)
open PythonData

section Decoding

def replacement : ℕ := 0xfffd

def continues (b : ℕ) : Bool := 0x80 ≤ b && b ≤ 0xbf

/-- What may follow the first byte of three or four. -/
def continuesLead (lead b : ℕ) : Bool :=
  continues b && (lead != 0xe0 || 0xa0 ≤ b) && (lead != 0xed || b ≤ 0x9f) &&
    (lead != 0xf0 || 0x90 ≤ b) && (lead != 0xf4 || b ≤ 0x8f)

def payload (b : ℕ) : ℕ := b - 0x80

def decodeThird (point : ℕ) : List ℕ → ℕ × List ℕ
  | c :: rest => if continues c then (point*64 + payload c,rest) else (replacement,c :: rest)
  | [] => (replacement,[])

def decodeSecond (lead point : ℕ) : List ℕ → ℕ × List ℕ
  | b :: rest =>
    if continuesLead lead b then decodeThird (point*64 + payload b) rest
    else (replacement,b :: rest)
  | [] => (replacement,[])

def decodeLong (lead point : ℕ) : List ℕ → ℕ × List ℕ
  | b :: c :: rest =>
    if continuesLead lead b then
      if continues c then decodeThird ((point*64 + payload b)*64 + payload c) rest
      else (replacement,c :: rest)
    else (replacement,b :: c :: rest)
  | [b] => if continuesLead lead b then (replacement,[]) else (replacement,[b])
  | [] => (replacement,[])

/-- One code point and the bytes behind it; a truncated or ill-formed sequence is replaced. -/
def decodePoint (lead : ℕ) (rest : List ℕ) : ℕ × List ℕ :=
  if lead < 0x80 then (lead,rest)
  else if 0xc2 ≤ lead ∧ lead ≤ 0xdf then decodeThird (lead - 0xc0) rest
  else if 0xe0 ≤ lead ∧ lead ≤ 0xef then decodeSecond lead (lead - 0xe0) rest
  else if 0xf0 ≤ lead ∧ lead ≤ 0xf4 then decodeLong lead (lead - 0xf0) rest
  else (replacement,rest)

def decodeBytes : ℕ → List ℕ → PyString
  | 0, _ => []
  | _ + 1, [] => []
  | more + 1, lead :: rest =>
    let (point,left) := decodePoint lead rest
    point :: decodeBytes more left

/-- `raw.decode(errors="replace")` -/
def decode (raw : List UInt8) : PyString :=
  decodeBytes raw.length (raw.map (fun b => b.toNat))

end Decoding

section Lines

def isLineBreak (c : ℕ) : Bool :=
  (10 ≤ c && c ≤ 13) || (28 ≤ c && c ≤ 30) || c == 0x85 || c == 0x2028 || c == 0x2029

/-- The lines of a text, where `returned` says that a carriage return was just read. -/
def linesFrom (line : PyString) (returned : Bool) : PyString → List PyString
  | [] => [line]
  | c :: rest =>
    if returned && c == 10 then linesFrom [] false rest
    else if isLineBreak c then line :: linesFrom [] (c == 13) rest
    else linesFrom (line ++ [c]) false rest

/-- The pieces between the boundaries, the last of them possibly empty. -/
def pieces (text : PyString) : List PyString := linesFrom [] false text

/-- A text that ends in a boundary has no line behind it. -/
def dropEmptyLast (lines : List PyString) : List PyString :=
  if lines.getLast? = some [] then lines.dropLast else lines

def splitlines (text : PyString) : List PyString := dropEmptyLast (pieces text)

end Lines

section Trailers

/-- Zero in each script that writes decimal digits. -/
def decimalZeros : List ℕ :=
  [0x30,0x660,0x6f0,0x7c0,0x966,0x9e6,0xa66,0xae6,0xb66,0xbe6,0xc66,0xce6,0xd66,0xde6,0xe50,0xed0,
    0xf20,0x1040,0x1090,0x17e0,0x1810,0x1946,0x19d0,0x1a80,0x1a90,0x1b50,0x1bb0,0x1c40,0x1c50,
    0xa620,0xa8d0,0xa900,0xa9d0,0xa9f0,0xaa50,0xabf0,0xff10,0x104a0,0x10d30,0x11066,0x110f0,
    0x11136,0x111d0,0x112f0,0x11450,0x114d0,0x11650,0x116c0,0x11730,0x118e0,0x11950,0x11c50,
    0x11d50,0x11da0,0x16a60,0x16ac0,0x16b50,0x1d7ce,0x1d7d8,0x1d7e2,0x1d7ec,0x1d7f6,0x1e140,
    0x1e2f0,0x1e950,0x1fbf0]

/-- The class `\d` of a pattern on strings. -/
def decimal (c : ℕ) : Bool := decimalZeros.any (fun z => z ≤ c && c ≤ z + 9)

def trailerHead : PyString := "--- fv-evidence: exit="

def trailerTail : PyString := " ---"

/-- A line of the shape of a trailer, with one or more of the digits. -/
def trailerLine (digit : ℕ → Bool) (line : PyString) : Bool :=
  let code := (line.drop trailerHead.length).take
    (line.length - trailerHead.length - trailerTail.length)
  line == trailerHead ++ code ++ trailerTail && !code.isEmpty && code.all digit

def canonicalTrailer : PyString := "--- fv-evidence: exit=0 ---"

/-- The alternatives of the pattern of each evidence class. -/
def passMarkers : List (PyString × List PyString) :=
  [("code-enforced",["--- fv-evidence: exit=0 ---"]),
    ("proof-discharged",
      ["VERIFICATION:- SUCCESSFUL","Build completed successfully","--- fv-evidence: exit=0 ---"]),
    ("bounded-checked",["[ok]","VERIFICATION:- SUCCESSFUL","No violation found"]),
    ("test-witnessed",
      ["test result: ok.","[ok]","[violation]","Invariant violated","violation found"]),
    ("conformance-tested",
      ["CONFORMANCE: PASS","CONFORMANCE_TESTED: PASS","test result: ok.",
        "--- fv-evidence: exit=0 ---"]),
    ("externally-assumed",["--- fv-evidence: exit=0 ---"]),
    ("unverified",["--- fv-evidence: exit=0 ---"])]

def occurs (part text : PyString) : Bool := decide (part <:+: text)

variable (library : Library)

def markerDefects (text : PyString) (evidenceClass passMarker : PyData) (label : PyString) :
    List PyString :=
  let absent := say [label,"PASS marker absent for evidence class ",
    (textOf evidenceClass).getD (library.repr evidenceClass)]
  match (textOf passMarker).filter (fun marker => !marker.isEmpty) with
  | some marker => finding (occurs marker text = true) absent
  | none =>
    match (textOf evidenceClass).bind (mapGet passMarkers) with
    | none => [say [label,"unknown evidence class ",library.repr evidenceClass]]
    | some marks => finding (marks.any (fun mark => occurs mark text) = true) absent

/-- The one trailer of a passing artifact is canonical, and it is the last line. -/
def SealedBy (lines : List PyString) : Prop :=
  lines.filter (trailerLine decimal) = [canonicalTrailer] ∧ lines.getLast? = some canonicalTrailer

instance (lines : List PyString) : Decidable (SealedBy lines) :=
  inferInstanceAs (Decidable (_ ∧ _))

def passArtifactDefects (text : PyString) (evidenceClass passMarker : PyData) (label : PyString) :
    List PyString :=
  if SealedBy (splitlines text) then markerDefects library text evidenceClass passMarker label
  else [say [label,"PASS artifact must end with one unique canonical exit=0 trailer"]]

end Trailers

end EvidenceArtifact

end EvidenceV4
