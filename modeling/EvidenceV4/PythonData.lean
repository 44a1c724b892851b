import EvidenceV4.CheckerJson
import EvidenceV4.PolicyDocument
import Mathlib.Data.List.Dedup
import Mathlib.Data.List.Lex
import Mathlib.Data.Nat.Basic
import Mathlib.Data.Rat.Defs

/-!
# Values of the Python scripts

A script reads its documents with the library decoder, which keeps fractions,
infinities and lone surrogates. Reading a field of a decoded value never fails,
but a list or an object is no member of a set: the test raises. Texts of
messages are assembled from code points.
-/

set_option autoImplicit false

namespace EvidenceV4

namespace PythonData

open CheckedExcept
open CheckerJson (PyString points)
open PolicyDocument (mapGet)

inductive PyFloat where
  | finite (value : ℚ)
  | infinite (negative : Bool)
  | nan
  deriving DecidableEq

inductive PyData where
  | none
  | bool (value : Bool)
  | int (value : ℤ)
  | float (value : PyFloat)
  | str (value : PyString)
  | list (entries : List PyData)
  | dict (fields : List (PyString × PyData))

abbrev PyFields := List (PyString × PyData)

inductive PyError where
  | manifestError (message : PyString)
  | typeError (message : PyString)
  | jsonDecodeError
  | osError
  | valueError
  deriving DecidableEq

instance : Coe String PyString := ⟨points⟩

/-- The functions of the interpreter's library that the scripts only pass values through. -/
structure Library where
  repr : PyData → PyString
  loads : PyString → Option PyData
  sha256 : List UInt8 → PyString

section Values

def truthy : PyData → Bool
  | .none => false
  | .bool value => value
  | .int value => value != 0
  | .float value => value != .finite 0
  | .str value => !value.isEmpty
  | .list entries => !entries.isEmpty
  | .dict fields => !fields.isEmpty

def numeric : PyData → Option PyFloat
  | .bool value => some (.finite (if value then 1 else 0))
  | .int value => some (.finite value)
  | .float value => some value
  | _ => .none

def sameNumber : PyFloat → PyFloat → Bool
  | .finite a, .finite b => a == b
  | .infinite a, .infinite b => a == b
  | _, _ => false

def sameNumeric (a b : PyData) : Bool :=
  match numeric a, numeric b with
  | some x, some y => sameNumber x y
  | _, _ => false

mutual

/-- The operator `==`: a truth value, an integer and a fraction may be equal. -/
def equal : PyData → PyData → Bool
  | .str a, .str b => a == b
  | .list a, .list b => equalEntries a b
  | .dict a, .dict b => a.length == b.length && equalFields a b
  | .none, .none => true
  | a, b => sameNumeric a b

def equalEntries : List PyData → List PyData → Bool
  | [], [] => true
  | a :: as, b :: bs => equal a b && equalEntries as bs
  | _, _ => false

def equalFields : PyFields → PyFields → Bool
  | [], _ => true
  | (key,a) :: rest, b =>
    (match mapGet b key with
      | some v => equal a v
      | .none => false) && equalFields rest b

end

/-- `fields.get(key)` -/
def get (fields : PyFields) (key : PyString) : PyData := (mapGet fields key).getD .none

def has (fields : PyFields) (key : PyString) : Bool := (mapGet fields key).isSome

/-- `value in names`, where a value that cannot be hashed raises. -/
def member (names : List PyString) : PyData → Except PyError Bool
  | .str value => pure (decide (value ∈ names))
  | .list _ => throw (.typeError "unhashable type: 'list'")
  | .dict _ => throw (.typeError "unhashable type: 'dict'")
  | _ => pure false

def textOf : PyData → Option PyString
  | .str value => some value
  | _ => .none

def fieldsOf : PyData → Option PyFields
  | .dict fields => some fields
  | _ => .none

def entriesOf : PyData → Option (List PyData)
  | .list entries => some entries
  | _ => .none

/-- `value.get(key) if isinstance(value, dict) else None` -/
def lookup (value : PyData) (key : PyString) : PyData :=
  match value with
  | .dict fields => get fields key
  | _ => .none

end Values

section Texts

def say (parts : List PyString) : PyString := parts.flatten

def number (n : ℕ) : PyString := points (toString n)

/-- `str.isspace` of one code point. -/
def isSpace (c : ℕ) : Bool :=
  (9 ≤ c && c ≤ 13) || (28 ≤ c && c ≤ 32) || c == 0x85 || c == 0xa0 || c == 0x1680 ||
    (0x2000 ≤ c && c ≤ 0x200a) || c == 0x2028 || c == 0x2029 || c == 0x202f || c == 0x205f ||
    c == 0x3000

def strip (value : PyString) : PyString :=
  ((value.dropWhile isSpace).reverse.dropWhile isSpace).reverse

def blank (value : PyString) : Bool := value.all isSpace

/-- A string that is more than white space. -/
def written : PyData → Bool
  | .str value => !blank value
  | _ => false

def joined (separator : PyString) (parts : List PyString) : PyString :=
  List.intercalate separator parts

theorem joined_cons (separator part next : PyString) (parts : List PyString) :
    joined separator (part :: next :: parts) =
      part ++ (separator ++ joined separator (next :: parts)) := by
  simp [joined, List.intercalate]

theorem joined_mem {separator : PyString} {parts : List PyString} {c : ℕ}
    (member : c ∈ joined separator parts) : c ∈ separator ∨ ∃ part ∈ parts, c ∈ part := by
  induction parts with
  | nil => simp [joined, List.intercalate] at member
  | cons part parts ih =>
    cases parts with
    | nil => exact .inr ⟨part,List.mem_cons_self,by simpa [joined, List.intercalate] using member⟩
    | cons next parts =>
      rw [joined_cons, List.mem_append, List.mem_append] at member
      rcases member with first | between | later
      · exact .inr ⟨part,List.mem_cons_self,first⟩
      · exact .inl between
      · obtain found | ⟨other,known,inside⟩ := ih later
        · exact .inl found
        · exact .inr ⟨other,List.mem_cons_of_mem _ known,inside⟩

def sortedNames (names : List PyString) : List PyString :=
  names.dedup.insertionSort (fun a b => a ≤ b)

@[simp] theorem mem_sortedNames {names : List PyString} {name : PyString} :
    name ∈ sortedNames names ↔ name ∈ names := by
  rw [sortedNames, (List.perm_insertionSort _ _).mem_iff, List.mem_dedup]

theorem sortedNames_nodup (names : List PyString) : (sortedNames names).Nodup := by
  rw [sortedNames, (List.perm_insertionSort _ _).nodup_iff]
  exact List.nodup_dedup names

theorem sortedNames_nil {names : List PyString} : sortedNames names = [] ↔ names = [] := by
  constructor
  · intro h
    apply List.eq_nil_iff_forall_not_mem.mpr
    intro name member
    rw [← mem_sortedNames, h] at member
    exact List.not_mem_nil member
  · intro h
    subst h
    rfl

end Texts

section Facts

variable {names : List PyString} {value : PyData}

theorem member_ok {known : Bool} : member names value = .ok known →
    (known = true ↔ ∃ name ∈ names, value = .str name) := by
  intro h
  cases value with
  | str name =>
    simp only [member, pure_ok] at h
    subst h
    simp
  | list => simp [member] at h
  | dict => simp [member] at h
  | _ =>
    simp only [member, pure_ok] at h
    subst h
    simp

theorem equal_str {name : PyString} : equal value (.str name) = true ↔ value = .str name := by
  cases value with
  | str other => simp [equal]
  | none => simp [equal, sameNumeric, numeric]
  | _ => simp [equal, sameNumeric, numeric]

end Facts

end PythonData

end EvidenceV4
