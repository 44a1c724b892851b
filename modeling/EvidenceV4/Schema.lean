import EvidenceV4.CheckedExcept
import Mathlib.Data.List.Basic
import Mathlib.Data.List.Sort

/-!
# Text grammars and document validators

A validator receives a decoded value and the place where it stands, and its
error names that place. Field presence and JSON types are carried by the types
of the decoded documents. A string is a sequence of Unicode scalars, so a lone
surrogate cannot be written down, and `utf8Compare` compares encoded bytes.
-/

set_option autoImplicit false

namespace EvidenceV4

open CheckedExcept

abbrev Hash := String
abbrev ID := String
abbrev ToolID := String
abbrev UUID := String

namespace Schema

def utf8Bytes (value : String) : List UInt8 := value.toUTF8.data.toList

def utf8Compare (a b : String) : Ordering :=
  if utf8Bytes a < utf8Bytes b then .lt
  else if utf8Bytes a = utf8Bytes b then .eq
  else .gt

def isLetter (c : Char) : Bool := (65 ≤ c.toNat && c.toNat ≤ 90) || (97 ≤ c.toNat && c.toNat ≤ 122)
def isDigit (c : Char) : Bool := 48 ≤ c.toNat && c.toNat ≤ 57
def isLowerHex (c : Char) : Bool := isDigit c || (97 ≤ c.toNat && c.toNat ≤ 102)
def isControl (c : Char) : Bool := c.toNat ≤ 0x1f || (0x7f ≤ c.toNat && c.toNat ≤ 0x9f)

/-- One leading character and any number of later ones. -/
def spelled (first rest : Char → Bool) (value : String) : Bool :=
  match value.toList with
  | [] => false
  | c :: cs => first c && cs.all rest

def idGrammar : String → Bool :=
  spelled (fun c => isLetter c || isDigit c)
    (fun c => isLetter c || isDigit c || c == '.' || c == '_' || c == '-')

def toolGrammar : String → Bool :=
  spelled (fun c => isLetter c || isDigit c)
    (fun c => isLetter c || isDigit c || c == '.' || c == '_' || c == ':' || c == '+' ||
      c == '/' || c == '-')

def envNameGrammar : String → Bool :=
  spelled (fun c => isLetter c || c == '_') (fun c => isLetter c || isDigit c || c == '_')

def hashGrammar (value : String) : Bool :=
  "sha256:".toList.isPrefixOf value.toList &&
    (value.toList.drop 7).length == 64 && (value.toList.drop 7).all isLowerHex

/-- A tilde escapes only zero and one. -/
def pointerEscapes : List Char → Bool
  | [] => true
  | '~' :: '0' :: rest => pointerEscapes rest
  | '~' :: '1' :: rest => pointerEscapes rest
  | c :: rest => c != '~' && pointerEscapes rest

def pointerGrammar (value : String) : Bool :=
  value.toList.isEmpty || (value.toList.head? == some '/' && pointerEscapes value.toList)

def validRelative (value : List Char) : Bool :=
  !value.isEmpty && value.head? != some '/' && value.head? != some '~' &&
    value.all (fun c => c != '\\' && !isControl c) &&
    (value.splitOn '/').all (fun c => c != [] && c != ['.'] && c != ['.','.'])

def validPath (value : String) : Bool := validRelative value.toList

def validCwd (value : String) : Bool := value == "." || validPath value

def validPrefix (value : String) : Bool :=
  if value.toList.getLast? == some '/' then validRelative value.toList.dropLast
  else validPath value

abbrev Validator (α : Type) := α → String → Except String Unit

def ensure (condition : Prop) [Decidable condition] (place message : String) : Except String Unit :=
  check condition (place ++ ": " ++ message)

@[simp] theorem ensure_ok (condition : Prop) [Decidable condition] (place message : String)
    (r : Unit) : ensure condition place message = .ok r ↔ condition :=
  check_ok condition _ r

def nonempty : Validator String := fun v w => ensure (v ≠ "") w "empty string"

def integer : Validator ℕ := fun v w =>
  ensure (v ≤ 9007199254740991) w "expected unsigned safe integer"

def positive : Validator ℕ := fun v w => do
  integer v w
  ensure (v ≠ 0) w "expected positive integer"

def matching (grammar : String → Bool) : Validator String :=
  fun v w => ensure (grammar v) w "invalid grammar"

def id : Validator String := matching idGrammar
def tool : Validator String := matching toolGrammar
def envName : Validator String := matching envNameGrammar
def hash : Validator String := matching hashGrammar

def pathValue : Validator String := fun v w => ensure (validPath v) w "unsafe path"
def cwd : Validator String := fun v w => ensure (validCwd v) w "unsafe cwd"
def prefixValue : Validator String := fun v w => ensure (validPrefix v) w "unsafe prefix"
def pointer : Validator String := fun v w => ensure (pointerGrammar v) w "invalid JSON pointer"

def osString : Validator String := fun v w => do
  nonempty v w
  ensure (v.toList.all (fun c => c.toNat != 0)) w "NUL in OS string"

def resource : Validator String := fun v w => do
  nonempty v w
  ensure (v.toList.all (fun c => !isControl c)) w "control in resource"

def nullable {α : Type} (validate : Validator α) : Validator (Option α)
  | none, _ => pure ()
  | some v, w => validate v w

def array {α : Type} (validate : Validator α) (least : ℕ) : Validator (List α) := fun v w => do
  ensure (least ≤ v.length) w "expected array"
  forM v.zipIdx (fun entry => validate entry.1 (w ++ "[" ++ toString entry.2 ++ "]"))

def command : Validator (List String) := array osString 1

/-- Every key precedes its right neighbour in byte order. -/
def Ascending : List String → Prop
  | a :: b :: rest => utf8Compare a b = .lt ∧ Ascending (b :: rest)
  | _ => True

instance decidableAscending : (keys : List String) → Decidable (Ascending keys)
  | [] => isTrue trivial
  | [_] => isTrue trivial
  | a :: b :: rest =>
    have := decidableAscending (b :: rest)
    inferInstanceAs (Decidable (utf8Compare a b = .lt ∧ Ascending (b :: rest)))

def set {α : Type} (validate : Validator α) (identify : α → String) (least : ℕ) :
    Validator (List α) := fun v w => do
  array validate least v w
  ensure (Ascending (v.map identify)) w "set is duplicate or not UTF-8 ordered"

def names (validate : Validator String) : Validator (List String) := set validate (fun v => v) 0

def unique {α : Type} (validate : Validator α) (identify : α → String) (least : ℕ) :
    Validator (List α) := fun v w => do
  array validate least v w
  ensure (v.map identify).Nodup w "duplicate identity"

section Facts

variable {α : Type} {validate : Validator α} {identify : α → String} {least : ℕ}
  {v : List α} {w : String}

theorem utf8Compare_lt {a b : String} : utf8Compare a b = .lt ↔ utf8Bytes a < utf8Bytes b := by
  unfold utf8Compare
  split_ifs <;> simp_all

theorem Ascending.pairwise {keys : List String} (h : Ascending keys) :
    keys.Pairwise (fun a b => utf8Bytes a < utf8Bytes b) := by
  rw [← List.isChain_iff_pairwise]
  induction keys with
  | nil => exact .nil
  | cons a rest ih =>
    cases rest with
    | nil => exact .singleton a
    | cons b rest => exact .cons_cons (utf8Compare_lt.mp h.1) (ih h.2)

theorem Ascending.nodup {keys : List String} (h : Ascending keys) : keys.Nodup := by
  refine h.pairwise.imp ?_
  intro a b hab e
  exact List.lt_irrefl _ (e ▸ hab)

/-- An accepted array is long enough and each entry is accepted where it stands. -/
theorem array_ok (h : array validate least v w = .ok ()) :
    least ≤ v.length ∧ ∀ x ∈ v, ∃ place, validate x place = .ok () := by
  simp only [array, bind_ok, ensure_ok, forM_ok] at h
  obtain ⟨_,hl,h⟩ := h
  refine ⟨hl,?_⟩
  intro x hx
  obtain ⟨i,hi,rfl⟩ := List.getElem_of_mem hx
  exact ⟨_,h (v[i],i) (List.mk_mem_zipIdx_iff_getElem?.mpr (by simp))⟩

theorem set_ok (h : set validate identify least v w = .ok ()) :
    (least ≤ v.length ∧ ∀ x ∈ v, ∃ place, validate x place = .ok ()) ∧
      Ascending (v.map identify) := by
  simp only [set, bind_ok, ensure_ok] at h
  obtain ⟨_,ha,hs⟩ := h
  exact ⟨array_ok ha,hs⟩

theorem unique_ok (h : unique validate identify least v w = .ok ()) :
    (least ≤ v.length ∧ ∀ x ∈ v, ∃ place, validate x place = .ok ()) ∧
      (v.map identify).Nodup := by
  simp only [unique, bind_ok, ensure_ok] at h
  obtain ⟨_,ha,hs⟩ := h
  exact ⟨array_ok ha,hs⟩

end Facts

end Schema

end EvidenceV4
