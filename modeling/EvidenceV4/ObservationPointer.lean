import EvidenceV4.JsonPointer

/-!
# The observation that a slot points at

A policy names the observation contract of a slot by a file and a pointer into
it. The producer resolves the pointer when it loads the policy, the checker when
it reads the portable copy. Both follow the keys of the pointer one after
another and both want an object or an array at its end, but the checker hands
the document back for the empty pointer before it looks at what the document is.
-/

set_option autoImplicit false

namespace EvidenceV4

namespace ObservationPointer

open CheckedExcept JsonText JsonPointer
open CanonicalJson (Value)

def require (message : String) : Option Value → Except String Value
  | none => throw message
  | some value => pure value

section Producer

def isArray : Value → Bool
  | .array _ => true
  | _ => false

/-- The own property of an object or array. -/
def ownProperty (current : Value) (key : List Char) : Option Value :=
  match current with
  | .object fields => fields.lookup (String.ofList key)
  | .array entries =>
    if key = "length".toList then some (.number entries.length)
    else (entries.zipIdx.find? (fun e => spelling e.2 == key)).map Prod.fst
  | _ => none

def missing (text : List Char) : String := "missing JSON pointer: " ++ String.ofList text

def resolveKey (text : List Char) (current : Value) (key : List Char) : Except String Value := do
  check (IsContainer current) (missing text)
  check (isArray current = true → isPosition key = true)
    ("invalid array pointer: " ++ String.ofList text)
  require (missing text) (ownProperty current key)

def resolvePointer (document : Value) (text : List Char) : Except String Value := do
  check (validPointer text = true) ("invalid JSON pointer: " ++ String.ofList text)
  let current ← (tokens text).foldlM (resolveKey text) document
  check (IsContainer current) ("JSON pointer must name object/array: " ++ String.ofList text)
  pure current

end Producer

section Checker

def pointerKey (current : Value) (token : List Char) : Except String Value :=
  match current with
  | .object fields =>
    require "observation pointer missing object key" (fields.lookup (String.ofList token))
  | .array entries => do
    check (isPosition token = true ∧ position token < entries.length)
      "observation pointer missing array index"
    require "observation pointer missing array index" entries[position token]?
  | _ => throw "observation pointer traverses scalar"

/-- The checker's `_pointer`. -/
def pointer (value : Value) (text : List Char) : Except String Value :=
  if text = [] then pure value
  else do
    let current ← (((text.drop 1).splitOn '/').map unescape).foldlM pointerKey value
    check (IsContainer current) "observation pointer resolves to scalar"
    pure current

end Checker

section Steps

theorem require_ok (message : String) (found : Option Value) (target : Value) :
    require message found = .ok target ↔ found = some target := by
  cases found <;> simp [require]

theorem ownProperty_position (entries : List Value) {key : List Char} (spelled : isPosition key = true) :
    ownProperty (.array entries) key = entries[position key]? := by
  have other : key ≠ "length".toList := by
    rintro rfl
    exact absurd spelled (by decide)
  rw [ownProperty, if_neg other]
  have test : ∀ e : Value × ℕ, (spelling e.2 == key) = (e.2 == position key) := by
    intro e
    rw [Bool.eq_iff_iff, beq_iff_eq, beq_iff_eq]
    constructor
    · rintro rfl
      exact (position_spelling e.2).symm
    · intro same
      rw [same, spelling_position spelled]
  simp only [test]
  cases found : entries[position key]? with
  | none =>
    have nothing : entries.zipIdx.find? (fun e => e.2 == position key) = none := by
      apply List.find?_eq_none.mpr
      intro e member same
      have known := List.mem_zipIdx_iff_getElem?.mp member
      rw [eq_of_beq same, found] at known
      cases known
    rw [nothing]
    rfl
  | some value =>
    cases chosen : entries.zipIdx.find? (fun e => e.2 == position key) with
    | none =>
      have member : (value,position key) ∈ entries.zipIdx := List.mem_zipIdx_iff_getElem?.mpr found
      exact absurd (beq_self_eq_true _) (List.find?_eq_none.mp chosen _ member)
    | some e =>
      have known := List.mem_zipIdx_iff_getElem?.mp (List.mem_of_find?_eq_some chosen)
      have same := List.find?_some chosen
      rw [eq_of_beq same, found] at known
      cases known
      rfl

theorem designates_key {current target : Value} {key : List Char} :
    Designates current [key] target ↔
      match current with
      | .object fields => fields.lookup (String.ofList key) = some target
      | .array entries => isPosition key = true ∧ entries[position key]? = some target
      | _ => False := by
  constructor
  · intro led
    generalize whole : [key] = path at led
    cases led with
    | here => cases whole
    | member fields k path value target known rest =>
      cases whole
      cases rest
      exact known
    | entry entries i path value target known rest =>
      cases whole
      cases rest
      exact ⟨isPosition_spelling i,by rw [position_spelling]; exact known⟩
  · cases current with
    | object fields => exact fun known => .member _ _ _ _ _ known (.here _)
    | array entries =>
      rintro ⟨spelled,known⟩
      have led := Designates.entry entries (position key) [] target target known (.here _)
      rwa [spelling_position spelled] at led
    | _ => exact False.elim

theorem resolveKey_ok (text : List Char) (current : Value) (key : List Char) (target : Value) :
    resolveKey text current key = .ok target ↔ Designates current [key] target := by
  rw [designates_key, resolveKey]
  simp only [bind_ok, check_ok, exists_unit, require_ok]
  cases current with
  | object fields => simp [isArray, IsContainer, ownProperty]
  | array entries =>
    by_cases spelled : isPosition key = true
    · rw [ownProperty_position entries spelled]
      simp [IsContainer, spelled]
    · simp [isArray, spelled]
  | _ => simp [IsContainer]

theorem pointerKey_ok (current : Value) (key : List Char) (target : Value) :
    pointerKey current key = .ok target ↔ Designates current [key] target := by
  rw [designates_key, pointerKey.eq_def]
  cases current with
  | object fields => exact require_ok _ _ _
  | array entries =>
    simp only [bind_ok, check_ok, exists_unit, require_ok]
    constructor
    · rintro ⟨⟨spelled,-⟩,known⟩
      exact ⟨spelled,known⟩
    · rintro ⟨spelled,known⟩
      obtain ⟨inside,-⟩ := List.getElem?_eq_some_iff.mp known
      exact ⟨⟨spelled,inside⟩,known⟩
  | _ => simp

theorem designates_cons {document target : Value} {key : List Char} {path : List (List Char)} :
    Designates document (key :: path) target ↔
      ∃ value, Designates document [key] value ∧ Designates value path target := by
  constructor
  · intro led
    cases led with
    | member fields _ _ value _ known rest => exact ⟨value,.member _ _ _ _ _ known (.here _),rest⟩
    | entry entries i _ value _ known rest => exact ⟨value,.entry _ _ _ _ _ known (.here _),rest⟩
  · rintro ⟨value,first,rest⟩
    generalize whole : [key] = single at first
    cases first with
    | here => cases whole
    | member fields k tail v _ known nested =>
      cases whole
      cases nested
      exact .member _ _ _ _ _ known rest
    | entry entries i tail v _ known nested =>
      cases whole
      cases nested
      exact .entry _ _ _ _ _ known rest

/-- A loop whose step follows one key follows the whole path. -/
theorem loop_designates {step : Value → List Char → Except String Value}
    (each : ∀ current key target, step current key = .ok target ↔ Designates current [key] target)
    (path : List (List Char)) (document target : Value) :
    path.foldlM step document = .ok target ↔ Designates document path target := by
  induction path generalizing document with
  | nil =>
    rw [List.foldlM_nil, pure_ok]
    constructor
    · rintro rfl
      exact .here _
    · intro led
      cases led
      rfl
  | cons key path ih =>
    rw [List.foldlM_cons, bind_ok, designates_cons]
    apply exists_congr
    intro value
    rw [each, ih]

end Steps

section Agreement

variable {document : Value} {text : List Char}

theorem resolvePointer_ok (valid : validPointer text = true) (target : Value) :
    resolvePointer document text = .ok target ↔
      Designates document (tokens text) target ∧ IsContainer target := by
  rw [resolvePointer]
  simp only [bind_ok, check_ok, exists_unit, pure_ok, loop_designates (resolveKey_ok text)]
  constructor
  · rintro ⟨-,current,led,container,rfl⟩
    exact ⟨led,container⟩
  · rintro ⟨led,container⟩
    exact ⟨valid,target,led,container,rfl⟩

theorem pointer_ok (named : text ≠ []) (target : Value) :
    pointer document text = .ok target ↔
      Designates document (tokens text) target ∧ IsContainer target := by
  rw [pointer, if_neg named, tokens, if_neg named]
  simp only [bind_ok, check_ok, exists_unit, pure_ok, loop_designates pointerKey_ok]
  constructor
  · rintro ⟨current,led,container,rfl⟩
    exact ⟨led,container⟩
  · rintro ⟨led,container⟩
    exact ⟨target,led,container,rfl⟩

/-- Both sides find the same object or array, and neither finds a scalar. -/
structure Agrees (document : Value) (text : List Char) : Prop where
  same : ∀ target, resolvePointer document text = .ok target ↔ pointer document text = .ok target
  container : ∀ target, pointer document text = .ok target → IsContainer target

/-- The two sides agree on a pointer unless it is empty and the document is a
scalar, which the checker takes for the observation. -/
theorem agrees_iff (document : Value) (text : List Char) (valid : validPointer text = true) :
    Agrees document text ↔ text ≠ [] ∨ IsContainer document := by
  constructor
  · intro agrees
    by_cases named : text ≠ []
    · exact Or.inl named
    · have empty : pointer document text = .ok document := if_pos (not_not.mp named)
      exact Or.inr (agrees.container document empty)
  · intro clear
    by_cases named : text ≠ []
    · constructor
      · intro target
        rw [resolvePointer_ok valid, pointer_ok named]
      · intro target found
        exact ((pointer_ok named target).mp found).2
    · have whole : text = [] := not_not.mp named
      have container : IsContainer document := clear.resolve_left named
      subst whole
      have found : ∀ target, pointer document [] = .ok target ↔ document = target :=
        fun target => pure_ok _ _
      constructor
      · intro target
        rw [resolvePointer_ok valid, found]
        constructor
        · rintro ⟨led,-⟩
          exact designates_unique (.here _) led
        · rintro rfl
          exact ⟨.here _,container⟩
      · intro target known
        cases (found target).mp known
        exact container

/-- An escaped key and a position. -/
def sampleDocument : Value :=
  .object [("a/b",.array [.null,.object [("~1",.object [])]])]

theorem sampleDocument_agrees :
    validPointer "/a~1b/1/~01".toList = true ∧ Agrees sampleDocument "/a~1b/1/~01".toList :=
  ⟨by decide,(agrees_iff sampleDocument "/a~1b/1/~01".toList (by decide)).mpr (Or.inl (by decide))⟩

/-- A definition file that holds one number, and the empty pointer. -/
theorem scalar_document_accepted : validPointer [] = true ∧ ¬ Agrees (.number 7) [] := by
  constructor
  · rfl
  · intro agrees
    exact agrees.container (.number 7) rfl

end Agreement

end ObservationPointer

end EvidenceV4
