import EvidenceV4.CanonicalJson
import EvidenceV4.PolicyDocument

/-!
# The obligation manifest

A manifest declares the obligations of a project in three collections. A system
claim names the obligations it rests on and the tools that must witness it. The
loader is shared with older records and raises a failure class of its own. A
system claim rests on invariants and witnesses only, so dependencies do not nest.
-/

set_option autoImplicit false

namespace EvidenceV4

inductive ErrorClass where
  | v4Error | osError | unicodeError | valueError | keyError | typeError
  | manifestError | attributeError | overflowError | stopIteration
  deriving DecidableEq

/-- An exception of the portable checker. -/
structure Failure where
  kind : ErrorClass
  message : String
  deriving DecidableEq

inductive ObligationKind where
  | invariant | witness | systemClaim
  deriving DecidableEq

structure ManifestBindings where
  required : List ID
  kinds : List (ID × ObligationKind)
  evidence : List (ID × List ToolID)
  dependencies : List (ID × List ID)
  deriving DecidableEq

namespace ObligationManifest

open CheckedExcept CanonicalJson PolicyDocument
open Schema (isLetter isDigit spelled idGrammar toolGrammar)

abbrev Fields := List (String × Value)

variable (repr : Value → String)

def manifestError {α : Type} (message : String) : Except Failure α :=
  throw ⟨.manifestError,message⟩

def kindName : ObligationKind → String
  | .invariant => "invariant"
  | .witness => "witness"
  | .systemClaim => "system_claim"

def collections : List (String × ObligationKind) :=
  [("invariants",.invariant),("witnesses",.witness),("system_claims",.systemClaim)]

def obligationGrammar : String → Bool :=
  spelled (fun c => isLetter c || isDigit c)
    (fun c => isLetter c || isDigit c || c == '.' || c == '_' || c == ':' || c == '-')

def entryAt (collection : String) (index : ℕ) : String :=
  collection ++ "[" ++ toString index ++ "]"

def obligationEntry (place : String) : Value → Except Failure (ID × Fields)
  | .object item =>
    match mapGet item "id" with
    | some (.string name) => do
      check (obligationGrammar name)
        ⟨.manifestError,place ++ " has malformed id " ++ repr (.string name)⟩
      check (idGrammar name)
        ⟨.manifestError,place ++ " id " ++ repr (.string name) ++ " is not usable by the evidence " ++
          "producer: obligation ids must match [A-Za-z0-9][A-Za-z0-9._-]*"⟩
      pure (name,item)
    | other => manifestError (place ++ " has malformed id " ++ repr (other.getD .null))
  | _ => manifestError (place ++ " is not an object")

def obligationEntries (manifest : Fields) (collection : String) :
    Except Failure (List (ID × Fields)) :=
  match (mapGet manifest collection).getD (.array []) with
  | .array raw => raw.zipIdx.mapM (fun entry => obligationEntry repr (entryAt collection entry.2) entry.1)
  | _ => manifestError (collection ++ " is not an array")

/-- The name of a field in a message, where `repr` shows the claim. -/
def claimPlace (claim field : String) : String :=
  "system_claim " ++ repr (.string claim) ++ " " ++ field

/-- Add one name to a list without repetition. -/
def addName (claim field : String) (grammar : String → Bool) (ids : List String)
    (entry : Value × ℕ) : Except Failure (List String) :=
  match entry.1 with
  | .string name =>
    if grammar name then do
      check (name ∉ ids)
        ⟨.manifestError,claimPlace repr claim field ++ " repeats " ++ repr (.string name)⟩
      pure (ids ++ [name])
    else manifestError (claimPlace repr claim (entryAt field entry.2) ++ " is malformed: " ++
      repr entry.1)
  | _ => manifestError (claimPlace repr claim (entryAt field entry.2) ++ " is malformed: " ++
      repr entry.1)

def idList (claim field : String) (value : Option Value) (grammar : String → Bool) :
    Except Failure (List String) :=
  match value with
  | some (.array (first :: rest)) =>
    (first :: rest).zipIdx.foldlM (addName repr claim field grammar) []
  | _ => manifestError (claimPlace repr claim field ++ " is not a nonempty array")

def checkDependency (claim : ID) (kinds : List (ID × ObligationKind)) (dependency : ID) :
    Except Failure Unit :=
  match mapGet kinds dependency with
  | none => manifestError ("system_claim " ++ repr (.string claim) ++
      " depends on undeclared obligation " ++ repr (.string dependency))
  | some kind => check (kind = .invariant ∨ kind = .witness)
      ⟨.manifestError,"system_claim " ++ repr (.string claim) ++ " depends on " ++
        repr (.string dependency) ++ " of kind " ++ repr (.string (kindName kind)) ++
        ": depends_on names invariants and witnesses only"⟩

def validateSystemClaim (kinds : List (ID × ObligationKind)) (claim : ID × Fields) :
    Except Failure (List ID × List ToolID) := do
  let dependencies ← idList repr claim.1 "depends_on" (mapGet claim.2 "depends_on")
    obligationGrammar
  forM dependencies (checkDependency repr claim.1 kinds)
  let evidence ← idList repr claim.1 "required_evidence" (mapGet claim.2 "required_evidence")
    toolGrammar
  pure (dependencies,evidence)

structure Declared where
  kinds : List (ID × ObligationKind)
  claims : List (ID × Fields)

def declare (collection : String) (kind : ObligationKind) (declared : Declared)
    (entry : ID × Fields) : Except Failure Declared :=
  match mapGet declared.kinds entry.1 with
  | some earlier => manifestError ("duplicate obligation id " ++ repr (.string entry.1) ++ " in " ++
      collection ++ " (already declared as " ++ kindName earlier ++ ")")
  | none => pure
    { kinds := declared.kinds ++ [(entry.1,kind)]
      claims := if kind = .systemClaim then declared.claims ++ [entry] else declared.claims }

def declareCollection (manifest : Fields) (declared : Declared)
    (collection : String × ObligationKind) : Except Failure Declared := do
  let entries ← obligationEntries repr manifest collection.1
  entries.foldlM (declare repr collection.1 collection.2) declared

def loadManifest : Value → Except Failure ManifestBindings
  | .object manifest => do
    let declared ← collections.foldlM (declareCollection repr manifest) ⟨[],[]⟩
    let validated ← declared.claims.mapM (fun claim => do
      let bound ← validateSystemClaim repr declared.kinds claim
      pure (claim.1,bound))
    pure
      { required := declared.kinds.map Prod.fst
        kinds := declared.kinds
        evidence := validated.map (fun claim => (claim.1,claim.2.2))
        dependencies := validated.map (fun claim => (claim.1,claim.2.1)) }
  | _ => manifestError "manifest is not an object"

/-- Obligations are named once, and what a system claim rests on is no system claim. -/
structure Flat (bindings : ManifestBindings) : Prop where
  required : bindings.required = bindings.kinds.map Prod.fst
  distinct : bindings.required.Nodup
  claims : ∀ entry ∈ bindings.dependencies, (entry.1,ObligationKind.systemClaim) ∈ bindings.kinds
  grounds : ∀ entry ∈ bindings.dependencies, ∀ name ∈ entry.2, ∃ kind,
    (name,kind) ∈ bindings.kinds ∧ kind ≠ .systemClaim

section Facts

variable {repr}

/-- Obligations stand once, and the claims kept are those of their kind. -/
structure Declares (declared : Declared) : Prop where
  distinct : (declared.kinds.map Prod.fst).Nodup
  claims : ∀ claim ∈ declared.claims, (claim.1,ObligationKind.systemClaim) ∈ declared.kinds

theorem declare_keeps {collection : String} {kind : ObligationKind} {declared declared' : Declared}
    {entry : ID × Fields} (holds : Declares declared)
    (h : declare repr collection kind declared entry = .ok declared') : Declares declared' := by
  unfold declare at h
  cases found : mapGet declared.kinds entry.1 with
  | some earlier => simp [found, manifestError] at h
  | none =>
    simp only [found, pure_ok] at h
    subst h
    have fresh : entry.1 ∉ declared.kinds.map Prod.fst := by
      rw [← mapGet_isSome, found]
      exact Bool.false_ne_true
    constructor
    · rw [List.map_append, List.map_cons, List.map_nil]
      apply List.Nodup.append holds.distinct (List.nodup_singleton _)
      exact List.disjoint_singleton.mpr fresh
    · intro claim member
      by_cases system : kind = .systemClaim
      · rw [if_pos system, List.mem_append, List.mem_singleton] at member
        rw [List.mem_append, List.mem_singleton]
        rcases member with old | rfl
        · exact .inl (holds.claims claim old)
        · exact .inr (system ▸ rfl)
      · rw [if_neg system] at member
        exact List.mem_append_left _ (holds.claims claim member)

theorem declareCollection_keeps {manifest : Fields} {declared declared' : Declared}
    {collection : String × ObligationKind} (holds : Declares declared)
    (h : declareCollection repr manifest declared collection = .ok declared') :
    Declares declared' := by
  simp only [declareCollection, bind_ok] at h
  obtain ⟨entries,_,h⟩ := h
  exact foldlM_invariant Declares _ (fun _ _ _ hs step => declare_keeps hs step) _ _ _ holds h

theorem validateSystemClaim_grounds {kinds : List (ID × ObligationKind)} {claim : ID × Fields}
    {bound : List ID × List ToolID} (h : validateSystemClaim repr kinds claim = .ok bound) :
    ∀ name ∈ bound.1, ∃ kind, (name,kind) ∈ kinds ∧ kind ≠ .systemClaim := by
  simp only [validateSystemClaim, bind_ok, forM_ok, pure_ok, exists_unit] at h
  obtain ⟨dependencies,_,grounded,_,_,rfl⟩ := h
  intro name member
  have accepted := grounded name member
  unfold checkDependency at accepted
  cases found : mapGet kinds name with
  | none => simp [found, manifestError] at accepted
  | some kind =>
    simp only [found, check_ok] at accepted
    apply Exists.intro kind
    apply And.intro (mapGet_mem found)
    rcases accepted with rfl | rfl <;> decide

theorem loadManifest_flat {v : Value} {bindings : ManifestBindings}
    (h : loadManifest repr v = .ok bindings) : Flat bindings := by
  cases v with
  | object manifest =>
    simp only [loadManifest, bind_ok, pure_ok] at h
    obtain ⟨declared,scanned,validated,loop,rfl⟩ := h
    have start : Declares ⟨[],[]⟩ := ⟨List.nodup_nil,fun _ member => absurd member List.not_mem_nil⟩
    have holds : Declares declared := foldlM_invariant Declares _
      (fun _ _ _ hs step => declareCollection_keeps hs step) _ _ _ start scanned
    have each : ∀ entry ∈ validated, ∃ claim ∈ declared.claims, claim.1 = entry.1 ∧
        validateSystemClaim repr declared.kinds claim = .ok entry.2 := by
      intro entry member
      obtain ⟨claim,hc,step⟩ := mapM_mem_right loop member
      simp only [bind_ok, pure_ok] at step
      obtain ⟨bound,valid,rfl⟩ := step
      exact ⟨claim,hc,rfl,valid⟩
    constructor
    · rfl
    · exact holds.distinct
    · intro entry member
      obtain ⟨bound,hb,rfl⟩ := List.mem_map.mp member
      obtain ⟨claim,hc,same,-⟩ := each bound hb
      exact same ▸ holds.claims claim hc
    · intro entry member
      obtain ⟨bound,hb,rfl⟩ := List.mem_map.mp member
      obtain ⟨claim,-,-,valid⟩ := each bound hb
      exact validateSystemClaim_grounds valid
  | _ => simp [loadManifest, manifestError] at h

/-- A dependency of a claim has no dependencies of its own. -/
theorem Flat.leaf {bindings : ManifestBindings} (flat : Flat bindings) {claim name : ID}
    {names : List ID} (h : (claim,names) ∈ bindings.dependencies) (member : name ∈ names) :
    mapGet bindings.dependencies name = none := by
  obtain ⟨kind,listed,other⟩ := flat.grounds _ h name member
  cases found : mapGet bindings.dependencies name with
  | none => rfl
  | some deeper =>
    have system := flat.claims _ (mapGet_mem found)
    have e : (name,kind) = (name,ObligationKind.systemClaim) :=
      List.inj_on_of_nodup_map (flat.required ▸ flat.distinct) listed system rfl
    exact absurd (Prod.mk.inj e).2 other

end Facts

end ObligationManifest

end EvidenceV4
