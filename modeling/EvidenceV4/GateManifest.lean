import EvidenceV4.Findings
import EvidenceV4.ObligationManifest
import EvidenceV4.PythonData

/-!
# The manifest loaders of gate and dashboard

Both loaders walk the three collections of a decoded document and agree on the
ids. The gate resolves the dependencies of a system claim once all kinds are
known and refuses malformed, repeated, undeclared and nested names. The dashboard
keeps each name once, in declared order, and asks no more than that it is not blank.
-/

set_option autoImplicit false

namespace EvidenceV4

namespace GateManifest

open CheckedExcept
open CheckerJson (PyString points)
open ObligationManifest (kindName)
open PolicyDocument (mapGet mapGet_mem mapGet_isSome mapGet_of_mem)
open PythonData

/-- Required ids, their kinds, and what each system claim declares. -/
structure Obligations where
  required : List PyString
  kinds : List (PyString × ObligationKind)
  evidence : List (PyString × List PyString)
  depends : List (PyString × List PyString)

section Grammars

def alphanumeric (c : ℕ) : Bool :=
  (48 ≤ c && c ≤ 57) || (65 ≤ c && c ≤ 90) || (97 ≤ c && c ≤ 122)

/-- `[A-Za-z0-9]` and then any of these and of the marks. -/
def spelled (marks value : PyString) : Bool :=
  match value with
  | [] => false
  | c :: cs => alphanumeric c && cs.all (fun c => alphanumeric c || marks.contains c)

def obligationId : PyString → Bool := spelled "._:-"

def producerClaimId : PyString → Bool := spelled "._-"

def evidenceToolId : PyString → Bool := spelled "._:+/-"

def profileId : PyString → Bool := spelled "._+/-"

end Grammars

section Loaders

variable (library : Library)

def manifestError {α : Type} (parts : List PyString) : Except PyError α :=
  throw (.manifestError (say parts))

def quoted (name : PyString) : PyString := library.repr (.str name)

def collections : List (PyString × ObligationKind) :=
  [("invariants",.invariant),("witnesses",.witness),("system_claims",.systemClaim)]

def entryAt (collection : PyString) (index : ℕ) : PyString :=
  say [collection,"[",number index,"]"]

def checkId (place name : PyString) : Except PyError PUnit := do
  check (obligationId name) (.manifestError (say [place," has malformed id ",quoted library name]))
  check (producerClaimId name) (.manifestError (say [place," id ",quoted library name,
    " is not usable by the evidence ",
    "producer: obligation ids must match [A-Za-z0-9][A-Za-z0-9._-]*"]))

def obligationEntry (place : PyString) : PyData → Except PyError (PyString × PyFields)
  | .dict item =>
    match get item "id" with
    | .str name => do
      checkId library place name
      pure (name,item)
    | other => manifestError [place," has malformed id ",library.repr other]
  | _ => manifestError [place," is not an object"]

/-- The entries of a collection, which may be absent. -/
def entriesIn (manifest : PyFields) (collection : PyString) : Except PyError (List PyData) :=
  match (mapGet manifest collection).getD (.list []) with
  | .list raw => pure raw
  | _ => manifestError [collection," is not an array"]

def obligationEntries (manifest : PyFields) (collection : PyString) :
    Except PyError (List (PyString × PyFields)) := do
  let raw ← entriesIn manifest collection
  raw.zipIdx.mapM (fun entry => obligationEntry library (entryAt collection entry.2) entry.1)

def claimPlace (claim field : PyString) : PyString :=
  say ["system_claim ",quoted library claim," ",field]

def addId (claim field : PyString) (grammar : PyString → Bool) (ids : List PyString)
    (entry : PyData × ℕ) : Except PyError (List PyString) :=
  match (textOf entry.1).filter grammar with
  | some name => do
    check (name ∉ ids)
      (.manifestError (say [claimPlace library claim field," repeats ",quoted library name]))
    pure (ids ++ [name])
  | none => manifestError [claimPlace library claim (entryAt field entry.2)," is malformed: ",
      library.repr entry.1]

def idList (claim field : PyString) (value : PyData) (grammar : PyString → Bool) :
    Except PyError (List PyString) :=
  match value with
  | .list (first :: rest) => (first :: rest).zipIdx.foldlM (addId library claim field grammar) []
  | _ => manifestError [claimPlace library claim field," is not a nonempty array"]

def checkDependency (claim : PyString) (kinds : List (PyString × ObligationKind))
    (dependency : PyString) : Except PyError PUnit :=
  match mapGet kinds dependency with
  | none => manifestError ["system_claim ",quoted library claim," depends on undeclared obligation ",
      quoted library dependency]
  | some kind => check (kind = .invariant ∨ kind = .witness)
      (.manifestError (say ["system_claim ",quoted library claim," depends on ",
        quoted library dependency," of kind ",quoted library (kindName kind),
        ": depends_on names invariants and witnesses only"]))

def validateSystemClaim (kinds : List (PyString × ObligationKind)) (claim : PyString × PyFields) :
    Except PyError (List PyString × List PyString) := do
  let dependencies ← idList library claim.1 "depends_on" (get claim.2 "depends_on") obligationId
  forM dependencies (checkDependency library claim.1 kinds)
  let evidence ← idList library claim.1 "required_evidence" (get claim.2 "required_evidence")
    evidenceToolId
  pure (dependencies,evidence)

/-- What a system claim declares, under its id. -/
abbrev ClaimGrounds := PyString × List PyString × List PyString

def validatedClaim (kinds : List (PyString × ObligationKind)) (claim : PyString × PyFields) :
    Except PyError ClaimGrounds := do
  let bound ← validateSystemClaim library kinds claim
  pure (claim.1,bound)

structure Declarations where
  kinds : List (PyString × ObligationKind)
  claims : List (PyString × PyFields)

def checkFresh (collection : PyString) (kinds : List (PyString × ObligationKind))
    (name : PyString) : Except PyError PUnit :=
  match mapGet kinds name with
  | some earlier => manifestError ["duplicate obligation id ",quoted library name," in ",collection,
      " (already declared as ",kindName earlier,")"]
  | none => pure ⟨⟩

def declare (collection : PyString) (kind : ObligationKind) (declared : Declarations)
    (entry : PyString × PyFields) : Except PyError Declarations := do
  checkFresh library collection declared.kinds entry.1
  pure { kinds := declared.kinds ++ [(entry.1,kind)]
         claims := if kind = .systemClaim then declared.claims ++ [entry] else declared.claims }

def declareCollection (manifest : PyFields) (declared : Declarations)
    (collection : PyString × ObligationKind) : Except PyError Declarations := do
  let entries ← obligationEntries library manifest collection.1
  entries.foldlM (declare library collection.1 collection.2) declared

def declareAll (manifest : PyFields) : Except PyError Declarations :=
  collections.foldlM (declareCollection library manifest) ⟨[],[]⟩

/-- `load_manifest` of the gate, on the decoded document. -/
def loadManifest (document : PyData) : Except PyError Obligations :=
  match document with
  | .dict manifest => do
    let declared ← declareAll library manifest
    let validated ← declared.claims.mapM (validatedClaim library declared.kinds)
    pure
      { required := declared.kinds.map Prod.fst
        kinds := declared.kinds
        evidence := validated.map (fun claim => (claim.1,claim.2.2))
        depends := validated.map (fun claim => (claim.1,claim.2.1)) }
  | _ => manifestError ["manifest is not an object"]

end Loaders

section Facts

variable {library : Library}

@[simp] theorem manifestError_ok {α : Type} {parts : List PyString} {a : α} :
    (manifestError parts : Except PyError α) = .ok a ↔ False := by
  simp [manifestError]

theorem checkFresh_ok {collection name : PyString} {kinds : List (PyString × ObligationKind)} :
    checkFresh library collection kinds name = .ok ⟨⟩ ↔ name ∉ kinds.map Prod.fst := by
  unfold checkFresh
  rw [← mapGet_isSome]
  cases found : mapGet kinds name with
  | some earlier => simp
  | none => simp

theorem declare_ok {collection : PyString} {kind : ObligationKind}
    {declared declared' : Declarations} {entry : PyString × PyFields} :
    declare library collection kind declared entry = .ok declared' ↔
      entry.1 ∉ declared.kinds.map Prod.fst ∧
      declared' = ⟨declared.kinds ++ [(entry.1,kind)],
        if kind = .systemClaim then declared.claims ++ [entry] else declared.claims⟩ := by
  simp only [declare, bind_ok, exists_unit, checkFresh_ok, pure_ok]
  exact and_congr_right (fun _ => eq_comm)

theorem checkDependency_ok {claim dependency : PyString}
    {kinds : List (PyString × ObligationKind)} :
    checkDependency library claim kinds dependency = .ok ⟨⟩ ↔
      ∃ kind, mapGet kinds dependency = some kind ∧ kind ≠ .systemClaim := by
  unfold checkDependency
  cases found : mapGet kinds dependency with
  | none => simp
  | some kind => cases kind <;> simp

end Facts

section Lists

variable {library : Library} {claim field : PyString} {grammar : PyString → Bool}

theorem addId_ok {ids ids' : List PyString} {entry : PyData × ℕ} :
    addId library claim field grammar ids entry = .ok ids' ↔
      ∃ name, entry.1 = .str name ∧ grammar name = true ∧ name ∉ ids ∧ ids' = ids ++ [name] := by
  obtain ⟨value,index⟩ := entry
  cases value with
  | str name =>
    by_cases spelled : grammar name = true
    · have kept : (textOf (.str name)).filter grammar = some name := by
        simp [textOf, Option.filter, spelled]
      simp only [addId, kept, bind_ok, check_ok, exists_unit, pure_ok]
      constructor
      · rintro ⟨fresh,rfl⟩
        exact ⟨name,rfl,spelled,fresh,rfl⟩
      · rintro ⟨_,same,_,fresh,rfl⟩
        obtain rfl := PyData.str.inj same
        exact ⟨fresh,rfl⟩
    · have dropped : (textOf (.str name)).filter grammar = none := by
        simp [textOf, Option.filter, spelled]
      simp [addId, dropped, spelled]
  | _ => simp [addId, textOf]

theorem addIds_ok {entries : List PyData} {k : ℕ} {ids names : List PyString} :
    (entries.zipIdx k).foldlM (addId library claim field grammar) ids = .ok names ↔
      ∃ added, entries = added.map .str ∧ (∀ name ∈ added, grammar name = true) ∧
        added.Nodup ∧ ids.Disjoint added ∧ names = ids ++ added := by
  induction entries generalizing ids k with
  | nil =>
    simp only [List.zipIdx_nil, List.foldlM_nil, pure_ok]
    constructor
    · rintro rfl
      exact ⟨[],rfl,fun _ member => absurd member List.not_mem_nil,List.nodup_nil,
        List.disjoint_nil_right _,(List.append_nil _).symm⟩
    · rintro ⟨added,none,_,_,_,rfl⟩
      obtain rfl := List.map_eq_nil_iff.mp none.symm
      exact (List.append_nil _).symm
  | cons entry entries ih =>
    simp only [List.zipIdx_cons, List.foldlM_cons, bind_ok, addId_ok, ih]
    constructor
    · rintro ⟨_,⟨name,rfl,spelled,fresh,rfl⟩,added,rfl,each,distinct,apart,rfl⟩
      rw [List.disjoint_append_left] at apart
      refine ⟨name :: added,rfl,?_,?_,?_,by simp⟩
      · exact List.forall_mem_cons.mpr ⟨spelled,each⟩
      · exact List.nodup_cons.mpr ⟨List.singleton_disjoint.mp apart.2,distinct⟩
      · exact List.disjoint_cons_right.mpr ⟨fresh,apart.1⟩
    · rintro ⟨added,same,each,distinct,apart,rfl⟩
      cases added with
      | nil => cases same
      | cons name added =>
        obtain ⟨rfl,rfl⟩ := List.cons.inj same
        obtain ⟨spelled,each⟩ := List.forall_mem_cons.mp each
        obtain ⟨fresh,distinct⟩ := List.nodup_cons.mp distinct
        obtain ⟨unseen,apart⟩ := List.disjoint_cons_right.mp apart
        refine ⟨ids ++ [name],⟨name,rfl,spelled,unseen,rfl⟩,added,rfl,each,distinct,?_,by simp⟩
        exact List.disjoint_append_left.mpr ⟨apart,List.singleton_disjoint.mpr fresh⟩

/-- A list of ids is accepted as it stands: well formed, without repetition and not empty. -/
theorem idList_ok {value : PyData} {names : List PyString} :
    idList library claim field value grammar = .ok names ↔
      value = .list (names.map .str) ∧ names ≠ [] ∧ (∀ name ∈ names, grammar name = true) ∧
        names.Nodup := by
  unfold idList
  cases value with
  | list entries =>
    cases entries with
    | nil =>
      simp only [manifestError_ok, PyData.list.injEq, false_iff]
      rintro ⟨none,filled,_⟩
      exact filled (List.map_eq_nil_iff.mp none.symm)
    | cons first rest =>
      simp only [addIds_ok, List.nil_append, PyData.list.injEq]
      constructor
      · rintro ⟨added,same,each,distinct,_,rfl⟩
        refine ⟨same,?_,each,distinct⟩
        rintro rfl
        cases same
      · intro ⟨same,_,each,distinct⟩
        exact ⟨names,same,each,distinct,List.disjoint_nil_left _,rfl⟩
  | _ => simp

/-- What a system claim declares, accepted by the gate. -/
theorem validateSystemClaim_ok {kinds : List (PyString × ObligationKind)}
    {entry : PyString × PyFields} {bound : List PyString × List PyString} :
    validateSystemClaim library kinds entry = .ok bound ↔
      (get entry.2 "depends_on" = .list (bound.1.map .str) ∧ bound.1 ≠ [] ∧
        (∀ name ∈ bound.1, obligationId name = true) ∧ bound.1.Nodup) ∧
      (∀ name ∈ bound.1, ∃ kind, mapGet kinds name = some kind ∧ kind ≠ .systemClaim) ∧
      get entry.2 "required_evidence" = .list (bound.2.map .str) ∧ bound.2 ≠ [] ∧
        (∀ name ∈ bound.2, evidenceToolId name = true) ∧ bound.2.Nodup := by
  simp only [validateSystemClaim, bind_ok, forM_ok, pure_ok, exists_unit, idList_ok,
    checkDependency_ok]
  constructor
  · rintro ⟨depends,listed,grounded,evidence,tools,rfl⟩
    exact ⟨listed,grounded,tools⟩
  · rintro ⟨listed,grounded,tools⟩
    exact ⟨bound.1,listed,grounded,bound.2,tools,rfl⟩

end Lists

section Entries

variable {library : Library} {manifest : PyFields} {declared : Declarations}

/-- An entry with the kind of its collection. -/
abbrev KindedEntry := (PyString × PyFields) × ObligationKind

def kindedEntries (library : Library) (manifest : PyFields)
    (collection : PyString × ObligationKind) : Except PyError (List KindedEntry) := do
  let entries ← obligationEntries library manifest collection.1
  pure (entries.map (fun entry => (entry,collection.2)))

/-- All entries of a manifest, in the order of the collections. -/
def allEntries (library : Library) (manifest : PyFields) : Except PyError (List KindedEntry) := do
  let parts ← collections.mapM (kindedEntries library manifest)
  pure parts.flatten

def idOf (entry : KindedEntry) : PyString := entry.1.1

/-- The declarations of further entries behind some that were made. -/
def extend (declared : Declarations) (entries : List KindedEntry) : Declarations :=
  ⟨declared.kinds ++ entries.map (fun entry => (idOf entry,entry.2)),
    declared.claims ++ (entries.filter (fun entry => entry.2 = .systemClaim)).map Prod.fst⟩

theorem extend_append (declared : Declarations) (first second : List KindedEntry) :
    extend (extend declared first) second = extend declared (first ++ second) := by
  simp [extend]

theorem declare_extends {collection : PyString} {kind : ObligationKind}
    {declared' : Declarations} {entry : PyString × PyFields} :
    declare library collection kind declared entry = .ok declared' ↔
      entry.1 ∉ declared.kinds.map Prod.fst ∧ declared' = extend declared [(entry,kind)] := by
  rw [declare_ok]
  apply and_congr_right
  intro _
  by_cases system : kind = .systemClaim
  · simp [extend, idOf, system]
  · simp [extend, idOf, system]

theorem extend_ids (declared : Declarations) (entries : List KindedEntry) :
    (extend declared entries).kinds.map Prod.fst =
      declared.kinds.map Prod.fst ++ entries.map idOf := by
  simp [extend, Function.comp_def]

theorem declareEntries_ok {collection : PyString × ObligationKind} {declared' : Declarations}
    {entries : List (PyString × PyFields)} :
    entries.foldlM (declare library collection.1 collection.2) declared = .ok declared' ↔
      (declared.kinds.map Prod.fst).Disjoint (entries.map Prod.fst) ∧
      (entries.map Prod.fst).Nodup ∧
      declared' = extend declared (entries.map (fun entry => (entry,collection.2))) := by
  induction entries generalizing declared with
  | nil =>
    rw [List.foldlM_nil, pure_ok]
    simp [extend, eq_comm]
  | cons entry entries ih =>
    simp only [List.foldlM_cons, bind_ok, declare_extends, ih, List.map_cons]
    constructor
    · rintro ⟨_,⟨fresh,rfl⟩,apart,distinct,rfl⟩
      rw [extend_ids, List.disjoint_append_left] at apart
      rw [extend_append]
      exact ⟨List.disjoint_cons_right.mpr ⟨fresh,apart.1⟩,
        List.nodup_cons.mpr ⟨List.singleton_disjoint.mp apart.2,distinct⟩,rfl⟩
    · rintro ⟨apart,distinct,rfl⟩
      obtain ⟨fresh,apart⟩ := List.disjoint_cons_right.mp apart
      obtain ⟨new,distinct⟩ := List.nodup_cons.mp distinct
      refine ⟨_,⟨fresh,rfl⟩,?_,distinct,?_⟩
      · rw [extend_ids, List.disjoint_append_left]
        exact ⟨apart,List.singleton_disjoint.mpr new⟩
      · rw [extend_append]
        rfl

theorem declareCollections_ok {parts : List (PyString × ObligationKind)}
    {declared' : Declarations} :
    parts.foldlM (declareCollection library manifest) declared = .ok declared' ↔
      ∃ entries, parts.mapM (kindedEntries library manifest) = .ok entries ∧
        (declared.kinds.map Prod.fst).Disjoint (entries.flatten.map idOf) ∧
        (entries.flatten.map idOf).Nodup ∧ declared' = extend declared entries.flatten := by
  induction parts generalizing declared with
  | nil =>
    simp only [List.foldlM_nil, List.mapM_nil, pure_ok]
    constructor
    · rintro rfl
      exact ⟨[],rfl,List.disjoint_nil_right _,List.nodup_nil,by simp [extend]⟩
    · rintro ⟨_,rfl,_,_,rfl⟩
      simp [extend]
  | cons part parts ih =>
    simp only [List.foldlM_cons, declareCollection, kindedEntries, bind_ok, declareEntries_ok, ih,
      List.mapM_cons, pure_ok]
    constructor
    · rintro ⟨_,⟨entries,read,apart,distinct,rfl⟩,later,others,apart',distinct',rfl⟩
      refine ⟨_,⟨_,⟨entries,read,rfl⟩,later,others,rfl⟩,?_⟩
      rw [extend_ids, List.disjoint_append_left] at apart'
      rw [extend_append, List.flatten_cons, List.map_append, List.map_map]
      refine ⟨List.disjoint_append_right.mpr ⟨apart,apart'.1⟩,?_,rfl⟩
      apply distinct.append distinct'
      simpa [List.map_map, Function.comp_def, idOf] using apart'.2
    · rintro ⟨_,⟨_,⟨entries,read,rfl⟩,later,others,rfl⟩,apart,distinct,rfl⟩
      rw [List.flatten_cons, List.map_append, List.map_map] at apart distinct
      obtain ⟨apart₁,apart₂⟩ := List.disjoint_append_right.mp apart
      obtain ⟨distinct₁,distinct₂,separate⟩ := List.nodup_append'.mp distinct
      refine ⟨_,⟨entries,read,apart₁,distinct₁,rfl⟩,later,others,?_,distinct₂,?_⟩
      · rw [extend_ids, List.disjoint_append_left, List.map_map]
        exact ⟨apart₂,separate⟩
      · rw [extend_append]
        rfl

/-- The loader declares the entries of all collections, whose ids differ. -/
theorem declareAll_ok {declared' : Declarations} :
    declareAll library manifest = .ok declared' ↔ ∃ entries,
      allEntries library manifest = .ok entries ∧ (entries.map idOf).Nodup ∧
      declared' = extend ⟨[],[]⟩ entries := by
  simp only [declareAll, declareCollections_ok, allEntries, bind_ok, pure_ok, List.map_nil]
  constructor
  · rintro ⟨parts,read,_,distinct,rfl⟩
    exact ⟨_,⟨parts,read,rfl⟩,distinct,rfl⟩
  · rintro ⟨_,⟨parts,read,rfl⟩,distinct,rfl⟩
    exact ⟨parts,read,List.disjoint_nil_left _,distinct,rfl⟩

end Entries

section Loading

variable {library : Library} {document : PyData} {obligations : Obligations}

/-- The kinds of the entries by id. -/
def kindsOf (entries : List KindedEntry) : List (PyString × ObligationKind) :=
  entries.map (fun entry => (idOf entry,entry.2))

def systemClaims (entries : List KindedEntry) : List (PyString × PyFields) :=
  (entries.filter (fun entry => entry.2 = .systemClaim)).map Prod.fst

/-- The obligations of a manifest whose system claims were validated. -/
def obligationsOf (entries : List KindedEntry) (validated : List ClaimGrounds) : Obligations :=
  ⟨entries.map idOf,kindsOf entries,validated.map (fun claim => (claim.1,claim.2.2)),
    validated.map (fun claim => (claim.1,claim.2.1))⟩

theorem validatedClaim_ok {kinds : List (PyString × ObligationKind)}
    {claim : PyString × PyFields} {bound : ClaimGrounds} :
    validatedClaim library kinds claim = .ok bound ↔
      claim.1 = bound.1 ∧ validateSystemClaim library kinds claim = .ok bound.2 := by
  simp only [validatedClaim, bind_ok, pure_ok]
  constructor
  · rintro ⟨b,valid,rfl⟩
    exact ⟨rfl,valid⟩
  · rintro ⟨same,valid⟩
    exact ⟨bound.2,valid,Prod.ext same rfl⟩

/-- A document is loaded when its entries are readable, their ids differ and each system claim
is valid over the kinds of all. -/
theorem loadManifest_ok : loadManifest library document = .ok obligations ↔
    ∃ manifest entries validated, document = .dict manifest ∧
      allEntries library manifest = .ok entries ∧ (entries.map idOf).Nodup ∧
      List.Forall₂ (fun (claim : PyString × PyFields) (bound : ClaimGrounds) =>
        claim.1 = bound.1 ∧ validateSystemClaim library (kindsOf entries) claim = .ok bound.2)
        (systemClaims entries) validated ∧
      obligations = obligationsOf entries validated := by
  cases document with
  | dict manifest =>
    have ids : ∀ entries, (extend ⟨[],[]⟩ entries).kinds.map Prod.fst = entries.map idOf :=
      fun entries => extend_ids ⟨[],[]⟩ entries
    simp only [loadManifest, bind_ok, pure_ok, declareAll_ok]
    constructor
    · rintro ⟨_,⟨entries,read,distinct,rfl⟩,validated,each,rfl⟩
      rw [mapM_ok] at each
      refine ⟨manifest,entries,validated,rfl,read,distinct,?_,?_⟩
      · exact each.imp (fun _ _ h => validatedClaim_ok.mp h)
      · rw [ids]
        rfl
    · rintro ⟨_,entries,validated,same,read,distinct,each,rfl⟩
      obtain rfl := PyData.dict.inj same
      refine ⟨_,⟨entries,read,distinct,rfl⟩,validated,?_,?_⟩
      · rw [mapM_ok]
        exact each.imp (fun _ _ h => validatedClaim_ok.mpr h)
      · rw [ids]
        rfl
  | _ => simp [loadManifest]

/-- Obligations are named once, each system claim declares what it rests on, and that is
no system claim. -/
structure Flat (obligations : Obligations) : Prop where
  required : obligations.required = obligations.kinds.map Prod.fst
  distinct : obligations.required.Nodup
  claims : obligations.depends.map Prod.fst =
    (obligations.kinds.filter (fun entry => entry.2 = .systemClaim)).map Prod.fst
  witnesses : obligations.evidence.map Prod.fst = obligations.depends.map Prod.fst
  grounds : ∀ entry ∈ obligations.depends, ∀ name ∈ entry.2, ∃ kind,
    mapGet obligations.kinds name = some kind ∧ kind ≠ .systemClaim

theorem systemClaims_ids (entries : List KindedEntry) : (systemClaims entries).map Prod.fst =
    ((kindsOf entries).filter (fun entry => entry.2 = .systemClaim)).map Prod.fst := by
  simp [systemClaims, kindsOf, idOf, List.filter_map, Function.comp_def]

theorem validated_ids {claims : List (PyString × PyFields)} {validated : List ClaimGrounds}
    (h : List.Forall₂ (fun claim bound => claim.1 = bound.1) claims validated) :
    claims.map Prod.fst = validated.map Prod.fst := by
  induction h with
  | nil => rfl
  | cons head _ ih => rw [List.map_cons, List.map_cons, head, ih]

theorem loadManifest_flat (h : loadManifest library document = .ok obligations) :
    Flat obligations := by
  obtain ⟨manifest,entries,validated,rfl,read,distinct,each,rfl⟩ := loadManifest_ok.mp h
  constructor
  · simp [obligationsOf, kindsOf, Function.comp_def]
  · exact distinct
  · calc (obligationsOf entries validated).depends.map Prod.fst
      _ = validated.map Prod.fst := by simp [obligationsOf, Function.comp_def]
      _ = (systemClaims entries).map Prod.fst := (validated_ids (each.imp (fun _ _ h => h.1))).symm
      _ = _ := systemClaims_ids entries
  · simp [obligationsOf, Function.comp_def]
  · intro entry member name rests
    obtain ⟨bound,hb,rfl⟩ := List.mem_map.mp member
    obtain ⟨claim,_,_,valid⟩ := forall₂_mem_right each hb
    exact (validateSystemClaim_ok.mp valid).2.1 name rests

end Loading

end GateManifest

end EvidenceV4
