import EvidenceV4.GateManifest

/-!
# The manifest as the dashboard reads it

The dashboard leaves the validation of a manifest to the gate. It reads the same
ids and kinds, and keeps from each list of a system claim the names that are not
blank, once each. What it accepts beyond the gate is what its system claims list:
names outside the grammars, repeated names, and dependencies that are undeclared
or are system claims themselves.
-/

set_option autoImplicit false

namespace EvidenceV4

namespace CoverageDashboard

open CheckedExcept
open CheckerJson (PyString points)
open GateManifest
open PolicyDocument (mapGet)
open PythonData

section Loader

variable (library : Library)

def keepId (claim field : PyString) (ids : List PyString) (entry : PyData) :
    Except PyError (List PyString) :=
  match (textOf entry).filter (fun name => !blank name) with
  | some name => pure (if name ∈ ids then ids else ids ++ [name])
  | none => manifestError ["system_claim ",quoted library claim,": ",field,
      " contains a malformed id ",library.repr entry]

/-- The ids of a list in declared order, without repetition. -/
def idList (claim field : PyString) (value : PyData) : Except PyError (List PyString) :=
  match value with
  | .list (first :: rest) => (first :: rest).foldlM (keepId library claim field) []
  | _ => manifestError ["system_claim ",quoted library claim,": ",field," is not a nonempty array"]

def usableEntry (place : PyString) (item : PyData) : Except PyError (PyString × PyFields) :=
  match (textOf (lookup item "id")).filter (fun name => !blank name) with
  | some name => do
    checkId library place name
    pure (name,(fieldsOf item).getD [])
  | none => manifestError [place," declares no usable id"]

structure Enrolled where
  kinds : List (PyString × ObligationKind)
  claims : List ClaimGrounds

def groundsOf (claim : PyString × PyFields) : Except PyError (List PyString × List PyString) := do
  let depends ← idList library claim.1 "depends_on" (get claim.2 "depends_on")
  let evidence ← idList library claim.1 "required_evidence" (get claim.2 "required_evidence")
  pure (depends,evidence)

def enrollClaim (kind : ObligationKind) (claims : List ClaimGrounds)
    (entry : PyString × PyFields) : Except PyError (List ClaimGrounds) :=
  if kind = .systemClaim then do
    let grounds ← groundsOf library entry
    pure (claims ++ [(entry.1,grounds)])
  else pure claims

def enrollEntry (collection : PyString) (kind : ObligationKind) (enrolled : Enrolled)
    (entry : PyString × PyFields) : Except PyError Enrolled := do
  checkFresh library collection enrolled.kinds entry.1
  let claims ← enrollClaim library kind enrolled.claims entry
  pure ⟨enrolled.kinds ++ [(entry.1,kind)],claims⟩

def enroll (collection : PyString × ObligationKind) (enrolled : Enrolled) (item : PyData × ℕ) :
    Except PyError Enrolled := do
  let entry ← usableEntry library (entryAt collection.1 item.2) item.1
  enrollEntry library collection.1 collection.2 enrolled entry

def enrollCollection (manifest : PyFields) (enrolled : Enrolled)
    (collection : PyString × ObligationKind) : Except PyError Enrolled := do
  let raw ← entriesIn manifest collection.1
  raw.zipIdx.foldlM (enroll library collection) enrolled

/-- `load_manifest` of the dashboard, on the decoded document. -/
def loadManifest (document : PyData) : Except PyError Obligations :=
  match document with
  | .dict manifest => do
    let enrolled ← collections.foldlM (enrollCollection library manifest) ⟨[],[]⟩
    pure ⟨enrolled.kinds.map Prod.fst,enrolled.kinds,
      enrolled.claims.map (fun claim => (claim.1,claim.2.2)),
      enrolled.claims.map (fun claim => (claim.1,claim.2.1))⟩
  | _ => manifestError ["manifest is not an object"]

end Loader

section Entries

variable {library : Library} {manifest : PyFields}

theorem spelled_written {marks name : PyString} (h : spelled marks name = true) :
    blank name = false := by
  cases name with
  | nil => cases h
  | cons c cs =>
    have first : alphanumeric c = true := (Bool.and_eq_true_iff.mp h).1
    have solid : isSpace c = false := by
      simp only [alphanumeric, Bool.or_eq_true, Bool.and_eq_true, decide_eq_true_eq] at first
      simp only [isSpace, Bool.or_eq_false_iff, Bool.and_eq_false_iff, decide_eq_false_iff_not,
        beq_eq_false_iff_ne]
      omega
    simp [blank, solid]

theorem checkId_ok {place name : PyString} : checkId library place name = .ok ⟨⟩ ↔
    obligationId name = true ∧ producerClaimId name = true := by
  simp [checkId]

/-- Dashboard and gate read the same entries. -/
theorem usableEntry_ok {place : PyString} {item : PyData} {entry : PyString × PyFields} :
    usableEntry library place item = .ok entry ↔ obligationEntry library place item = .ok entry := by
  cases item with
  | dict fields =>
    cases named : get fields "id" with
    | str name =>
      by_cases empty : blank name = true
      · have malformed : obligationId name = false := by
          by_contra spelled
          have written := spelled_written (Bool.not_eq_false _ ▸ spelled)
          rw [empty] at written
          cases written
        simp [usableEntry, obligationEntry, lookup, named, textOf, Option.filter, empty,
          checkId_ok, malformed]
      · simp [usableEntry, obligationEntry, lookup, named, textOf, Option.filter, empty, fieldsOf]
    | _ => simp [usableEntry, obligationEntry, lookup, named, textOf]
  | _ => simp [usableEntry, obligationEntry, lookup, textOf]

theorem enroll_split {α β σ ε : Type} {parse : α → Except ε β} {use : σ → β → Except ε σ}
    {xs : List α} {s s' : σ} :
    xs.foldlM (fun s x => parse x >>= use s) s = .ok s' ↔
      ∃ ys, xs.mapM parse = .ok ys ∧ ys.foldlM use s = .ok s' := by
  induction xs generalizing s with
  | nil => simp
  | cons x xs ih =>
    simp only [List.foldlM_cons, List.mapM_cons, bind_ok, pure_ok, ih]
    constructor
    · rintro ⟨m,⟨y,parsed,used⟩,ys,rest,later⟩
      refine ⟨y :: ys,⟨y,parsed,ys,rest,rfl⟩,?_⟩
      rw [List.foldlM_cons, bind_ok]
      exact ⟨m,used,later⟩
    · rintro ⟨_,⟨y,parsed,ys,rest,rfl⟩,later⟩
      rw [List.foldlM_cons, bind_ok] at later
      obtain ⟨m,used,later⟩ := later
      exact ⟨m,⟨y,parsed,used⟩,ys,rest,later⟩

end Entries

section Enrolling

variable {library : Library} {manifest : PyFields} {enrolled enrolled' : Enrolled}

/-- A system claim with the names that the dashboard keeps of its lists. -/
def groundedClaim (library : Library) (claim : PyString × PyFields) : Except PyError ClaimGrounds := do
  let grounds ← groundsOf library claim
  pure (claim.1,grounds)

/-- The entries are new to the state, and it grows by their kinds and their claims. -/
def Enrolls (library : Library) (enrolled : Enrolled) (entries : List KindedEntry)
    (enrolled' : Enrolled) : Prop :=
  (enrolled.kinds.map Prod.fst).Disjoint (entries.map idOf) ∧ (entries.map idOf).Nodup ∧
    ∃ added, (systemClaims entries).mapM (groundedClaim library) = .ok added ∧
      enrolled' = ⟨enrolled.kinds ++ kindsOf entries,enrolled.claims ++ added⟩

theorem kindsOf_ids (entries : List KindedEntry) : (kindsOf entries).map Prod.fst =
    entries.map idOf := by
  simp [kindsOf, Function.comp_def]

theorem enrolls_nil : Enrolls library enrolled [] enrolled' ↔ enrolled' = enrolled := by
  simp only [Enrolls, systemClaims, kindsOf, List.filter_nil, List.map_nil, List.mapM_nil, pure_ok,
    List.append_nil, List.disjoint_nil_right, List.nodup_nil, true_and]
  constructor
  · rintro ⟨_,rfl,rfl⟩
    simp
  · rintro rfl
    exact ⟨[],rfl,by simp⟩

theorem enrolls_append {first second : List KindedEntry} :
    Enrolls library enrolled (first ++ second) enrolled' ↔ ∃ m,
      Enrolls library enrolled first m ∧ Enrolls library m second enrolled' := by
  have claims : systemClaims (first ++ second) = systemClaims first ++ systemClaims second := by
    simp [systemClaims]
  have kinds : kindsOf (first ++ second) = kindsOf first ++ kindsOf second := by
    simp [kindsOf]
  simp only [Enrolls, claims, kinds, List.mapM_append, bind_ok, pure_ok, List.map_append]
  constructor
  · rintro ⟨apart,distinct,_,⟨added,grounded,added',grounded',rfl⟩,rfl⟩
    obtain ⟨apart₁,apart₂⟩ := List.disjoint_append_right.mp apart
    obtain ⟨distinct₁,distinct₂,separate⟩ := List.nodup_append'.mp distinct
    refine ⟨_,⟨apart₁,distinct₁,added,grounded,rfl⟩,?_,distinct₂,added',grounded',by simp⟩
    rw [List.map_append, kindsOf_ids]
    exact List.disjoint_append_left.mpr ⟨apart₂,separate⟩
  · rintro ⟨_,⟨apart,distinct,added,grounded,rfl⟩,apart',distinct',added',grounded',rfl⟩
    rw [List.map_append, kindsOf_ids, List.disjoint_append_left] at apart'
    exact ⟨List.disjoint_append_right.mpr ⟨apart,apart'.1⟩,distinct.append distinct' apart'.2,_,
      ⟨added,grounded,added',grounded',rfl⟩,by simp⟩

theorem enrollEntry_ok {collection : PyString × ObligationKind} {entry : PyString × PyFields} :
    enrollEntry library collection.1 collection.2 enrolled entry = .ok enrolled' ↔
      Enrolls library enrolled [(entry,collection.2)] enrolled' := by
  simp only [enrollEntry, Enrolls, bind_ok, checkFresh_ok, exists_unit, pure_ok, List.map_cons,
    List.map_nil, List.disjoint_singleton, List.nodup_singleton, true_and, idOf, kindsOf]
  apply and_congr_right
  intro _
  by_cases system : collection.2 = .systemClaim
  · simp only [enrollClaim, system, if_true, systemClaims, bind_ok, pure_ok, decide_true,
      List.filter_cons_of_pos, List.filter_nil, List.map_cons, List.map_nil, List.mapM_cons,
      List.mapM_nil, groundedClaim]
    constructor
    · rintro ⟨_,⟨grounds,read,rfl⟩,rfl⟩
      exact ⟨_,⟨_,⟨grounds,read,rfl⟩,[],rfl,rfl⟩,rfl⟩
    · rintro ⟨_,⟨_,⟨grounds,read,rfl⟩,_,rfl,rfl⟩,rfl⟩
      exact ⟨_,⟨grounds,read,rfl⟩,rfl⟩
  · have none : systemClaims [(entry,collection.2)] = [] := by
      simp [systemClaims, system]
    simp only [none, enrollClaim, system, if_false, pure_ok, List.mapM_nil]
    constructor
    · rintro ⟨_,rfl,rfl⟩
      exact ⟨[],rfl,by simp⟩
    · rintro ⟨_,rfl,rfl⟩
      exact ⟨_,rfl,by simp⟩

theorem enrollEntries_ok {collection : PyString × ObligationKind}
    {entries : List (PyString × PyFields)} :
    entries.foldlM (enrollEntry library collection.1 collection.2) enrolled = .ok enrolled' ↔
      Enrolls library enrolled (entries.map (fun entry => (entry,collection.2))) enrolled' := by
  induction entries generalizing enrolled with
  | nil => rw [List.foldlM_nil, pure_ok, List.map_nil, enrolls_nil, eq_comm]
  | cons entry entries ih =>
    change _ ↔ Enrolls library enrolled ([(entry,collection.2)] ++ entries.map _) enrolled'
    rw [List.foldlM_cons, bind_ok, enrolls_append]
    simp only [enrollEntry_ok, ih]

theorem enrollCollection_ok {collection : PyString × ObligationKind} :
    enrollCollection library manifest enrolled collection = .ok enrolled' ↔
      ∃ entries, kindedEntries library manifest collection = .ok entries ∧
        Enrolls library enrolled entries enrolled' := by
  have same : ∀ raw : List PyData, ∀ entries,
      raw.zipIdx.mapM (fun item => usableEntry library (entryAt collection.1 item.2) item.1) =
        .ok entries ↔
      raw.zipIdx.mapM (fun item => obligationEntry library (entryAt collection.1 item.2) item.1) =
        .ok entries := by
    intro raw entries
    simp only [mapM_ok, usableEntry_ok]
  simp only [enrollCollection, kindedEntries, obligationEntries, bind_ok, pure_ok]
  constructor
  · rintro ⟨raw,read,folded⟩
    obtain ⟨entries,parsed,used⟩ := enroll_split.mp folded
    exact ⟨_,⟨entries,⟨raw,read,(same raw entries).mp parsed⟩,rfl⟩,enrollEntries_ok.mp used⟩
  · rintro ⟨_,⟨entries,⟨raw,read,parsed⟩,rfl⟩,used⟩
    exact ⟨raw,read,enroll_split.mpr ⟨entries,(same raw entries).mpr parsed,
      enrollEntries_ok.mpr used⟩⟩

theorem enrollCollections_ok {parts : List (PyString × ObligationKind)} :
    parts.foldlM (enrollCollection library manifest) enrolled = .ok enrolled' ↔
      ∃ entries, parts.mapM (kindedEntries library manifest) = .ok entries ∧
        Enrolls library enrolled entries.flatten enrolled' := by
  induction parts generalizing enrolled with
  | nil =>
    simp only [List.foldlM_nil, List.mapM_nil, pure_ok]
    constructor
    · rintro rfl
      exact ⟨[],rfl,enrolls_nil.mpr rfl⟩
    · rintro ⟨_,rfl,rest⟩
      exact (enrolls_nil.mp rest).symm
  | cons part parts ih =>
    simp only [List.foldlM_cons, List.mapM_cons, bind_ok, pure_ok, enrollCollection_ok, ih]
    constructor
    · rintro ⟨m,⟨entries,read,now⟩,others,rest,later⟩
      refine ⟨_,⟨entries,read,others,rest,rfl⟩,?_⟩
      exact enrolls_append.mpr ⟨m,now,later⟩
    · rintro ⟨_,⟨entries,read,others,rest,rfl⟩,whole⟩
      obtain ⟨m,now,later⟩ := enrolls_append.mp whole
      exact ⟨m,⟨entries,read,now⟩,others,rest,later⟩

/-- The dashboard loads a document when its entries are readable, their ids differ and each
list of a system claim names something. -/
theorem loadManifest_ok {document : PyData} {obligations : Obligations} :
    loadManifest library document = .ok obligations ↔
      ∃ manifest entries grounded, document = .dict manifest ∧
        allEntries library manifest = .ok entries ∧ (entries.map idOf).Nodup ∧
        (systemClaims entries).mapM (groundedClaim library) = .ok grounded ∧
        obligations = obligationsOf entries grounded := by
  cases document with
  | dict manifest =>
    simp only [loadManifest, allEntries, bind_ok, pure_ok, enrollCollections_ok]
    constructor
    · rintro ⟨_,⟨parts,read,_,distinct,added,grounded,rfl⟩,rfl⟩
      refine ⟨manifest,_,added,rfl,⟨parts,read,rfl⟩,distinct,grounded,?_⟩
      simp [obligationsOf, kindsOf_ids]
    · rintro ⟨_,_,added,same,⟨parts,read,rfl⟩,distinct,grounded,rfl⟩
      obtain rfl := PyData.dict.inj same
      refine ⟨_,⟨parts,read,List.disjoint_nil_left _,distinct,added,grounded,rfl⟩,?_⟩
      simp [obligationsOf, kindsOf_ids]
  | _ => simp [loadManifest]

end Enrolling

section Agreement

variable {library : Library} {manifest : PyFields} {claim field : PyString}

/-- The entries of a collection as they stand in the document. -/
def items (manifest : PyFields) (collection : PyString) : List PyData :=
  (entriesOf (get manifest collection)).getD []

/-- An invariant or a witness has the id. -/
def Grounds (manifest : PyFields) (name : PyString) : Prop :=
  ∃ collection : PyString, (collection = "invariants" ∨ collection = "witnesses") ∧
    ∃ item ∈ items manifest collection, lookup item "id" = .str name

/-- What the gate asks of a system claim beyond the dashboard. -/
structure SoundClaim (manifest : PyFields) (item : PyData) : Prop where
  depends : ∃ names : List PyString, lookup item "depends_on" = .list (names.map .str) ∧ names.Nodup ∧
    ∀ name ∈ names, Grounds manifest name
  evidence : ∃ tools : List PyString, lookup item "required_evidence" = .list (tools.map .str) ∧ tools.Nodup ∧
    ∀ tool ∈ tools, evidenceToolId tool = true

def SoundManifest (document : PyData) : Prop :=
  ∀ manifest, document = .dict manifest →
    ∀ item ∈ items manifest "system_claims", SoundClaim manifest item

theorem keepId_written {ids : List PyString} {name : PyString} (solid : blank name = false)
    (fresh : name ∉ ids) : keepId library claim field ids (.str name) = .ok (ids ++ [name]) := by
  have kept : (textOf (.str name)).filter (fun name => !blank name) = some name := by
    simp [textOf, Option.filter, solid]
  simp only [keepId, kept, if_neg fresh]
  rfl

theorem keepIds_distinct {names ids : List PyString} (solid : ∀ name ∈ names, blank name = false)
    (distinct : names.Nodup) (apart : ids.Disjoint names) :
    (names.map PyData.str).foldlM (keepId library claim field) ids = .ok (ids ++ names) := by
  induction names generalizing ids with
  | nil => simp [pure, Except.pure]
  | cons name names ih =>
    obtain ⟨fresh,apart⟩ := List.disjoint_cons_right.mp apart
    obtain ⟨new,distinct⟩ := List.nodup_cons.mp distinct
    obtain ⟨now,solid⟩ := List.forall_mem_cons.mp solid
    have further : (ids ++ [name]).Disjoint names :=
      List.disjoint_append_left.mpr ⟨apart,List.singleton_disjoint.mpr new⟩
    rw [List.map_cons, List.foldlM_cons, keepId_written now fresh, List.append_cons ids name names]
    exact ih solid distinct further

/-- Distinct names that are not blank are read as they stand. -/
theorem idList_distinct {names : List PyString} (filled : names ≠ [])
    (solid : ∀ name ∈ names, blank name = false) (distinct : names.Nodup) :
    idList library claim field (.list (names.map .str)) = .ok names := by
  cases names with
  | nil => exact absurd rfl filled
  | cons name names => exact keepIds_distinct solid distinct (List.disjoint_nil_left _)

theorem idList_filled {names ids : List PyString}
    (h : idList library claim field (.list (names.map .str)) = .ok ids) : names ≠ [] := by
  rintro rfl
  simp [idList] at h

/-- On distinct names of a grammar both readers of a list agree. -/
theorem idList_agree {value : PyData} {names : List PyString} {marks : PyString} :
    GateManifest.idList library claim field value (spelled marks) = .ok names ↔
      idList library claim field value = .ok names ∧ value = .list (names.map .str) ∧
        names.Nodup ∧ ∀ name ∈ names, spelled marks name = true := by
  rw [idList_ok]
  constructor
  · rintro ⟨rfl,filled,each,distinct⟩
    exact ⟨idList_distinct filled (fun name member => spelled_written (each name member)) distinct,
      rfl,distinct,each⟩
  · rintro ⟨read,rfl,distinct,each⟩
    exact ⟨rfl,idList_filled read,each,distinct⟩

theorem obligationEntry_ok {place : PyString} {item : PyData} {entry : PyString × PyFields} :
    obligationEntry library place item = .ok entry ↔ item = .dict entry.2 ∧
      get entry.2 "id" = .str entry.1 ∧ obligationId entry.1 = true ∧
      producerClaimId entry.1 = true := by
  cases item with
  | dict fields =>
    cases named : get fields "id" with
    | str name =>
      simp only [obligationEntry, named, bind_ok, exists_unit, checkId_ok, pure_ok,
        PyData.dict.injEq]
      constructor
      · rintro ⟨spelled,rfl⟩
        exact ⟨rfl,named,spelled⟩
      · rintro ⟨rfl,same,spelled⟩
        obtain rfl := PyData.str.inj (named.symm.trans same)
        exact ⟨spelled,rfl⟩
    | _ =>
      simp only [obligationEntry, named, manifestError_ok, PyData.dict.injEq, false_iff]
      rintro ⟨rfl,same,_⟩
      rw [named] at same
      cases same
  | _ => simp [obligationEntry]

theorem obligationEntries_items {collection : PyString} {entries : List (PyString × PyFields)}
    (h : obligationEntries library manifest collection = .ok entries) :
    items manifest collection = entries.map (fun entry => PyData.dict entry.2) ∧
      ∀ entry ∈ entries, get entry.2 "id" = .str entry.1 ∧ obligationId entry.1 = true := by
  rw [obligationEntries, bind_ok] at h
  obtain ⟨raw,read,each⟩ := h
  have same : items manifest collection = raw := by
    unfold entriesIn at read
    unfold items PythonData.get
    cases found : mapGet manifest collection with
    | none =>
      simp only [found, Option.getD_none, pure_ok] at read
      subst read
      rfl
    | some value =>
      cases value with
      | list entries =>
        simp only [found, Option.getD_some, pure_ok] at read
        subst read
        rfl
      | _ => simp [found] at read
  rw [mapM_ok] at each
  constructor
  · rw [same]
    have paired : ∀ (k : ℕ) (raw : List PyData) (entries : List (PyString × PyFields)),
        List.Forall₂ (fun item entry => obligationEntry library (entryAt collection item.2) item.1 =
          .ok entry) (raw.zipIdx k) entries →
        raw = entries.map (fun entry => PyData.dict entry.2) := by
      intro k raw
      induction raw generalizing k with
      | nil =>
        intro entries all
        cases all
        rfl
      | cons item raw ih =>
        intro entries all
        cases all with
        | cons head tail =>
          rw [List.map_cons, ← ih _ _ tail, ← (obligationEntry_ok.mp head).1]
    exact paired 0 raw entries each
  · intro entry member
    obtain ⟨item,_,read⟩ := forall₂_mem_right each member
    exact ⟨(obligationEntry_ok.mp read).2.1,(obligationEntry_ok.mp read).2.2.1⟩

/-- The entries by collection. -/
theorem allEntries_parts {entries : List KindedEntry}
    (h : allEntries library manifest = .ok entries) : ∃ invariants witnesses claims,
      obligationEntries library manifest "invariants" = .ok invariants ∧
      obligationEntries library manifest "witnesses" = .ok witnesses ∧
      obligationEntries library manifest "system_claims" = .ok claims ∧
      entries = invariants.map (fun entry => (entry,.invariant)) ++
        (witnesses.map (fun entry => (entry,.witness)) ++
          claims.map (fun entry => (entry,.systemClaim))) := by
  simp only [allEntries, collections, List.mapM_cons, List.mapM_nil, kindedEntries, bind_ok,
    pure_ok] at h
  obtain ⟨_,⟨_,⟨invariants,first,rfl⟩,_,⟨_,⟨witnesses,second,rfl⟩,_,⟨_,⟨claims,third,rfl⟩,_,rfl,
    rfl⟩,rfl⟩,rfl⟩,rfl⟩ := h
  exact ⟨invariants,witnesses,claims,first,second,third,by simp⟩

theorem systemClaims_items {entries : List KindedEntry}
    (h : allEntries library manifest = .ok entries) :
    (systemClaims entries).map (fun claim => PyData.dict claim.2) =
      items manifest "system_claims" := by
  obtain ⟨invariants,witnesses,claims,_,_,third,rfl⟩ := allEntries_parts h
  rw [(obligationEntries_items third).1]
  simp [systemClaims, List.filter_map, Function.comp_def]

theorem items_named {collection name : PyString} {entries : List (PyString × PyFields)}
    (h : obligationEntries library manifest collection = .ok entries) :
    (∃ item ∈ items manifest collection, lookup item "id" = .str name) ↔
      name ∈ entries.map Prod.fst := by
  obtain ⟨same,named⟩ := obligationEntries_items h
  rw [same]
  simp only [List.mem_map]
  constructor
  · rintro ⟨_,⟨entry,member,rfl⟩,shown⟩
    exact ⟨entry,member,PyData.str.inj ((named entry member).1.symm.trans shown)⟩
  · rintro ⟨entry,member,rfl⟩
    exact ⟨_,⟨entry,member,rfl⟩,(named entry member).1⟩

theorem grounds_named {invariants witnesses : List (PyString × PyFields)} {name : PyString}
    (first : obligationEntries library manifest "invariants" = .ok invariants)
    (second : obligationEntries library manifest "witnesses" = .ok witnesses) :
    Grounds manifest name ↔ name ∈ invariants.map Prod.fst ∨ name ∈ witnesses.map Prod.fst := by
  rw [← items_named first, ← items_named second]
  constructor
  · rintro ⟨_,rfl | rfl,found⟩
    · exact .inl found
    · exact .inr found
  · rintro (found | found)
    · exact ⟨_,.inl rfl,found⟩
    · exact ⟨_,.inr rfl,found⟩

/-- A name is that of an invariant or a witness exactly when the kinds say so. -/
theorem kindsOf_grounds {entries : List KindedEntry} {name : PyString}
    (h : allEntries library manifest = .ok entries) (distinct : (entries.map idOf).Nodup) :
    (∃ kind, mapGet (kindsOf entries) name = some kind ∧ kind ≠ .systemClaim) ↔
      Grounds manifest name := by
  rw [← kindsOf_ids] at distinct
  obtain ⟨invariants,witnesses,claims,first,second,_,rfl⟩ := allEntries_parts h
  rw [grounds_named first second]
  constructor
  · rintro ⟨kind,found,plain⟩
    have member := PolicyDocument.mapGet_mem found
    simp only [kindsOf, List.map_append, List.map_map, List.mem_append, List.mem_map,
      Function.comp_apply, idOf, Prod.mk.injEq] at member
    rcases member with ⟨entry,inside,rfl,rfl⟩ | ⟨entry,inside,rfl,rfl⟩ | ⟨entry,inside,rfl,rfl⟩
    · exact .inl (List.mem_map_of_mem inside)
    · exact .inr (List.mem_map_of_mem inside)
    · exact absurd rfl plain
  · rintro (found | found)
    · obtain ⟨entry,inside,rfl⟩ := List.mem_map.mp found
      refine ⟨.invariant,PolicyDocument.mapGet_of_mem distinct ?_,by decide⟩
      exact List.mem_map.mpr ⟨(entry,.invariant),List.mem_append_left _ (List.mem_map_of_mem inside),
        rfl⟩
    · obtain ⟨entry,inside,rfl⟩ := List.mem_map.mp found
      refine ⟨.witness,PolicyDocument.mapGet_of_mem distinct ?_,by decide⟩
      exact List.mem_map.mpr ⟨(entry,.witness),List.mem_append_right _
        (List.mem_append_left _ (List.mem_map_of_mem inside)),rfl⟩

theorem grounds_spelled {entries : List KindedEntry} {name : PyString}
    (h : allEntries library manifest = .ok entries) (grounds : Grounds manifest name) :
    obligationId name = true := by
  obtain ⟨invariants,witnesses,claims,first,second,_,rfl⟩ := allEntries_parts h
  rcases (grounds_named first second).mp grounds with found | found
  · obtain ⟨entry,inside,rfl⟩ := List.mem_map.mp found
    exact ((obligationEntries_items first).2 entry inside).2
  · obtain ⟨entry,inside,rfl⟩ := List.mem_map.mp found
    exact ((obligationEntries_items second).2 entry inside).2

/-- A claim is valid for the gate when the dashboard reads it and it is sound. -/
theorem validatedClaim_agree {entries : List KindedEntry} {item : PyString × PyFields}
    {bound : ClaimGrounds} (h : allEntries library manifest = .ok entries)
    (distinct : (entries.map idOf).Nodup) :
    validatedClaim library (kindsOf entries) item = .ok bound ↔
      groundedClaim library item = .ok bound ∧ SoundClaim manifest (.dict item.2) := by
  have inGrammar : ∀ value names, GateManifest.idList library item.1 "depends_on" value
      obligationId = .ok names ↔ idList library item.1 "depends_on" value = .ok names ∧
        value = .list (names.map .str) ∧ names.Nodup ∧ ∀ name ∈ names, obligationId name = true :=
    fun _ _ => idList_agree
  have asTools : ∀ value names, GateManifest.idList library item.1 "required_evidence" value
      evidenceToolId = .ok names ↔ idList library item.1 "required_evidence" value = .ok names ∧
        value = .list (names.map .str) ∧ names.Nodup ∧ ∀ name ∈ names, evidenceToolId name = true :=
    fun _ _ => idList_agree
  simp only [validatedClaim, validateSystemClaim, groundedClaim, groundsOf, bind_ok, pure_ok,
    forM_ok, exists_unit, checkDependency_ok, kindsOf_grounds h distinct, inGrammar, asTools]
  constructor
  · rintro ⟨_,⟨depends,⟨read,listed,once,_⟩,grounds,evidence,⟨read',listed',once',tools⟩,rfl⟩,rfl⟩
    refine ⟨⟨_,⟨depends,read,evidence,read',rfl⟩,rfl⟩,?_,?_⟩
    · exact ⟨depends,listed,once,grounds⟩
    · exact ⟨evidence,listed',once',tools⟩
  · rintro ⟨⟨_,⟨depends,read,evidence,read',rfl⟩,rfl⟩,⟨names,listed,once,grounds⟩,tools,listed',once',
      spelled⟩
    have listed₁ : get item.2 "depends_on" = .list (names.map .str) := listed
    have listed₂ : get item.2 "required_evidence" = .list (tools.map .str) := listed'
    have grammar : ∀ name ∈ names, obligationId name = true :=
      fun name member => grounds_spelled h (grounds name member)
    rw [listed₁] at read
    rw [listed₂] at read'
    have kept : depends = names := by
      rw [idList_distinct (idList_filled read)
        (fun name member => spelled_written (grammar name member)) once] at read
      exact (Except.ok.inj read).symm
    have kept' : evidence = tools := by
      rw [idList_distinct (idList_filled read')
        (fun name member => spelled_written (spelled name member)) once'] at read'
      exact (Except.ok.inj read').symm
    subst kept kept'
    rw [listed₁, listed₂]
    exact ⟨_,⟨_,⟨read,rfl,once,grammar⟩,grounds,_,⟨read',rfl,once',spelled⟩,rfl⟩,rfl⟩

/-- The gate loads the documents that the dashboard loads and whose system claims are sound,
and reads the same of them. -/
theorem loaders_agree {document : PyData} {obligations : Obligations} :
    GateManifest.loadManifest library document = .ok obligations ↔
      loadManifest library document = .ok obligations ∧ SoundManifest document := by
  rw [GateManifest.loadManifest_ok, loadManifest_ok]
  constructor
  · rintro ⟨manifest,entries,validated,rfl,read,distinct,each,rfl⟩
    have both : List.Forall₂ (fun item bound => groundedClaim library item = .ok bound ∧
        SoundClaim manifest (.dict item.2)) (systemClaims entries) validated := by
      apply each.imp
      intro item bound valid
      exact (validatedClaim_agree read distinct).mp (validatedClaim_ok.mpr valid)
    constructor
    · exact ⟨manifest,entries,validated,rfl,read,distinct,
        (mapM_ok _ _ _).mpr (both.imp (fun _ _ h => h.1)),rfl⟩
    · intro manifest' same item member
      obtain rfl := PyData.dict.inj same
      rw [← systemClaims_items read, List.mem_map] at member
      obtain ⟨claim,inside,rfl⟩ := member
      obtain ⟨bound,_,_,sound⟩ := forall₂_mem_left both inside
      exact sound
  · rintro ⟨⟨manifest,entries,grounded,rfl,read,distinct,each,rfl⟩,sound⟩
    refine ⟨manifest,entries,grounded,rfl,read,distinct,?_,rfl⟩
    rw [mapM_ok] at each
    have sound' : ∀ item ∈ systemClaims entries, SoundClaim manifest (.dict item.2) := by
      intro item inside
      apply sound manifest rfl
      rw [← systemClaims_items read]
      exact List.mem_map_of_mem inside
    have both := (List.forall₂_and_left _ _).mpr ⟨sound',each⟩
    apply both.imp
    rintro item bound ⟨fits,grounds⟩
    exact validatedClaim_ok.mp ((validatedClaim_agree read distinct).mpr ⟨grounds,fits⟩)

end Agreement

end CoverageDashboard

end EvidenceV4
