import EvidenceV4.DashboardManifest

/-!
# The manifest as the producers read it

Each producer walks the collections before it runs anything. Both ask for usable
and distinct ids and take a collection that is null for an absent one. The command
producer reads no more than that, the policy loader also resolves what a system
claim lists. The gate refuses a null collection and every unsound system claim.
-/

set_option autoImplicit false

namespace EvidenceV4

namespace ProducerManifest

open CheckedExcept
open CheckerJson (PyString points)
open CoverageDashboard (SoundClaim SoundManifest)
open GateManifest
open PolicyDocument (mapGet mapGet_mem mapGet_isSome mapGet_of_mem)
open PythonData

abbrev Producer := Except PyString

/-- How the host shows a value, or its absence, in a message. -/
structure Host where
  stringify : Option PyData → PyString
  string : Option PyData → PyString

section Walk

/-- The messages of a producer, and what it asks of an entry with a new id. -/
structure Reader where
  notArray : PyString → PyString
  notObject : PyString → ℕ → PyString
  malformed : PyString → ℕ → Option PyData → PyString
  repeated : PyString → ℕ → PyString → PyString
  admits : PyString × PyFields → Producer Unit

/-- The entries of a collection, where null stands for none. -/
def rawEntries (manifest : PyFields) (collection : PyString) : Option (List PyData) :=
  match mapGet manifest collection with
  | none => some []
  | some .none => some []
  | some (.list raw) => some raw
  | some _ => none

def readCollection (reader : Reader) (manifest : PyFields) (collection : PyString) :
    Producer (List PyData) :=
  match rawEntries manifest collection with
  | some raw => pure raw
  | none => throw (reader.notArray collection)

def readId (reader : Reader) (collection : PyString) (index : ℕ) (fields : PyFields) :
    Producer (PyString × PyFields) :=
  match (textOf (get fields "id")).filter producerClaimId with
  | some name => pure (name,fields)
  | none => throw (reader.malformed collection index (mapGet fields "id"))

def readEntry (reader : Reader) (collection : PyString) (item : PyData × ℕ) :
    Producer (PyString × PyFields) :=
  match item.1 with
  | .dict fields => readId reader collection item.2 fields
  | _ => throw (reader.notObject collection item.2)

def addEntry (reader : Reader) (collection : PyString × ObligationKind)
    (entries : List KindedEntry) (item : PyData × ℕ) : Producer (List KindedEntry) := do
  let entry ← readEntry reader collection.1 item
  check (entry.1 ∉ entries.map idOf) (reader.repeated collection.1 item.2 entry.1)
  reader.admits entry
  pure (entries ++ [(entry,collection.2)])

def addCollection (reader : Reader) (manifest : PyFields) (entries : List KindedEntry)
    (collection : PyString × ObligationKind) : Producer (List KindedEntry) := do
  let raw ← readCollection reader manifest collection.1
  raw.zipIdx.foldlM (addEntry reader collection) entries

def collect (reader : Reader) (manifest : PyFields) : Producer (List KindedEntry) :=
  collections.foldlM (addCollection reader manifest) []

end Walk

section CommandProducer

variable (host : Host)

def targetReader : Reader where
  notArray collection := say ["obligation manifest ",collection," is not an array"]
  notObject collection index :=
    say ["obligation manifest ",entryAt collection index," is not an object"]
  malformed collection index name := say ["obligation manifest ",entryAt collection index," id ",
    host.stringify name," is not usable by the evidence producer"]
  repeated collection index name :=
    say ["obligation manifest ",entryAt collection index," duplicates id '",name,"'"]
  admits _ := pure ⟨⟩

structure Targets where
  ids : List PyString
  kinds : List (PyString × ObligationKind)

/-- `obligationTargets`, on the parsed document. -/
def obligationTargets (manifestPath : PyString) (document : PyData) : Producer Targets :=
  match document with
  | .dict manifest => do
    let entries ← collect (targetReader host) manifest
    check (entries.isEmpty = false) (say ["obligation manifest has no targets: ",manifestPath])
    pure ⟨entries.map idOf,kindsOf entries⟩
  | _ => throw (say ["obligation manifest is not a JSON object: ",manifestPath])

end CommandProducer

section PolicyProducer

variable (host : Host)

def admitsRequired (entry : PyString × PyFields) : Producer Unit :=
  match mapGet entry.2 "required" with
  | none => pure ⟨⟩
  | some (.bool _) => pure ⟨⟩
  | some _ => throw (say ["invalid required status: ",entry.1])

def policyReader : Reader where
  notArray collection := say ["manifest ",collection," is not an array"]
  notObject collection _ := say [collection," must be an object"]
  malformed _ _ name := say ["malformed/duplicate obligation ID: ",host.string name]
  repeated _ _ name := say ["malformed/duplicate obligation ID: ",name]
  admits := admitsRequired

/-- `entry.required !== false` -/
def requiredStatus (entry : KindedEntry) : Bool :=
  match mapGet entry.1.2 "required" with
  | some (.bool false) => false
  | _ => true

def ids (label : PyString) (grammar : PyString → Bool) (value : PyData) :
    Producer (List PyString) :=
  match (entriesOf value).bind (List.mapM textOf) with
  | some names => do
    check (names.isEmpty = false ∧ names.all grammar = true ∧ names.Nodup)
      (say [label," must be unique nonempty IDs"])
    pure names
  | none => throw (say [label," must be unique nonempty IDs"])

def checkGround (kinds : List (PyString × ObligationKind)) (claim dependency : PyString) :
    Producer Unit :=
  check (dependency ∈ kinds.map Prod.fst ∧ mapGet kinds dependency ≠ some .systemClaim)
    (say ["invalid canonical dependency: ",claim," -> ",dependency])

/-- What an entry rests on, which is nothing unless it is a system claim. -/
def groundEntry (kinds : List (PyString × ObligationKind)) (entry : KindedEntry) :
    Producer ClaimGrounds :=
  if entry.2 = .systemClaim then do
    let depends ← ids (say [idOf entry,".depends_on"]) producerClaimId
      (get entry.1.2 "depends_on")
    let evidence ← ids (say [idOf entry,".required_evidence"]) evidenceToolId
      (get entry.1.2 "required_evidence")
    forM depends (checkGround kinds (idOf entry))
    pure (idOf entry,depends,evidence)
  else pure (idOf entry,[],[])

/-- What the policy loader keeps of a manifest. -/
structure ManifestPolicy where
  kinds : List (PyString × ObligationKind)
  required : List (PyString × Bool)
  dependencies : List (PyString × List PyString)
  evidence : List (PyString × List PyString)

def policyOf (entries : List KindedEntry) (grounds : List ClaimGrounds) : ManifestPolicy :=
  ⟨kindsOf entries,entries.map (fun entry => (idOf entry,requiredStatus entry)),
    grounds.map (fun claim => (claim.1,claim.2.1)),grounds.map (fun claim => (claim.1,claim.2.2))⟩

def manifestPolicy (document : PyData) : Producer ManifestPolicy :=
  match document with
  | .dict manifest => do
    let entries ← collect (policyReader host) manifest
    check (entries.isEmpty = false) (points "manifest has no obligations")
    let grounds ← entries.mapM (groundEntry (kindsOf entries))
    pure (policyOf entries grounds)
  | _ => throw (points "manifest must be an object")

/-- A slot of a policy record with the class of the recipe it runs. -/
structure PolicySlot where
  slot : PyString
  tool : PyString
  recipeClass : PyString

structure PolicyRecord where
  claim : PyString
  required : Bool
  evidenceClass : PyString
  executions : List PolicySlot

def classes : ObligationKind → List PyString
  | .invariant => ["code-enforced","proof-discharged","bounded-checked","conformance-tested"]
  | .witness => ["test-witnessed","conformance-tested"]
  | .systemClaim =>
    ["code-enforced","proof-discharged","bounded-checked","test-witnessed","conformance-tested"]

def checkClasses (kind : ObligationKind) (record : PolicyRecord) : Producer Unit := do
  check (record.evidenceClass ∈ classes kind)
    (say ["record class incompatible: ",record.claim])
  forM record.executions (fun slot => check (slot.recipeClass ∈ classes kind)
    (say ["recipe class incompatible: ",record.claim,"/",slot.slot]))

def checkKept (bound : ManifestPolicy) (records : List PolicyRecord) (record : PolicyRecord) :
    Producer Unit := do
  forM ((mapGet bound.dependencies record.claim).getD []) (fun dependency =>
    check (dependency ∈ records.map PolicyRecord.claim)
      (say ["policy drops canonical dependency: ",record.claim,"/",dependency]))
  forM ((mapGet bound.evidence record.claim).getD []) (fun tool =>
    check (tool ∈ record.executions.map PolicySlot.tool)
      (say ["policy drops required evidence: ",record.claim,"/",tool]))

def checkRecord (bound : ManifestPolicy) (records : List PolicyRecord) (record : PolicyRecord) :
    Producer Unit :=
  match mapGet bound.kinds record.claim with
  | none => throw (say ["policy names undeclared obligation: ",record.claim])
  | some kind => do
    check (mapGet bound.required record.claim = some record.required)
      (say ["required status disagrees: ",record.claim])
    checkClasses kind record
    checkKept bound records record

/-- The part of `loadPolicy` that holds the manifest against the records of the policy. -/
def loadPolicy (records : List PolicyRecord) (document : PyData) : Producer ManifestPolicy := do
  let bound ← manifestPolicy host document
  forM records (checkRecord bound records)
  pure bound

end PolicyProducer

section Walking

variable {reader : Reader} {manifest : PyFields}

/-- An entry that the producers can write a record for. -/
def Usable (item : PyData) (entry : PyString × PyFields) : Prop :=
  item = .dict entry.2 ∧ get entry.2 "id" = .str entry.1 ∧ producerClaimId entry.1 = true

/-- The usable entries of one collection, with its kind. -/
def CollectionEntries (manifest : PyFields) (collection : PyString × ObligationKind)
    (part : List KindedEntry) : Prop :=
  ∃ raw entries, rawEntries manifest collection.1 = some raw ∧ List.Forall₂ Usable raw entries ∧
    part = entries.map (fun entry => (entry,collection.2))

/-- The entries of all collections are usable. -/
def Declares (manifest : PyFields) (entries : List KindedEntry) : Prop :=
  ∃ parts, List.Forall₂ (CollectionEntries manifest) collections parts ∧ entries = parts.flatten

/-- Further entries have new ids and are admitted. -/
def Adds (reader : Reader) (entries added entries' : List KindedEntry) : Prop :=
  (entries.map idOf).Disjoint (added.map idOf) ∧ (added.map idOf).Nodup ∧
    (∀ entry ∈ added, reader.admits entry.1 = .ok ⟨⟩) ∧ entries' = entries ++ added

theorem adds_nil {entries entries' : List KindedEntry} :
    Adds reader entries [] entries' ↔ entries' = entries := by
  simp [Adds]

theorem adds_append {entries first second entries' : List KindedEntry} :
    Adds reader entries (first ++ second) entries' ↔
      ∃ m, Adds reader entries first m ∧ Adds reader m second entries' := by
  simp only [Adds, List.map_append]
  constructor
  · rintro ⟨apart,distinct,admitted,rfl⟩
    obtain ⟨apart₁,apart₂⟩ := List.disjoint_append_right.mp apart
    obtain ⟨distinct₁,distinct₂,separate⟩ := List.nodup_append'.mp distinct
    obtain ⟨admitted₁,admitted₂⟩ := List.forall_mem_append.mp admitted
    refine ⟨_,⟨apart₁,distinct₁,admitted₁,rfl⟩,?_,distinct₂,admitted₂,by simp⟩
    rw [List.map_append]
    exact List.disjoint_append_left.mpr ⟨apart₂,separate⟩
  · rintro ⟨_,⟨apart,distinct,admitted,rfl⟩,apart',distinct',admitted',rfl⟩
    rw [List.map_append, List.disjoint_append_left] at apart'
    exact ⟨List.disjoint_append_right.mpr ⟨apart,apart'.1⟩,distinct.append distinct' apart'.2,
      List.forall_mem_append.mpr ⟨admitted,admitted'⟩,by simp⟩

theorem filter_some {α : Type} {p : α → Bool} {x : Option α} {a : α} :
    x.filter p = some a ↔ x = some a ∧ p a = true := by
  rw [Option.filter_eq_some_iff]

theorem readEntry_ok {collection : PyString} {item : PyData × ℕ} {entry : PyString × PyFields} :
    readEntry reader collection item = .ok entry ↔ Usable item.1 entry := by
  obtain ⟨value,index⟩ := item
  cases value with
  | dict fields =>
    simp only [readEntry, readId, Usable, PyData.dict.injEq]
    rcases Option.eq_none_or_eq_some ((textOf (get fields "id")).filter producerClaimId) with
      unusable | ⟨name,usable⟩
    · simp only [unusable, throw_ok, false_iff]
      rintro ⟨rfl,named,spelled⟩
      have kept : (textOf (get entry.2 "id")).filter producerClaimId = some entry.1 := by
        rw [named]
        exact filter_some.mpr ⟨rfl,spelled⟩
      rw [kept] at unusable
      cases unusable
    · simp only [usable, pure_ok]
      obtain ⟨text,spelled⟩ := filter_some.mp usable
      have named : get fields "id" = .str name := by
        cases shown : get fields "id" with
        | str other =>
          rw [shown] at text
          rw [Option.some.inj text]
        | _ =>
          rw [shown] at text
          cases text
      constructor
      · rintro rfl
        exact ⟨rfl,named,spelled⟩
      · rintro ⟨rfl,named',_⟩
        rw [PyData.str.inj (named.symm.trans named')]
  | _ => simp [readEntry, Usable]

theorem addEntry_ok {collection : PyString × ObligationKind} {entries entries' : List KindedEntry}
    {item : PyData × ℕ} : addEntry reader collection entries item = .ok entries' ↔
      ∃ part, (∃ entry, Usable item.1 entry ∧ part = [(entry,collection.2)]) ∧
        Adds reader entries part entries' := by
  simp only [addEntry, bind_ok, check_ok, exists_unit, pure_ok, readEntry_ok]
  constructor
  · rintro ⟨entry,usable,fresh,admitted,rfl⟩
    refine ⟨_,⟨entry,usable,rfl⟩,?_,List.nodup_singleton _,?_,rfl⟩
    · exact List.disjoint_singleton.mpr fresh
    · exact List.forall_mem_singleton.mpr admitted
  · rintro ⟨_,⟨entry,usable,rfl⟩,apart,_,admitted,rfl⟩
    exact ⟨entry,usable,List.disjoint_singleton.mp apart,
      admitted _ (List.mem_singleton_self _),rfl⟩

theorem forall₂_zipIdx {α β : Type} {P : α → β → Prop} {xs : List α} {ys : List β} {k : ℕ} :
    List.Forall₂ (fun item y => P item.1 y) (xs.zipIdx k) ys ↔ List.Forall₂ P xs ys := by
  induction xs generalizing ys k with
  | nil => simp
  | cons x xs ih =>
    rw [List.zipIdx_cons]
    cases ys with
    | nil => simp
    | cons y ys => rw [List.forall₂_cons, List.forall₂_cons, ih]

/-- Parts of one entry each, put together. -/
theorem singletons_flatten {α β : Type} {P : α → β → Prop} {kind : ObligationKind} {xs : List α}
    {parts : List (List (β × ObligationKind))} :
    List.Forall₂ (fun x part => ∃ y, P x y ∧ part = [(y,kind)]) xs parts ↔
      ∃ ys, List.Forall₂ P xs ys ∧ parts = ys.map (fun y => [(y,kind)]) := by
  induction xs generalizing parts with
  | nil =>
    simp only [List.forall₂_nil_left_iff]
    constructor
    · rintro rfl
      exact ⟨[],rfl,rfl⟩
    · rintro ⟨_,rfl,rfl⟩
      rfl
  | cons x xs ih =>
    simp only [List.forall₂_cons_left_iff, ih]
    constructor
    · rintro ⟨_,_,⟨y,held,rfl⟩,⟨ys,rest,rfl⟩,rfl⟩
      exact ⟨y :: ys,⟨y,ys,held,rest,rfl⟩,rfl⟩
    · rintro ⟨_,⟨y,ys,held,rest,rfl⟩,rfl⟩
      exact ⟨_,_,⟨y,held,rfl⟩,⟨ys,rest,rfl⟩,rfl⟩

theorem addEntries_ok {collection : PyString × ObligationKind} {items : List (PyData × ℕ)}
    {entries entries' : List KindedEntry} :
    items.foldlM (addEntry reader collection) entries = .ok entries' ↔ ∃ parts,
      List.Forall₂ (fun item part => ∃ entry, Usable item.1 entry ∧ part = [(entry,collection.2)])
        items parts ∧ Adds reader entries parts.flatten entries' := by
  apply foldlM_gathers adds_nil adds_append
  intro _ _ _
  exact addEntry_ok

theorem addCollection_ok {collection : PyString × ObligationKind}
    {entries entries' : List KindedEntry} :
    addCollection reader manifest entries collection = .ok entries' ↔
      ∃ part, CollectionEntries manifest collection part ∧ Adds reader entries part entries' := by
  have read : ∀ raw, readCollection reader manifest collection.1 = .ok raw ↔
      rawEntries manifest collection.1 = some raw := by
    intro raw
    unfold readCollection
    cases rawEntries manifest collection.1 <;> simp
  have joined : ∀ ys : List (PyString × PyFields),
      (ys.map (fun y => [(y,collection.2)])).flatten = ys.map (fun y => (y,collection.2)) := by
    intro ys
    induction ys with
    | nil => rfl
    | cons y ys ih => rw [List.map_cons, List.flatten_cons, ih, List.map_cons, List.singleton_append]
  simp only [addCollection, bind_ok, read, CollectionEntries, addEntries_ok]
  constructor
  · rintro ⟨raw,shown,parts,each,added⟩
    obtain ⟨ys,usable,rfl⟩ := singletons_flatten.mp each
    refine ⟨_,⟨raw,ys,shown,forall₂_zipIdx.mp usable,rfl⟩,?_⟩
    rwa [joined] at added
  · rintro ⟨_,⟨raw,ys,shown,usable,rfl⟩,added⟩
    refine ⟨raw,shown,_,singletons_flatten.mpr ⟨ys,forall₂_zipIdx.mpr usable,rfl⟩,?_⟩
    rwa [joined]

/-- A producer collects the usable entries of a manifest when their ids differ. -/
theorem collect_ok {entries : List KindedEntry} : collect reader manifest = .ok entries ↔
    Declares manifest entries ∧ (entries.map idOf).Nodup ∧
      ∀ entry ∈ entries, reader.admits entry.1 = .ok ⟨⟩ := by
  have gathered : collect reader manifest = .ok entries ↔ ∃ parts,
      List.Forall₂ (CollectionEntries manifest) collections parts ∧
        Adds reader [] parts.flatten entries := by
    apply foldlM_gathers adds_nil adds_append
    intro _ _ _
    exact addCollection_ok
  simp only [gathered, Adds, Declares, List.nil_append]
  constructor
  · rintro ⟨parts,each,_,distinct,admitted,rfl⟩
    exact ⟨⟨parts,each,rfl⟩,distinct,admitted⟩
  · rintro ⟨⟨parts,each,rfl⟩,distinct,admitted⟩
    exact ⟨parts,each,List.disjoint_nil_left _,distinct,admitted,rfl⟩

end Walking

section Gate

variable {library : Library} {manifest : PyFields} {entries : List KindedEntry}

theorem producer_spelled {name : PyString} (h : producerClaimId name = true) :
    obligationId name = true := by
  cases name with
  | nil => cases h
  | cons c cs =>
    obtain ⟨first,rest⟩ := Bool.and_eq_true_iff.mp h
    apply Bool.and_eq_true_iff.mpr
    constructor
    · exact first
    · rw [List.all_eq_true] at rest ⊢
      intro d member
      rcases Bool.or_eq_true_iff.mp (rest d member) with plain | mark
      · exact Bool.or_eq_true_iff.mpr (.inl plain)
      · apply Bool.or_eq_true_iff.mpr (.inr _)
        simp only [points, List.contains_eq_mem, decide_eq_true_eq] at mark ⊢
        simp at mark ⊢
        tauto

theorem obligationEntry_usable {place : PyString} {item : PyData} {entry : PyString × PyFields} :
    obligationEntry library place item = .ok entry ↔ Usable item entry := by
  rw [CoverageDashboard.obligationEntry_ok, Usable]
  constructor
  · intro ⟨object,named,_,spelled⟩
    exact ⟨object,named,spelled⟩
  · intro ⟨object,named,spelled⟩
    exact ⟨object,named,producer_spelled spelled,spelled⟩

theorem entriesIn_raw {collection : PyString} {raw : List PyData} :
    entriesIn manifest collection = .ok raw ↔
      mapGet manifest collection ≠ some .none ∧ rawEntries manifest collection = some raw := by
  unfold entriesIn rawEntries
  cases mapGet manifest collection with
  | none => simp
  | some value => cases value <;> simp

theorem kindedEntries_ok {collection : PyString × ObligationKind} {part : List KindedEntry} :
    kindedEntries library manifest collection = .ok part ↔
      mapGet manifest collection.1 ≠ some .none ∧ CollectionEntries manifest collection part := by
  simp only [kindedEntries, obligationEntries, bind_ok, pure_ok, entriesIn_raw, mapM_ok,
    obligationEntry_usable, CollectionEntries]
  constructor
  · rintro ⟨ys,⟨raw,⟨shown,read⟩,usable⟩,rfl⟩
    exact ⟨shown,raw,ys,read,forall₂_zipIdx.mp usable,rfl⟩
  · rintro ⟨shown,raw,ys,read,usable,rfl⟩
    exact ⟨ys,⟨raw,⟨shown,read⟩,forall₂_zipIdx.mpr usable⟩,rfl⟩

/-- The gate reads the entries that the producers read, unless a collection is null. -/
theorem allEntries_declares : allEntries library manifest = .ok entries ↔
    (∀ collection ∈ collections, mapGet manifest collection.1 ≠ some .none) ∧
      Declares manifest entries := by
  simp only [allEntries, bind_ok, pure_ok, mapM_ok, kindedEntries_ok, List.forall₂_and_left,
    Declares]
  constructor
  · rintro ⟨parts,⟨shown,each⟩,rfl⟩
    exact ⟨shown,parts,each,rfl⟩
  · rintro ⟨shown,parts,each,rfl⟩
    exact ⟨parts,⟨shown,each⟩,rfl⟩

/-- No collection of the document is null. -/
def NoNull (document : PyData) : Prop :=
  ∀ manifest, document = .dict manifest →
    ∀ collection ∈ collections, mapGet manifest collection.1 ≠ some .none

/-- No list of a system claim is empty. -/
def FilledManifest (document : PyData) : Prop :=
  ∀ manifest, document = .dict manifest →
    ∀ item ∈ CoverageDashboard.items manifest "system_claims",
      lookup item "depends_on" ≠ .list [] ∧ lookup item "required_evidence" ≠ .list []

/-- Over entries that were read, the gate loads the manifest when every system claim is valid. -/
theorem loadManifest_declared (declared : Declares manifest entries)
    (distinct : (entries.map idOf).Nodup) {obligations : Obligations} :
    loadManifest library (.dict manifest) = .ok obligations ↔ NoNull (.dict manifest) ∧
      ∃ validated, (systemClaims entries).mapM (validatedClaim library (kindsOf entries)) =
        .ok validated ∧ obligations = obligationsOf entries validated := by
  rw [loadManifest_ok]
  constructor
  · rintro ⟨_,others,validated,same,read,_,each,rfl⟩
    obtain rfl := PyData.dict.inj same
    obtain ⟨shown,_⟩ := allEntries_declares.mp read
    obtain rfl : others = entries :=
      Except.ok.inj (read.symm.trans (allEntries_declares.mpr ⟨shown,declared⟩))
    constructor
    · intro manifest' same'
      obtain rfl := PyData.dict.inj same'
      exact shown
    · refine ⟨validated,?_,rfl⟩
      rw [mapM_ok]
      exact each.imp (fun _ _ valid => validatedClaim_ok.mpr valid)
  · rintro ⟨shown,validated,each,rfl⟩
    rw [mapM_ok] at each
    exact ⟨manifest,entries,validated,rfl,
      allEntries_declares.mpr ⟨shown manifest rfl,declared⟩,distinct,
      each.imp (fun _ _ valid => validatedClaim_ok.mp valid),rfl⟩

/-- The gate finds a system claim valid when its lists are sound and not empty. -/
theorem validatedClaim_iff (read : allEntries library manifest = .ok entries)
    (distinct : (entries.map idOf).Nodup) {claim : PyString × PyFields} :
    (∃ bound, validatedClaim library (kindsOf entries) claim = .ok bound) ↔
      SoundClaim manifest (.dict claim.2) ∧ get claim.2 "depends_on" ≠ .list [] ∧
        get claim.2 "required_evidence" ≠ .list [] := by
  simp only [validatedClaim_ok, validateSystemClaim_ok, CoverageDashboard.kindsOf_grounds read
    distinct]
  constructor
  · rintro ⟨bound,_,⟨listed,filled,_,once⟩,grounds,listed',filled',spelled',once'⟩
    refine ⟨⟨⟨_,listed,once,grounds⟩,⟨_,listed',once',spelled'⟩⟩,?_,?_⟩
    · rw [listed]
      simpa using filled
    · rw [listed']
      simpa using filled'
  · rintro ⟨⟨⟨names,listed,once,grounds⟩,⟨tools,listed',once',spelled'⟩⟩,filled,filled'⟩
    have listed₁ : get claim.2 "depends_on" = .list (names.map .str) := listed
    have listed₂ : get claim.2 "required_evidence" = .list (tools.map .str) := listed'
    rw [listed₁] at filled
    rw [listed₂] at filled'
    refine ⟨(claim.1,names,tools),rfl,⟨listed₁,?_,?_,once⟩,grounds,listed₂,?_,spelled',once'⟩
    · simpa using filled
    · intro name member
      exact CoverageDashboard.grounds_spelled read (grounds name member)
    · simpa using filled'

end Gate

section Producers

variable {host : Host} {library : Library} {document : PyData}

theorem obligationTargets_ok {path : PyString} {targets : Targets} :
    obligationTargets host path document = .ok targets ↔ ∃ manifest entries,
      document = .dict manifest ∧ Declares manifest entries ∧ (entries.map idOf).Nodup ∧
      entries ≠ [] ∧ targets = ⟨entries.map idOf,kindsOf entries⟩ := by
  cases document with
  | dict manifest =>
    simp only [obligationTargets, bind_ok, check_ok, exists_unit, pure_ok, collect_ok,
      List.isEmpty_eq_false_iff]
    constructor
    · rintro ⟨entries,⟨declared,distinct,_⟩,filled,rfl⟩
      exact ⟨manifest,entries,rfl,declared,distinct,filled,rfl⟩
    · rintro ⟨_,entries,same,declared,distinct,filled,rfl⟩
      obtain rfl := PyData.dict.inj same
      exact ⟨entries,⟨declared,distinct,fun _ _ => rfl⟩,filled,rfl⟩
  | _ => simp [obligationTargets]

theorem manifestPolicy_ok {bound : ManifestPolicy} :
    manifestPolicy host document = .ok bound ↔ ∃ manifest entries grounds,
      document = .dict manifest ∧ Declares manifest entries ∧ (entries.map idOf).Nodup ∧
      (∀ entry ∈ entries, admitsRequired entry.1 = .ok ⟨⟩) ∧ entries ≠ [] ∧
      List.Forall₂ (fun entry claim => groundEntry (kindsOf entries) entry = .ok claim)
        entries grounds ∧ bound = policyOf entries grounds := by
  cases document with
  | dict manifest =>
    simp only [manifestPolicy, bind_ok, check_ok, exists_unit, pure_ok, collect_ok, mapM_ok,
      List.isEmpty_eq_false_iff]
    constructor
    · rintro ⟨entries,⟨declared,distinct,admitted⟩,filled,grounds,each,rfl⟩
      exact ⟨manifest,entries,grounds,rfl,declared,distinct,admitted,filled,each,rfl⟩
    · rintro ⟨_,entries,grounds,same,declared,distinct,admitted,filled,each,rfl⟩
      obtain rfl := PyData.dict.inj same
      exact ⟨entries,⟨declared,distinct,admitted⟩,filled,grounds,each,rfl⟩
  | _ => simp [manifestPolicy]

theorem texts_listed {value : PyData} {names : List PyString} :
    (entriesOf value).bind (List.mapM textOf) = some names ↔ value = .list (names.map .str) := by
  have texts : ∀ (raw : List PyData) (names : List PyString),
      raw.mapM textOf = some names ↔ raw = names.map .str := by
    intro raw
    induction raw with
    | nil =>
      intro names
      cases names <;> simp
    | cons item raw ih =>
      intro names
      cases names with
      | nil => cases item <;> simp [textOf, Option.bind_eq_some_iff]
      | cons name names => cases item <;> simp [textOf, Option.bind_eq_some_iff, ih, and_comm]
  cases value with
  | list raw => simp [entriesOf, texts]
  | _ => simp [entriesOf]

theorem ids_ok {label : PyString} {grammar : PyString → Bool} {value : PyData}
    {names : List PyString} : ids label grammar value = .ok names ↔
      value = .list (names.map .str) ∧ names ≠ [] ∧ (∀ name ∈ names, grammar name = true) ∧
        names.Nodup := by
  unfold ids
  rcases Option.eq_none_or_eq_some ((entriesOf value).bind (List.mapM textOf)) with
    none' | ⟨texts,some'⟩
  · simp only [none', throw_ok, false_iff]
    rintro ⟨listed,_⟩
    rw [texts_listed.mpr listed] at none'
    cases none'
  · simp only [some', bind_ok, check_ok, exists_unit, pure_ok, List.isEmpty_eq_false_iff,
      List.all_eq_true]
    constructor
    · rintro ⟨sound,rfl⟩
      exact ⟨texts_listed.mp some',sound⟩
    · rintro ⟨listed,sound⟩
      obtain rfl := Option.some.inj (some'.symm.trans (texts_listed.mpr listed))
      exact ⟨sound,rfl⟩

/-- A system claim that the policy loader grounds is valid for the gate. -/
theorem groundEntry_valid {kinds : List (PyString × ObligationKind)} {entry : KindedEntry}
    {claim : ClaimGrounds} (system : entry.2 = .systemClaim)
    (h : groundEntry kinds entry = .ok claim) :
    validatedClaim library kinds entry.1 = .ok claim := by
  simp only [groundEntry, system, if_true, bind_ok, ids_ok, forM_ok, checkGround, check_ok,
    exists_unit, pure_ok] at h
  obtain ⟨depends,⟨listed,filled,spelled,once⟩,tools,sound,grounds,rfl⟩ := h
  apply validatedClaim_ok.mpr
  constructor
  · rfl
  · apply validateSystemClaim_ok.mpr
    refine ⟨⟨listed,filled,fun name member => producer_spelled (spelled name member),once⟩,?_,sound⟩
    intro name member
    obtain ⟨declared,plain⟩ := grounds name member
    obtain ⟨kind,found⟩ := Option.isSome_iff_exists.mp (mapGet_isSome.mpr declared)
    refine ⟨kind,found,?_⟩
    rintro rfl
    exact plain found

theorem groundEntry_plain {kinds : List (PyString × ObligationKind)} {entry : KindedEntry}
    {claim : ClaimGrounds} (plain : entry.2 ≠ .systemClaim)
    (h : groundEntry kinds entry = .ok claim) : claim = (idOf entry,[],[]) := by
  simp only [groundEntry, if_neg plain, pure_ok] at h
  exact h.symm

/-- What a claim rests on, where a claim without an entry rests on nothing. -/
def groundsIn (depends : List (PyString × List PyString)) (claim : PyString) : List PyString :=
  (mapGet depends claim).getD []

theorem groundsIn_cons {name claim : PyString} {names : List PyString}
    {depends : List (PyString × List PyString)} (fresh : name ∉ depends.map Prod.fst) :
    groundsIn ((name,names) :: depends) claim =
      if name = claim then names else groundsIn depends claim := by
  unfold groundsIn mapGet
  rw [List.reverse_cons, List.find?_append]
  by_cases same : name = claim
  · have missing : depends.reverse.find? (fun entry => entry.1 = claim) = none := by
      rw [List.find?_eq_none]
      intro entry member
      simp only [decide_eq_true_eq]
      rintro rfl
      exact fresh (same ▸ List.mem_map_of_mem (List.mem_reverse.mp member))
    simp [missing, same]
  · simp [same]

theorem groundsIn_absent {claim : PyString} {depends : List (PyString × List PyString)}
    (absent : claim ∉ depends.map Prod.fst) : groundsIn depends claim = [] := by
  unfold groundsIn
  rcases Option.eq_none_or_eq_some (mapGet depends claim) with missing | ⟨names,found⟩
  · rw [missing, Option.getD_none]
  · exact absurd (mapGet_isSome.mp (by rw [found]; rfl)) absent

/-- The gate validates the claims of a policy that was loaded, with the same grounds. -/
theorem grounds_validated {kinds : List (PyString × ObligationKind)} {entries : List KindedEntry}
    {grounds : List ClaimGrounds} (distinct : (entries.map idOf).Nodup)
    (each : List.Forall₂ (fun entry claim => groundEntry kinds entry = .ok claim)
      entries grounds) :
    ∃ validated, (systemClaims entries).mapM (validatedClaim library kinds) = .ok validated ∧
      validated.map Prod.fst = (systemClaims entries).map Prod.fst ∧
      grounds.map Prod.fst = entries.map idOf ∧
      ∀ claim, groundsIn (validated.map (fun bound => (bound.1,bound.2.1))) claim =
        groundsIn (grounds.map (fun bound => (bound.1,bound.2.1))) claim := by
  induction each with
  | nil => exact ⟨[],rfl,rfl,rfl,fun _ => rfl⟩
  | @cons entry bound entries grounds now _ ih =>
    obtain ⟨fresh,distinct⟩ := List.nodup_cons.mp distinct
    obtain ⟨validated,later,named,all,same⟩ := ih distinct
    have absent : idOf entry ∉ (validated.map (fun bound => (bound.1,bound.2.1))).map Prod.fst := by
      rw [List.map_map]
      intro listed
      have inside : idOf entry ∈ validated.map Prod.fst := listed
      rw [named] at inside
      obtain ⟨_,member,own⟩ := List.mem_map.mp inside
      obtain ⟨kinded,held,rfl⟩ := List.mem_map.mp member
      exact fresh (own ▸ List.mem_map_of_mem (List.mem_of_mem_filter held))
    have absent' : idOf entry ∉ (grounds.map (fun bound => (bound.1,bound.2.1))).map Prod.fst := by
      rw [List.map_map]
      exact all ▸ fresh
    by_cases system : entry.2 = .systemClaim
    · have claims : systemClaims (entry :: entries) = entry.1 :: systemClaims entries := by
        simp [systemClaims, system]
      have valid : validatedClaim library kinds entry.1 = .ok bound := groundEntry_valid system now
      have own : idOf entry = bound.1 := (validatedClaim_ok.mp valid).1
      rw [own] at absent absent'
      refine ⟨bound :: validated,?_,?_,?_,?_⟩
      · rw [claims, List.mapM_cons, valid, bind_ok]
        exact ⟨bound,rfl,by rw [later]; rfl⟩
      · rw [claims, List.map_cons, List.map_cons, named, ← own]
        rfl
      · rw [List.map_cons, List.map_cons, all, own]
      · intro claim
        rw [List.map_cons, List.map_cons, groundsIn_cons absent, groundsIn_cons absent', same]
    · have claims : systemClaims (entry :: entries) = systemClaims entries := by
        simp [systemClaims, system]
      obtain rfl := groundEntry_plain system now
      refine ⟨validated,by rw [claims, later],by rw [claims, named],?_,?_⟩
      · rw [List.map_cons, List.map_cons, all]
      · intro claim
        rw [List.map_cons, groundsIn_cons absent', ← same]
        by_cases own : idOf entry = claim
        · rw [if_pos own, ← own, groundsIn_absent absent]
        · rw [if_neg own]

end Producers

section Agreement

variable {host : Host} {library : Library} {document : PyData}

/-- The gate loads the manifest with the ids and kinds of the command producer. -/
def LoadsTargets (library : Library) (document : PyData) (targets : Targets) : Prop :=
  ∃ obligations, loadManifest library document = .ok obligations ∧
    obligations.required = targets.ids ∧ obligations.kinds = targets.kinds

/-- The gate loads the manifest with the ids, kinds and dependencies of the policy loader. -/
def LoadsPolicy (library : Library) (document : PyData) (bound : ManifestPolicy) : Prop :=
  ∃ obligations, loadManifest library document = .ok obligations ∧
    obligations.required = bound.kinds.map Prod.fst ∧ obligations.kinds = bound.kinds ∧
    ∀ claim, groundsIn obligations.depends claim = groundsIn bound.dependencies claim

theorem targets_load_iff {path : PyString} {targets : Targets}
    (accepted : obligationTargets host path document = .ok targets) :
    LoadsTargets library document targets ↔
      NoNull document ∧ SoundManifest document ∧ FilledManifest document := by
  obtain ⟨manifest,entries,rfl,declared,distinct,_,rfl⟩ := obligationTargets_ok.mp accepted
  simp only [LoadsTargets, loadManifest_declared declared distinct]
  constructor
  · rintro ⟨_,⟨shown,validated,each,rfl⟩,_,_⟩
    have read := (@allEntries_declares library _ _).mpr ⟨shown manifest rfl,declared⟩
    have valid : ∀ item ∈ CoverageDashboard.items manifest "system_claims",
        SoundClaim manifest item ∧ lookup item "depends_on" ≠ .list [] ∧
          lookup item "required_evidence" ≠ .list [] := by
      intro item member
      rw [← CoverageDashboard.systemClaims_items read, List.mem_map] at member
      obtain ⟨claim,inside,rfl⟩ := member
      obtain ⟨bound,_,found⟩ := mapM_mem each inside
      exact (validatedClaim_iff read distinct).mp ⟨bound,found⟩
    refine ⟨shown,?_,?_⟩
    · intro manifest' same item member
      obtain rfl := PyData.dict.inj same
      exact (valid item member).1
    · intro manifest' same item member
      obtain rfl := PyData.dict.inj same
      exact (valid item member).2
  · rintro ⟨shown,sound,filled⟩
    have read := (@allEntries_declares library _ _).mpr ⟨shown manifest rfl,declared⟩
    have valid : ∀ claim ∈ systemClaims entries,
        ∃ bound, validatedClaim library (kindsOf entries) claim = .ok bound := by
      intro claim inside
      have member : PyData.dict claim.2 ∈ CoverageDashboard.items manifest "system_claims" := by
        rw [← CoverageDashboard.systemClaims_items read]
        exact List.mem_map_of_mem inside
      exact (validatedClaim_iff read distinct).mpr
        ⟨sound manifest rfl _ member,filled manifest rfl _ member⟩
    obtain ⟨validated,each⟩ := mapM_exists valid
    exact ⟨_,⟨shown,validated,each,rfl⟩,rfl,rfl⟩

theorem policy_load_iff {bound : ManifestPolicy}
    (accepted : manifestPolicy host document = .ok bound) :
    LoadsPolicy library document bound ↔ NoNull document := by
  obtain ⟨manifest,entries,grounds,rfl,declared,distinct,_,_,each,rfl⟩ :=
    manifestPolicy_ok.mp accepted
  simp only [LoadsPolicy, loadManifest_declared declared distinct]
  constructor
  · rintro ⟨_,⟨shown,_⟩,_⟩
    exact shown
  · intro shown
    obtain ⟨validated,valid,_,_,same⟩ := @grounds_validated library _ _ _ distinct each
    exact ⟨_,⟨shown,validated,valid,rfl⟩,(CoverageDashboard.kindsOf_ids entries).symm,rfl,same⟩

theorem loadPolicy_bound {records : List PolicyRecord} {bound : ManifestPolicy}
    (accepted : loadPolicy host records document = .ok bound) :
    manifestPolicy host document = .ok bound := by
  simp only [loadPolicy, bind_ok, exists_unit, pure_ok] at accepted
  obtain ⟨_,read,_,rfl⟩ := accepted
  exact read

/-- A manifest that a producer works under is one that the gate loads, with the same ids, kinds
and dependencies, exactly when no collection is null and, where the command producer read it,
each system claim lists declared invariants and witnesses and well-formed tools, once each. -/
theorem producers_meet_gate_iff (library : Library) (host : Host) (document : PyData) :
    (∀ path targets, obligationTargets host path document = .ok targets →
      (LoadsTargets library document targets ↔
        NoNull document ∧ SoundManifest document ∧ FilledManifest document)) ∧
    ∀ records bound, loadPolicy host records document = .ok bound →
      (LoadsPolicy library document bound ↔ NoNull document) :=
  ⟨fun _ _ accepted => targets_load_iff accepted,
    fun _ _ accepted => policy_load_iff (loadPolicy_bound accepted)⟩

end Agreement

section Samples

def sampleHost : Host := ⟨fun _ => "?",fun _ => "?"⟩

def sampleLibrary : Library := ⟨fun _ => "?",fun _ => none,fun _ => ""⟩

def namedItem (name : PyString) : PyData := .dict [("id",.str name)]

def plainManifest : PyData := .dict [("invariants",.list [namedItem "c"])]

def nullManifest : PyData := .dict [("invariants",.list [namedItem "c"]),("witnesses",.none)]

def sampleRecord : PolicyRecord := ⟨"c",true,"code-enforced",[⟨"s","t","code-enforced"⟩]⟩

def sampleBound : ManifestPolicy := ⟨[("c",.invariant)],[("c",true)],[("c",[])],[("c",[])]⟩

theorem producers_meet_gate_plain :
    (LoadsTargets sampleLibrary plainManifest ⟨["c"],[("c",.invariant)]⟩ ↔
      NoNull plainManifest ∧ SoundManifest plainManifest ∧ FilledManifest plainManifest) ∧
    (LoadsPolicy sampleLibrary plainManifest sampleBound ↔ NoNull plainManifest) :=
  ⟨(producers_meet_gate_iff sampleLibrary sampleHost plainManifest).1 "m" _ rfl,
    (producers_meet_gate_iff sampleLibrary sampleHost plainManifest).2 [sampleRecord] _ rfl⟩

/-- Both producers accept a null collection, and the gate does not. -/
theorem null_collection_refused :
    ¬ ∀ (library : Library) (host : Host) (document : PyData),
      (∀ path targets, obligationTargets host path document = .ok targets →
        LoadsTargets library document targets) ∧
      ∀ records bound, loadPolicy host records document = .ok bound →
        LoadsPolicy library document bound := by
  intro all
  obtain ⟨_,policies⟩ := all sampleLibrary sampleHost nullManifest
  have loads : LoadsPolicy sampleLibrary nullManifest sampleBound :=
    policies [sampleRecord] sampleBound rfl
  have accepted : manifestPolicy sampleHost nullManifest = .ok sampleBound := rfl
  have shown := (policy_load_iff accepted).mp loads
  have member : (("witnesses" : PyString),ObligationKind.witness) ∈ collections := by
    simp [collections]
  exact shown _ rfl _ member rfl

end Samples

end ProducerManifest

end EvidenceV4
