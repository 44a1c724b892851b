import EvidenceV4.GateManifest
import EvidenceV4.MigrationState

/-!
# The obligation manifest of a migration

Each legacy claim becomes a system claim that rests on its required targets, and
each target an invariant or a witness. Their ids are normalized to the alphabet
of the evidence producer. Legacy ids that meet in one normalized id are found in
a register of owners, where an id is owned by a legacy spelling.
-/

set_option autoImplicit false

namespace EvidenceV4

namespace Migration

open CheckedExcept
open CheckerJson (PyString points)
open GateManifest (obligationId producerClaimId evidenceToolId alphanumeric)
open PolicyDocument (mapGet)
open PythonData

def legacyObligations : PyString := legacyPath "obligations.json"

def legacyClaims : PyString := legacyPath "g1-claims.json"

def obligationsPath : PyString := ".fv/obligations.json"

section Ids

/-- `_dedup`, which keeps first occurrences. -/
def dedup (values : List PyString) : List PyString :=
  values.foldl (fun seen value => if value ∈ seen then seen else seen ++ [value]) []

/-- The entry of a key, changed, where a missing entry starts from a default. -/
def upsert {α : Type} (entries : List (PyString × α)) (key : PyString) (start : α)
    (change : α → α) : List (PyString × α) :=
  if key ∈ entries.map Prod.fst then
    entries.map (fun entry => if entry.1 = key then (key,change entry.2) else entry)
  else entries ++ [(key,change start)]

/-- A nonempty list of ids without repetition, when all entries are well formed. -/
def idStrings (value : PyData) (grammar : PyString → Bool) : Option (List PyString) :=
  match (entriesOf value).bind (List.mapM textOf) with
  | some names => if names.isEmpty = false ∧ names.all grammar = true then some (dedup names) else none
  | none => none

def safeCharacter (c : ℕ) : Bool := alphanumeric c || (points "._-").contains c

/-- Every run of unsafe characters becomes one dash, where `skipping` says that one was just read. -/
def collapseRuns (skipping : Bool) : PyString → PyString
  | [] => []
  | c :: rest =>
    if safeCharacter c then c :: collapseRuns false rest
    else if skipping then collapseRuns true rest
    else 45 :: collapseRuns true rest

def separator (c : ℕ) : Bool := (points "._-").contains c

def safeIdPart (raw : PyString) : PyString :=
  (((collapseRuns false raw).dropWhile separator).reverse.dropWhile separator).reverse

/-- The part of a name in front of its first colon. -/
def layerOf (name : PyString) : PyString := name.takeWhile (· ≠ 58)

/-- The part of a name behind its first colon. -/
def bareName (name : PyString) : PyString := (name.dropWhile (· ≠ 58)).drop 1

def evidenceClaimId (legacy : PyString) : Option PyString :=
  let parts := if 58 ∈ legacy then [safeIdPart (layerOf legacy),safeIdPart (bareName legacy)]
    else [safeIdPart legacy]
  (if [] ∈ parts then none else some (joined "." parts)).filter producerClaimId

/-- Record that a legacy spelling migrates to an id. -/
def own (owners : List (PyString × List PyString)) (migrated legacy : PyString) :
    List (PyString × List PyString) :=
  upsert owners migrated [] (fun legacies =>
    if legacy ∈ legacies then legacies else legacies ++ [legacy])

end Ids

section Claims

def consumedKeys : List PyString :=
  ["claim_id","required_targets","layers","scope","waiver","evidence_class"]

def documentKeys : List PyString := ["schema","version","claims","profile","environment_policy"]

def sortedFields (fields : PyFields) : PyFields :=
  fields.insertionSort (fun a b => a.1 ≤ b.1)

/-- The known fields of a claim whose slot cannot hold their value. -/
def misfits (claim : PyFields) : PyFields :=
  claim.filter (fun field =>
    (field.1 = points "scope" && (fieldsOf field.2).isNone) ||
    (field.1 = points "waiver" && (fieldsOf field.2).isNone) ||
    (field.1 = points "evidence_class" && (textOf field.2).isNone))

/-- `_uninterpreted_claim_fields` -/
def uninterpreted (claim : PyFields) : PyFields :=
  sortedFields (claim.filter (fun field => field.1 ∉ consumedKeys) ++ misfits claim)

variable (project : Project) (host : Host)

/-- Claims by id. -/
abbrev ClaimIndex := List (PyString × PyFields)

def claimAt (relative : PyString) (position : ℕ) : PyString :=
  say [relative,"#claims[",number position,"]"]

def claimNamed (relative claim : PyString) : PyString := say [relative,"#claims.",claim]

def indexNamed (relative : PyString) (index : ClaimIndex) (claim : PyFields) (position : ℕ) :
    Step ClaimIndex :=
  match (textOf (get claim "claim_id")).filter obligationId with
  | none => do
    unsupported (claimAt relative position)
      (say ["malformed claim_id ",host.repr (get claim "claim_id")])
    pure index
  | some name =>
    if name ∈ index.map Prod.fst then do
      unsupported (claimNamed relative name) "duplicate claim_id"
      pure index
    else pure (index ++ [(name,claim)])

def indexClaim (relative : PyString) (index : ClaimIndex) (entry : PyData × ℕ) :
    Step ClaimIndex :=
  match entry.1 with
  | .dict claim => indexNamed host relative index claim entry.2
  | _ => do
    unsupported (claimAt relative entry.2) "claim is not an object"
    pure index

/-- Why a document is no manifest of the schema. -/
def documentDefect (schema : PyString) (document : PyFields) : Option PyString :=
  let declared := get document "schema"
  let version := get document "version"
  if !equal declared .none && !equal declared (.str schema) then
    some (say ["unknown schema ",host.repr declared,", expected ",host.repr (.str schema)])
  else if !equal version .none && !equal version (.int 1) then
    some (say ["unknown ",schema," version ",host.repr version,", expected 1"])
  else if (entriesOf (get document "claims")).isNone then some "claims is not an array"
  else none

/-- `_legacy_claim_index`: the claims by id, with the whole document. -/
def legacyClaimIndex (relative schema : PyString) : Step (Option (ClaimIndex × PyFields)) := do
  let document ← readJson project host relative
  match document with
  | .none => pure none
  | .dict fields =>
    match documentDefect host schema fields with
    | some defect => do
      unsupported relative defect
      pure none
    | none => do
      let claims := (entriesOf (get fields "claims")).getD []
      let index ← claims.zipIdx.foldlM (indexClaim host relative) []
      pure (some (index,fields))
  | _ => do
    unsupported relative "document is not an object"
    pure none

end Claims

section Conversion

variable (host : Host)

/-- A legacy claim whose ids and layers can be migrated. -/
structure Converted where
  claimId : PyString
  claim : PyFields
  migrated : PyString
  targets : List (PyString × PyString)
  layers : List PyString

def Converted.dependsOn (converted : Converted) : List PyString :=
  dedup (converted.targets.map Prod.snd)

/-- Where a claim cannot be migrated, and why. -/
abbrev Refusal := PyString × PyString

def shownNames (names : List PyString) : PyString := host.repr (.list (names.map .str))

def requiredTargets (place : PyString) (claim : PyFields) : Except Refusal (List PyString) :=
  match idStrings (get claim "required_targets") obligationId with
  | some targets => pure targets
  | none => throw (place,say ["required_targets is not a nonempty array of obligation ids: ",
      host.repr (get claim "required_targets")])

def requiredLayers (place : PyString) (claim : PyFields) : Except Refusal (List PyString) :=
  match idStrings (get claim "layers") evidenceToolId with
  | some layers => pure layers
  | none => throw (place,say ["layers is not a nonempty array of evidence tool ids: ",
      host.repr (get claim "layers")])

def unprefixed (targets : List PyString) : List PyString := targets.filter (fun target => 58 ∉ target)

def unmappable (targets : List PyString) : List PyString :=
  targets.filter (fun target => (evidenceClaimId target).isNone)

def migratedTargets (targets : List PyString) : List (PyString × PyString) :=
  targets.filterMap (fun target => (evidenceClaimId target).map (fun migrated => (target,migrated)))

def convertTargets (place claimId : PyString) (claim : PyFields) (migrated : PyString) :
    Except Refusal Converted := do
  let targets ← requiredTargets host place claim
  let layers ← requiredLayers host place claim
  check (unprefixed targets = []) (place,say ["required_target(s) ",
    shownNames host (unprefixed targets),
    " carry no '<layer>:<name>' prefix: witness and invariant cannot be told apart"])
  check (unmappable targets = []) (place,say ["required_target(s) ",
    shownNames host (unmappable targets)," normalize to an empty evidence record id: no ",
    ".fv/evidence/records/<id>.json path could discharge them"])
  check (migrated ∉ dedup ((migratedTargets targets).map Prod.snd)) (place,
    points "required_targets names the claim itself: a system claim cannot depend on a claim")
  pure ⟨claimId,claim,migrated,migratedTargets targets,layers⟩

/-- What a legacy claim converts to. -/
def convert (details : ClaimIndex) (claimId : PyString) : Except Refusal Converted :=
  match mapGet details claimId, evidenceClaimId claimId with
  | none, _ => throw (claimNamed legacyObligations claimId,say ["required by ","obligations.json",
      " with no ","g1-claims.json"," entry: its ",
      "depends_on and required_evidence cannot be derived"])
  | some _, none => throw (claimNamed legacyClaims claimId,say ["claim_id ",
      host.repr (.str claimId)," normalizes to an empty evidence record id: no ",
      ".fv/evidence/records/<id>.json path could discharge it"])
  | some claim, some migrated =>
    convertTargets host (claimNamed legacyClaims claimId) claimId claim migrated

/-- The obligations that the claims converted so far synthesize. -/
structure Synthesis where
  invariants : List (PyString × List PyString)
  witnesses : List (PyString × List PyString)
  targetIds : List (PyString × PyString)
  owners : List (PyString × List PyString)
  systemClaims : List PyData
  claimedLayers : List PyString

def witnessPrefixes : List PyString := ["proptest","proptests"]

def isWitness (target : PyString) : Bool :=
  witnessPrefixes.contains (layerOf target) || (points "test").isPrefixOf (layerOf target)

/-- `bucket.setdefault(target, set()).add(claim_id)` -/
def addClaim (bucket : List (PyString × List PyString)) (target claimId : PyString) :
    List (PyString × List PyString) :=
  upsert bucket target [] (fun claims => if claimId ∈ claims then claims else claims ++ [claimId])

def addTarget (claimId : PyString) (s : Synthesis) (target : PyString × PyString) : Synthesis :=
  { s with
    invariants := if isWitness target.1 then s.invariants else addClaim s.invariants target.1 claimId
    witnesses := if isWitness target.1 then addClaim s.witnesses target.1 claimId else s.witnesses
    targetIds := upsert s.targetIds target.1 target.2 (fun _ => target.2)
    owners := own s.owners target.2 target.1 }

def strings (names : List PyString) : PyData := .list (names.map .str)

def whenPresent (key : PyString) (value : Option PyData) : PyFields :=
  match value with
  | some value => [(key,value)]
  | none => []

/-- A value that is an object. -/
def asObject (value : PyData) : Option PyData := (fieldsOf value).map .dict

/-- A value that is a string. -/
def asText (value : PyData) : Option PyData := (textOf value).map .str

/-- The system claim that a legacy claim becomes. -/
def systemClaim (required : Bool) (converted : Converted) : PyData :=
  let claim := converted.claim
  let scope := get claim "scope"
  .dict ([(points "id",.str converted.migrated)] ++
    (if converted.migrated ≠ converted.claimId then
      [(points "legacy_id",.str converted.claimId)] else []) ++
    [(points "required",.bool required)] ++
    whenPresent "statement" (asText (lookup scope "statement")) ++
    whenPresent "evidence_class" (asText (get claim "evidence_class")) ++
    [(points "depends_on",strings converted.dependsOn)] ++
    [(points "required_evidence",strings converted.layers)] ++
    whenPresent "scope" (asObject scope) ++
    whenPresent "waiver" (asObject (get claim "waiver")) ++
    (if uninterpreted claim = [] then [] else
      [(points "legacy_fields",.dict (uninterpreted claim))]))

def register (required : Bool) (s : Synthesis) (converted : Converted) : Synthesis :=
  let s := converted.targets.foldl (addTarget converted.claimId) s
  { s with
    owners := own s.owners converted.migrated converted.claimId
    systemClaims := s.systemClaims ++ [systemClaim required converted]
    claimedLayers := s.claimedLayers ++ converted.layers }

/-- The fields that a system claim carries without a slot of their own. -/
def reportFields (converted : Converted) : Step Unit :=
  let carried := (uninterpreted converted.claim).map Prod.fst
  if carried = [] then pure ()
  else deviation (claimNamed legacyClaims converted.claimId) obligationsPath
    (say ["legacy field(s) ",joined ", " carried," have no typed slot in a ",
      "system_claim: carried verbatim under system_claims[",host.repr (.str converted.migrated),
      "].legacy_fields rather than summarized or dropped, since a legacy waiver or ",
      "status is exactly what a later auditor reads this manifest for"])

def migrateClaim (details : ClaimIndex) (required : List (PyString × Bool)) (s : Synthesis)
    (claimId : PyString) : Step Synthesis :=
  match convert host details claimId with
  | .error refusal => do
    unsupported refusal.1 refusal.2
    pure s
  | .ok converted => do
    reportFields host converted
    Raising.modify (fun plan => { plan with
      claimLayers := upsert plan.claimLayers claimId converted.layers (fun _ => converted.layers) })
    pure (register ((mapGet required claimId).getD false) s converted)

end Conversion

section Manifest

variable (project : Project) (host : Host)

def obligationsNote : PyString :=
  say ["Migrated by scripts/fv_migrate.py. Each system claim is a legacy ",
    "colosseum-g1-claims claim: depends_on is its required_targets, ",
    "required_evidence is its layers. Invariants and witnesses are the ",
    "synthesized required targets, each keyed by the evidence-run-safe id its ",
    "legacy `<layer>:<name>` target maps to (`quint:invS7` -> `quint.invS7`), ",
    "with the exact legacy spelling kept in `legacy_id`; no evidence record ",
    "is migrated, so every obligation here is uncovered until an ",
    "fv-evidence-run/v3 record binds it."]

/-- The required-claim set: the flag of each claim, and the claims without a usable one. -/
def requiredFlags (index : ClaimIndex) : List (PyString × Bool) :=
  index.map (fun entry => (entry.1,match get entry.2 "required" with
    | .bool true => true
    | _ => false))

def checkRequired (entry : PyString × PyFields) : Step Unit :=
  match get entry.2 "required" with
  | .bool _ => pure ()
  | other => unsupported (claimNamed legacyObligations entry.1)
      (say ["required must be a boolean, got ",host.repr other])

/-- The claims of a manifest that may be absent, and its document. -/
def loadIndex (present : Bool) (relative schema : PyString) :
    Step (Option (ClaimIndex × PyFields)) :=
  if present then legacyClaimIndex project host relative schema else pure (some ([],[]))

def targetStatement (target : PyString) (claims : List PyString) : PyString :=
  say [layerOf target," target ",bareName target,", a required target of legacy claim(s) ",
    joined ", " (sortedNames claims)," migrated from ",legacyDirname,"/","g1-claims.json"]

/-- `_obligation` -/
def obligation (target migrated : PyString) (claims : List PyString) (witness : Bool) : PyData :=
  .dict ([(points "id",.str migrated)] ++
    (if migrated ≠ target then [(points "legacy_id",.str target)] else []) ++
    (if witness then [(points "name",.str (bareName target))] else []) ++
    [(points "statement",.str (targetStatement target claims))])

/-- The obligations of a bucket by migrated id. -/
def obligations (s : Synthesis) (bucket : List (PyString × List PyString)) (witness : Bool) :
    List PyData :=
  let idOf := fun target => (mapGet s.targetIds target).getD []
  (bucket.insertionSort (fun a b => idOf a.1 ≤ idOf b.1)).map (fun entry =>
    obligation entry.1 (idOf entry.1) entry.2 witness)

/-- The targets that are both invariant and witness. -/
def doubled (s : Synthesis) : List PyString :=
  sortedNames ((s.invariants.map Prod.fst).filter (fun target => target ∈ s.witnesses.map Prod.fst))

def reportDoubled (s : Synthesis) : Step Unit :=
  if doubled s = [] then pure ()
  else unsupported (say [legacyClaims,"#claims"]) (say ["required target(s) ",
    shownNames host (doubled s)," classify as both invariant and witness"])

def reportOwners (owner : PyString × List PyString) : Step Unit :=
  if owner.2.length ≤ 1 then pure ()
  else unsupported (say [legacyClaims,"#ids.",owner.1]) (say ["legacy ids ",
    shownNames host owner.2," all normalize to the obligation id ",host.repr (.str owner.1),
    ": one .fv/evidence/records/<id>.json record cannot discharge two obligations, and a ",
    "disambiguating suffix no legacy artifact names would be invented, so the ",
    "colliding names must be resolved in the legacy manifest first"])

def reportCollisions (s : Synthesis) : Step Unit := do
  reportDoubled host s
  forM (s.owners.insertionSort (fun a b => a.1 ≤ b.1)) (reportOwners host)

/-- Field of the document that is neither absent nor a string. -/
def carriedField (document : PyFields) (name : PyString) : PyFields :=
  match get document name with
  | .none => []
  | .str _ => []
  | other => [(name,other)]

def carriedFields (document : PyFields) : PyFields :=
  carriedField document "profile" ++ carriedField document "environment_policy"

def unknownFields (document : PyFields) : List PyString :=
  sortedNames ((document.map Prod.fst).filter (fun key => key ∉ documentKeys))

def reportDocument (document : PyFields) : Step Unit :=
  let carried := carriedFields document
  let named := sortedNames (unknownFields document ++ carried.map Prod.fst)
  if named = [] then pure ()
  else deviation (say [legacyClaims,"#document"]) obligationsPath (say ["document-level field(s) ",
    joined ", " named," are not part of the migrated manifest's shape: ",
    (if carried = [] then [] else "the typed ones are carried under migration.legacy_fields; "),
    "the document itself survives byte-for-byte at ",historyPath legacyClaims])

def migrationNote (sources : List PyString) (document : PyFields) : PyData :=
  .dict ([(points "source",strings (sortedNames sources)),(points "note",.str obligationsNote)] ++
    whenPresent "profile" (asText (get document "profile")) ++
    whenPresent "environment_policy" (asText (get document "environment_policy")) ++
    (if carriedFields document = [] then [] else
      [(points "legacy_fields",.dict (sortedFields (carriedFields document)))]))

/-- The obligation manifest. -/
def manifestDocument (s : Synthesis) (sources : List PyString) (document : PyFields) : PyData :=
  .dict [(points "version",.int 1),
    (points "invariants",.list (obligations s s.invariants false)),
    (points "witnesses",.list (obligations s s.witnesses true)),
    (points "system_claims",.list s.systemClaims),
    (points "migration",migrationNote sources document)]

def convertedNames (s : Synthesis) : PyString :=
  joined ", " (s.systemClaims.map (fun claim =>
    match textOf (lookup claim "legacy_id") with
    | some legacy => say [legacy," -> ",(textOf (lookup claim "id")).getD []]
    | none => (textOf (lookup claim "id")).getD []))

def mapManifest (s : Synthesis) (hasClaims hasObligations : Bool) : Step Unit := do
  forM (if hasClaims then [legacyClaims] else []) (fun relative =>
    mapped relative obligationsPath (say [number s.systemClaims.length,
      " legacy claim(s) converted to system_claims (",convertedNames s,"); ",
      number s.invariants.length," invariant(s) and ",number s.witnesses.length,
      " witness(es) synthesized from ",
      "required_targets, each keyed by the evidence-run-safe id its legacy target maps ",
      "to and carrying that target in legacy_id"]) false)
  forM (if hasObligations then [legacyObligations] else []) (fun relative =>
    mapped relative obligationsPath (say ["legacy required-claim set: contributes the `required` ",
      "flag of each system claim"]) false)

def keepManifests (sources : List PyString) : Step Unit :=
  forM sources (fun relative => preserved relative
    (say ["no legacy claim could be converted: kept as history, no obligation manifest ",
      "is written"]))

/-- The manifests that are present, in one order or the other. -/
def claimSources (hasClaims hasObligations : Bool) : List PyString :=
  (if hasClaims then [legacyClaims] else []) ++ (if hasObligations then [legacyObligations] else [])

def writeManifest (s : Synthesis) (hasClaims hasObligations : Bool) (document : PyFields) :
    Step Unit := do
  Raising.modify (fun plan => { plan with requiredLayers := some s.claimedLayers })
  forM (if hasClaims then [document] else []) reportDocument
  let data ← Raising.lift (canonicalJson host
    (manifestDocument s (claimSources hasClaims hasObligations) document))
  planWrite (plainWrite obligationsPath data)
  mapManifest s hasClaims hasObligations

def synthesize (details : ClaimIndex) (required : ClaimIndex) : Step Synthesis := do
  let ids := dedup (details.map Prod.fst ++ required.map Prod.fst)
  ids.foldlM (migrateClaim host details (requiredFlags required)) ⟨[],[],[],[],[],[]⟩

def migrateIndexes (hasClaims hasObligations : Bool) (required details : ClaimIndex)
    (document : PyFields) : Step Unit := do
  let s ← synthesize host details required
  reportCollisions host s
  if s.systemClaims.isEmpty then
    keepManifests (claimSources hasClaims hasObligations).reverse
  else writeManifest host s hasClaims hasObligations document

def migrateDetails (hasClaims hasObligations : Bool) (required : ClaimIndex) : Step Unit := do
  let details ← loadIndex project host hasClaims legacyClaims "colosseum-g1-claims"
  match details with
  | none => pure ()
  | some (details,document) =>
    migrateIndexes host hasClaims hasObligations required details document

/-- `_migrate_obligations` -/
def migrateObligations : Step Unit := do
  let hasObligations ← inventoried legacyObligations
  let hasClaims ← inventoried legacyClaims
  let required ← loadIndex project host hasObligations legacyObligations "colosseum-obligations"
  match required with
  | none => pure ()
  | some (required,_) => do
    forM required (checkRequired host)
    migrateDetails project host hasClaims hasObligations required

end Manifest

end Migration

end EvidenceV4
