import EvidenceV4.MigrationState

/-!
# Intent, ledger and dispatch of a migration

The dispatch target is elected from the paths that the legacy entrypoint cites,
or the ledger when that cites none. A live ledger outranks the legacy one, and
Gate A must accept the ledger that the project will present. An existing dispatch
keeps everything but the two fields that the migration owns.
-/

set_option autoImplicit false

namespace EvidenceV4

namespace Migration

open CheckedExcept
open CheckerJson (PyString points)
open EvidenceArtifact (decode)
open PolicyDocument (mapGet)
open PythonData
open RepositoryTree (parsePath parent)

def legacyIntent : PyString := legacyPath "intent.md"

def legacyLedger : PyString := legacyPath "ledger.md"

def liveLedger : PyString := ".fv/ledger.md"

def intentPath : PyString := ".fv/intent.md"

def dispatchPath : PyString := ".fv/dispatch.json"

section Target

variable (project : Project) (host : Host)

/-- A parent step cancels the component before it, unless that is a parent step or the anchor. -/
def normalizeStep (parts : List PyString) (part : PyString) : List PyString :=
  if part = parent ∧ parts ≠ [] ∧ parts.getLast? ≠ some parent then parts.dropLast
  else parts ++ [part]

def normalize (parts : List PyString) : List PyString := parts.foldl normalizeStep []

def Project.contains (candidate : List PyString) : Bool := project.root.isPrefixOf candidate

/-- `resolve_target`: the file that a path names, if it stays below the root. -/
def resolveTarget (spec : PyString) : Except MigrationFailure (Option (List PyString)) :=
  let raw := parsePath spec
  let resolved := normalize (if raw.absolute then raw.parts else project.root ++ raw.parts)
  let home := raw.absolute = false ∧ (raw.parts.head?.map (points "~").isPrefixOf) = some true
  if blank spec = true ∨ home ∨ project.contains resolved = false ∨
      project.isSymlink resolved = true then pure none
  else do
    let real ← project.resolve resolved
    pure (if project.contains real = true ∧ project.isDir resolved = false ∧
      project.isFile resolved = true then some real else none)

/-- `relative_target_spec` of a resolved path. -/
def targetSpec (path : List PyString) : PyString := asPosix (path.drop project.root.length)

/-- The runs of word characters, dots, slashes and dashes of a text. -/
def pathRuns (text : PyString) : List PyString :=
  text.splitOnP (fun point => !(host.wordCharacter point || (points "./-").contains point))

/-- The longest beginning of a run that ends in `intent.md`. -/
def citedIn (run : PyString) : Option PyString :=
  (run.inits.filter (fun start => (points "intent.md").isSuffixOf start)).getLast?

/-- The path that a match stands for. -/
def candidateOf (cited : PyString) : PyString :=
  if (points "./").isPrefixOf cited then cited.dropWhile (fun point => (points "./").contains point)
  else cited

def usableCandidate (candidate : PyString) : Bool :=
  !(candidate.isEmpty || (legacyDirname ++ [47]).isPrefixOf candidate ||
    (parsePath candidate).absolute || (parsePath candidate).parts.contains parent)

def addCandidate (specs : List PyString) (candidate : PyString) :
    Except MigrationFailure (List PyString) := do
  let found ← resolveTarget project candidate
  match found with
  | none => pure specs
  | some path =>
    let spec := targetSpec project path
    pure (if spec ∈ specs then specs else specs ++ [spec])

/-- The distinct intents that a text cites and that exist, in first-cited order. -/
def citedIntents (text : PyString) : Except MigrationFailure (List PyString) :=
  (((pathRuns host text).filterMap citedIn).map candidateOf).filter usableCandidate
    |>.foldlM (addCandidate project) []

def ambiguous (source : PyString) (candidates : List PyString) : Step (Option PyString × Bool) := do
  unsupported (say [source,"#intent"]) (say ["cites ",number candidates.length,
    " existing canonical intents (",joined ", " candidates,
    "): the dispatch target is the root every migrated evidence record binds to, and ",
    "nothing in the legacy tree ranks one citation over another, so the ambiguity ",
    "is resolved in the legacy artifact rather than guessed here"])
  pure (none,true)

/-- The first document that cites an existing intent decides. -/
def electIntent : List PyString → Step (Option PyString × Bool)
  | [] => pure (none,false)
  | source :: rest => do
    let listed ← inventoried source
    match listed, project.readLegacy source with
    | true, .ok data => do
      let candidates ← Raising.lift (citedIntents project host (decode data))
      match candidates with
      | [] => electIntent rest
      | [candidate] => pure (some candidate,false)
      | _ => ambiguous source candidates
    | _, _ => electIntent rest

/-- `_external_intent`: the elected path, and whether an election was refused. -/
def externalIntent : Step (Option PyString × Bool) :=
  electIntent project host [legacyIntent,legacyLedger]

def defaultTargetSpec : PyString := ".fv/intent.md"

def redirectIntent (external : PyString) : Step (Option PyString) := do
  let present ← inventoried legacyIntent
  match present with
  | true => do
    mapped legacyIntent dispatchPath (say ["the canonical intent is ",external,
      ", which exists: dispatch targets it ",
      "instead of this entrypoint; the entrypoint's bytes are preserved as history"]) false
    pure (some external)
  | false => pure (some external)

def copyIntent : Step (Option PyString) := do
  let data ← readBytes project legacyIntent
  match data with
  | none => pure none
  | some data => do
    planWrite (plainWrite intentPath data)
    mapped legacyIntent intentPath
      "no cited external intent: this document becomes the dispatch target" true
    pure (some defaultTargetSpec)

def missingIntent : Step (Option PyString) := do
  unsupported (say [legacyDirname,"#intent"]) (say [
    "no dispatch target can be established: there is no ",legacyIntent,
    " and no document cites an existing canonical intent, so the ",
    "migrated project would declare no target_spec and every gate, evidence run and ",
    "skill would fail to resolve one"])
  pure none

def migrateIntent : Step (Option PyString) := do
  let (external,refused) ← externalIntent project host
  let present ← inventoried legacyIntent
  match external, refused, present with
  | some external, _, _ => redirectIntent external
  | none, false, true => copyIntent project
  | none, false, false => missingIntent
  | none, true, _ => pure none

end Target

section Ledger

variable (project : Project) (library : Library)

/-- Whether the project has a live ledger that the migration may read. -/
def hasLiveLedger : Bool :=
  (symlinkedComponent project liveLedger).isNone && project.isFile (project.at liveLedger)

def gateScript : PyString := "check_ledger_references.py"

def rejectedLive (legacy : Option PyString) (diagnostic : PyString) : PyString :=
  say ["the extension's current Gate A (",gateScript,", default strictness, ",
    "--root the project root) refuses the live ledger this project ",
    "already carries: ",diagnostic,". This file, not ",
    (match legacy with
      | some legacy => say [legacy,", "]
      | none => "the legacy tree, "),
    "is what the migrated project presents to its first gate run, and unlike ",
    "the legacy tree it is writable: fix the citations in ",liveLedger," -- ",
    "content-bind them, drop one that cites nothing -- and re-run. This ",
    "migration never rewrites a ledger, so ",liveLedger," is left exactly as you ",
    "wrote it and nothing was written"]

def unavailableLive (diagnostic : PyString) : PyString :=
  say ["the extension's current Gate A could not be run against the live ledger ",
    "this project already carries, so its readiness is unknown: ",diagnostic,". ",
    "That is an infrastructure failure of the check, not a verdict on the bytes ",
    "of ",liveLedger,": repair the check and re-run. The migration blocks rather ",
    "than adopting a ledger nothing confirmed, and neither that file nor the ",
    "legacy ",legacyDirname,"/ tree is touched"]

def acceptedLive (diagnostic : PyString) : PyString :=
  say [liveLedger," already exists and the extension's current Gate A ",
    "(",gateScript,", default strictness) accepts it against this project root, ",
    "so it is the migrated project's ledger and its bytes are kept exactly as written ",
    "(gate warnings: ",diagnostic,")"]

/-- What becomes of a legacy ledger beside an adopted live one. -/
def settleLegacyLedger (legacy : PyString) (current : Bytes) (accepted : PyString) : Step Unit := do
  let data ← readBytes project legacy
  match data with
  | none => pure ()
  | some data =>
    if data = current then
      mapped legacy liveLedger (say [accepted,
        ", and the legacy ledger is byte-identical to it: the mapping is ",
        "already in place and nothing is rewritten"]) true
    else preserved legacy (say [accepted,". The legacy ledger differs from it (legacy ",
      "sha256:",library.sha256 data,", live sha256:",library.sha256 current,"), which ",
      "is exactly what a remediated ledger differs by, so it is history and the ",
      "auditable original rather than a destination conflict. A verified-input entry ",
      "naming ",legacy," binds ",liveLedger,", the document a layer now reads in its place"])

def adoptLegacy (legacy : Option PyString) (current : Bytes) (accepted : PyString) : Step Unit :=
  match legacy with
  | none => pure ()
  | some legacy => do
    Raising.modify (fun plan => { plan with rebound := plan.rebound ++ [(legacy,liveLedger)] })
    settleLegacyLedger project library legacy current accepted

def adoptLiveLedger (legacy : Option PyString) : Step Unit :=
  match project.readBytes (project.at liveLedger) with
  | .error error => conflict (say [liveLedger,": exists and is unreadable (",error,
      "), so the ledger the migrated project would present to its first gate run ",
      "cannot be checked and must not be replaced"])
  | .ok current =>
    match project.gateA liveLedger with
    | (.rejected,diagnostic) =>
      unsupported (say [liveLedger,"#gate-a"]) (rejectedLive legacy diagnostic)
    | (.unavailable,diagnostic) =>
      unsupported (say [liveLedger,"#gate-a"]) (unavailableLive diagnostic)
    | (.passed,diagnostic) => do
      planWrite (plainWrite liveLedger current)
      adoptLegacy project library legacy current (acceptedLive diagnostic)

def rejectedLegacy (relative diagnostic : PyString) : PyString :=
  say ["the extension's current Gate A (",gateScript,", default strictness, ",
    "--root the project root) refuses this ledger: ",diagnostic,". The ",
    "migrated ",liveLedger," would be these same bytes checked against the same ",
    "root, so the migrated project would fail its first gate run here. This ",
    "migration validates readiness and never rewrites a ledger, and it never ",
    "writes into ",legacyDirname,"/ either: fix the citations in ",relative," -- ",
    "content-bind them, re-root one written relative to ",legacyDirname,"/, drop ",
    "one that cites nothing -- and re-run, or run --stage-ledger-remediation to copy ",
    "this ledger to ",liveLedger," and remediate it there, which a later ",
    "migration then adopts in place of the legacy bytes"]

def unavailableLegacy (diagnostic : PyString) : PyString :=
  say ["the extension's current Gate A could not be run against this ledger, so its ",
    "readiness is unknown: ",diagnostic,". That is an infrastructure failure of the ",
    "check, not a verdict on the ledger bytes: repair the check and re-run. The ",
    "migration blocks rather than mapping a ledger nothing confirmed, and the ",
    "legacy ",legacyDirname,"/ tree is left exactly as it was"]

def acceptedLegacy (diagnostic : PyString) : PyString :=
  say ["legacy ledger, verbatim: the bytes are preserved exactly, and the extension's ",
    "current Gate A (",gateScript,", default strictness) accepts them against ",
    "this project root, so ",liveLedger," starts gate-clean (gate warnings: ",
    diagnostic,"). A citation written relative to ",legacyDirname,"/ resolves from ",
    "neither location and would have blocked this migration instead of migrating into ",
    "a ledger that fails its first gate run"]

def migrateLegacyLedger (relative : PyString) : Step Unit := do
  let data ← readBytes project relative
  match data, project.gateA relative with
  | none, _ => pure ()
  | some _, (.rejected,diagnostic) =>
    unsupported (say [relative,"#gate-a"]) (rejectedLegacy relative diagnostic)
  | some _, (.unavailable,diagnostic) =>
    unsupported (say [relative,"#gate-a"]) (unavailableLegacy diagnostic)
  | some data, (.passed,diagnostic) => do
    planWrite (plainWrite liveLedger data)
    mapped relative liveLedger (acceptedLegacy diagnostic) true

def migrateLedger : Step Unit := do
  let present ← inventoried legacyLedger
  match hasLiveLedger project, present with
  | true, true => adoptLiveLedger project library (some legacyLedger)
  | true, false => adoptLiveLedger project library none
  | false, true => migrateLegacyLedger project legacyLedger
  | false, false => pure ()

end Ledger

section Dispatch

variable (project : Project) (host : Host) (template : PyFields)

/-- `fields[key] = value` -/
def setField (fields : PyFields) (key : PyString) (value : PyData) : PyFields :=
  if has fields key then
    fields.map (fun field => if field.1 = key then (key,value) else field)
  else fields ++ [(key,value)]

/-- The document with the two fields of its route that a migration owns. -/
def routed (config route : PyFields) (target : PyString) : PyData :=
  .dict (setField config "omp_native" (.dict
    (setField (setField route "project_root" (.str ".")) "target_spec" (.str target))))

def adoptionDetail (route : PyFields) (target : PyString) : PyString :=
  say ["existing route adopted: target_spec ",host.repr (get route "target_spec")," -> ",
    host.repr (.str target),", project_root ",host.repr (get route "project_root"),
    " -> '.'; every other field of the existing dispatch is kept"]

/-- An existing route keeps its bytes when they are canonical already. -/
def adoptRoute (existing : Bytes) (config route : PyFields) (target : PyString) : Step Unit :=
  if equal (get route "project_root") (.str ".") = true ∧
      equal (get route "target_spec") (.str target) = true then
    planWrite (plainWrite dispatchPath existing)
  else do
    let data ← Raising.lift (canonicalJson host (routed config route target))
    planWrite ⟨dispatchPath,data,.create,none,true,false,adoptionDetail host route target⟩

def adoptDispatch (existing : Bytes) (target : PyString) : Step Unit :=
  match parseDocument host existing with
  | none => conflict (say [".fv/dispatch.json: exists and is not readable JSON (",
      host.decodeError existing,")"])
  | some document =>
    match document, lookup document "omp_native" with
    | .dict config, .dict route => adoptRoute host existing config route target
    | _, _ => conflict ".fv/dispatch.json: exists without an omp_native route"

/-- `_migrate_dispatch`, where the template is the example dispatch of the extension. -/
def migrateDispatch (target : Option PyString) : Step Unit :=
  match target with
  | none => pure ()
  | some target =>
    let destination := project.at dispatchPath
    if project.isFile destination = true ∧ project.isSymlink destination = false then
      match project.readBytes destination with
      | .error error => conflict (say [".fv/dispatch.json: exists and is not readable JSON (",
          error,")"])
      | .ok existing => adoptDispatch host existing target
    else do
      let data ← Raising.lift (canonicalJson host
        (routed template ((fieldsOf (get template "omp_native")).getD []) target))
      planWrite (plainWrite dispatchPath data)

end Dispatch

end Migration

end EvidenceV4
