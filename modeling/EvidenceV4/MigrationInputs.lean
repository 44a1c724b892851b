import EvidenceV4.MigrationIntent
import EvidenceV4.MigrationRuns
import EvidenceV4.VerifiedInputs

/-!
# The verified-input policy of a migration

The legacy include list means what an include policy means, so its entries are
carried across. An entry inside the legacy tree binds the artifact that its
content migrated to, or nothing. The policy is read back by the parser that the
gates use before it is planned.
-/

set_option autoImplicit false

namespace EvidenceV4

namespace Migration

open CheckedExcept
open CheckerJson (PyString points)
open PolicyDocument (mapGet)
open PythonData
open VerifiedInputs (InputPolicy Text Rejection LowerCase)
open VerifiedInputs.FvProject

def legacyVerifiedInputs : PyString := legacyPath "verified-inputs.txt"

/-- The interpreter and the files of the extension that migrates. -/
structure Installation extends Host where
  lowerCase : LowerCase
  rejected : Rejection Text → PyString
  template : PyFields

section Policies

def codes (text : Text) : PyString := text.map Char.toNat

def chars (text : PyString) : Text := text.map Char.ofNat

def inputsPath : PyString := codes verifiedInputsRelative

def modeDirective (mode : Text) : Text := modeDirectivePrefix ++ ' ' :: mode

/-- `render_policy`, where the header is emitted in front of the directive. -/
def renderPolicy (policy : InputPolicy Text) (header : Text) : Text :=
  let closed := if header = [] ∨ header.getLast? = some '\n' then header else header ++ ['\n']
  closed ++ modeDirective policy.mode ++ '\n' :: policy.prefixes.flatMap (fun entry => entry ++ ['\n'])

def exclusionHeader : PyString := say
  ["# Verified-input exclusion prefixes for the FV evidence content snapshot.\n",
    "# The mode directive below is the first non-comment line; the entries under\n",
    "# it are the paths the snapshot does not bind. Blank lines and # comments\n",
    "# are ignored; directory prefixes end in /.\n",
    "#\n",
    "# The legacy tree recorded no .colosseum/verified-inputs.txt, so there was\n",
    "# no include list to translate and this file starts from FV's conservative\n",
    "# defaults. Imported history is excluded: those bytes are a record of past\n",
    "# runs, not an input any layer reads.\n"]

def includeHeader : PyString := say
  ["# Verified-input include policy for the FV evidence content snapshot.\n",
    "# The mode directive below is the first non-comment line; the entries under\n",
    "# it are the only paths the snapshot binds. Blank lines and # comments are\n",
    "# ignored; directory prefixes end in /.\n",
    "#\n",
    "# Translated from .colosseum/verified-inputs.txt, which was already an\n",
    "# include list: FV include mode means the same thing, so each legacy entry\n",
    "# is carried across rather than inverted into the complement of the\n",
    "# repository. An entry naming a legacy manifest binds the FV artifact its\n",
    "# content migrated to instead, because the legacy bytes themselves become\n",
    "# snapshot-excluded history. The exact legacy list is kept verbatim at\n",
    "# .fv/history/colosseum/verified-inputs.txt.\n",
    "#\n",
    "# This file binds itself, so editing the policy invalidates the evidence\n",
    "# bound to it. FV's structural output exclusions still apply before include\n",
    "# matching, so no FV or legacy output can stale a record.\n"]

/-- The policy of a project without a legacy list. -/
def defaultPolicy : InputPolicy Text :=
  { mode := modeExclude
    prefixes := (dedup (defaultExclusions.map codes ++ [points ".fv/history/",
      points ".fv/.migrate-staging/"])).map chars
    structural := defaultExclusions }

end Policies

section Translation

/-- The live artifact that the content of a legacy file migrated into. -/
def liveDestination (plan : Plan) (source : PyString) : Option PyString :=
  (plan.artifacts.filter (fun artifact => artifact.classification = .mapped ∧ 35 ∉ artifact.source ∧
    artifact.source = source)).findSome? (fun artifact =>
      artifact.destination.filter (fun destination => destination ≠ dispatchPath ∧
        destination ∈ plan.writes.map PlannedWrite.path))

def historyOf (path : PyString) : PyString :=
  if path = legacyDirname then historyRelative else historyPath path

def trimSlashes (entry : PyString) : PyString :=
  let trimmed := (entry.reverse.dropWhile (· = 47)).reverse
  if trimmed = [] then entry else trimmed

/-- What an entry inside the legacy tree binds, or why it binds nothing. -/
def translateLegacy (plan : Plan) (path : PyString) : Except PyString PyString :=
  if path = legacyIntent then
    match plan.targetSpec with
    | some target => pure target
    | none => throw (say ["names the legacy intent entrypoint, and this migration elected no ",
        "dispatch target, so there is no canonical document for the entry to bind"])
  else
    match (mapGet plan.rebound path).or (liveDestination plan path) with
    | some destination => pure destination
    | none => throw (say ["names legacy bytes this migration preserves under ",historyOf path,
        " rather than mapping to a live FV artifact, and imported history is structurally ",
        "excluded from the snapshot: a record of past runs is not an input a layer reads, so the ",
        "translated policy binds nothing for this entry"])

/-- `_translate_include_entry` -/
def translateEntry (plan : Plan) (entry : PyString) : Except PyString PyString :=
  if entry = legacyDirname ∨ (legacyDirname ++ [47]) <+: entry then
    translateLegacy plan (trimSlashes entry)
  else pure entry

structure Translation where
  selected : List PyString
  rewrites : List PyString
  dropped : List (PyString × PyString)

def addEntry (plan : Plan) (t : Translation) (entry : PyString) : Translation :=
  match translateEntry plan entry with
  | .error refusal => { t with dropped := t.dropped ++ [(entry,refusal)] }
  | .ok translated =>
    { t with
      rewrites := if translated = entry then t.rewrites
        else t.rewrites ++ [say [entry," -> ",translated]]
      selected := if translated ∈ t.selected then t.selected else t.selected ++ [translated] }

def translateEntries (plan : Plan) (entries : List PyString) : Translation :=
  entries.foldl (addEntry plan) ⟨[],[],[]⟩

def migratedArtifacts : List PyString := [obligationsPath,planPath]

/-- The target and the migrated manifests that the list does not bind already. -/
def boundBeyond (plan : Plan) (selected : List PyString) : List PyString :=
  let candidates := plan.targetSpec.toList ++ migratedArtifacts
  candidates.foldl (fun bound artifact =>
    if artifact ∈ selected ++ bound then bound
    else if artifact ∈ migratedArtifacts ∧ artifact ∉ plan.writes.map PlannedWrite.path then bound
    else bound ++ [artifact]) []

end Translation

section Inputs

variable (project : Project) (installation : Installation)

def policyError (parts : List PyString) : MigrationFailure :=
  .migrationError (say (inputsPath :: parts))

/-- The rendered include policy, once it reads back as it was meant. -/
def renderedPolicy (selected : List PyString) : Except MigrationFailure Text := do
  let policy ← (inputPolicy modeInclude (selected.map chars)).mapError (fun error =>
    policyError [": the translated include policy over ",shownNames installation.toHost selected,
      " is invalid (",installation.rejected error,")"])
  let rendered := renderPolicy policy (chars includeHeader)
  let written ← (parsePolicy installation.lowerCase rendered).mapError (fun error =>
    policyError [": the translated policy does not parse (",installation.rejected error,")"])
  check (written.mode = modeInclude ∧ written.prefixes = policy.prefixes)
    (policyError [": the translated policy reads back as ",codes written.mode," mode over ",
      shownNames installation.toHost (written.prefixes.map codes),", not include mode over ",
      shownNames installation.toHost (policy.prefixes.map codes)])
  check (verifiedInputsRelative ∈ selectors written)
    (policyError [": the translated policy does not bind ",
      "itself, so a policy edit would not invalidate the evidence bound to it"])
  pure rendered

def policyDetail (selected bound rewrites : List PyString) : PyString :=
  say ["legacy include list translated to FV include mode over ",number selected.length,
    (if selected.length = 1 then " entry (" else " entries ("),joined ", " selected,
    "): both files mean the same thing, so source roots ",
    "are kept verbatim instead of inverted into exclusions",
    (if rewrites = [] then [] else
      say ["; legacy manifest paths rebound to the FV artifacts their content migrated to (",
        joined "; " rewrites,")"]),
    (if bound = [] then [] else
      say ["; ",joined ", " bound," bound beyond the legacy list: the canonical target and ",
        "the migrated manifests are what FV reads to decide what each layer must ",
        "discharge and what command discharges it"]),
    "; ",inputsPath," binds itself, so editing the policy ",
    "invalidates the evidence bound to it. The exact legacy list is kept verbatim as history"]

def reportDropped (dropped : PyString × PyString) : Step Unit :=
  deviation (say [legacyVerifiedInputs,"#",dropped.1]) inputsPath dropped.2

def writePolicy (t : Translation) (bound : List PyString) : Step Unit := do
  let rendered ← Raising.lift (renderedPolicy installation (t.selected ++ bound))
  planWrite (plainWrite inputsPath (ScalarText.encode (codes rendered)))
  mapped legacyVerifiedInputs inputsPath (policyDetail (t.selected ++ bound) bound t.rewrites) false
  forM t.dropped reportDropped

def translatePolicy (entries : List PyString) : Step Unit := do
  let plan ← Raising.asking (fun plan => pure plan)
  let t := translateEntries plan entries
  if t.selected = [] then
    unsupported legacyVerifiedInputs (say [
      "every entry names legacy bytes that migrate to snapshot-excluded history, so ",
      "the translation selects nothing any layer reads: the policy would bind only ",
      "the artifacts this migration authored, and the evidence bound to it would ",
      "survive every edit to the sources a layer actually decides on. Name the ",
      "sources in the legacy list, or delete it to migrate onto FV's exclusion ",
      "defaults; inverting the list into exclusions is not the fallback, since that ",
      "would enumerate the complement of the repository"])
  else writePolicy installation t (boundBeyond plan t.selected)

def migratePolicy (policy : InputPolicy Text) : Step Unit :=
  if policy.prefixes = [] then
    unsupported legacyVerifiedInputs (say [
      "declares no entries: an include list naming nothing binds nothing, and a ",
      "policy translated from it would narrow the snapshot to the canonical target ",
      "alone while every layer's real inputs went unbound. Record the paths the ",
      "layers read, or delete the file to migrate onto FV's exclusion defaults"])
  else translatePolicy installation (policy.prefixes.map codes)

def readPolicy (data : Bytes) : Step Unit :=
  match decodeStrict data with
  | none => unsupported legacyVerifiedInputs (say ["not valid UTF-8 (",
      installation.decodeError data,"): the entries cannot be read as paths, and a ",
      "replacement character in a translated policy would bind a path that does not exist"])
  | some text =>
    match parsePolicy installation.lowerCase (chars text) with
    | .error error => unsupported legacyVerifiedInputs (say [
        "not a parseable verified-input policy (",installation.rejected error,
        "): the same grammar governs the translated FV policy, so an entry FV would reject ",
        "cannot be carried across as one"])
    | .ok policy => migratePolicy installation policy

/-- `_migrate_verified_inputs` -/
def migrateVerifiedInputs : Step Unit := do
  let present ← inventoried legacyVerifiedInputs
  match present with
  | false => planWrite (plainWrite inputsPath
      (ScalarText.encode (codes (renderPolicy defaultPolicy (chars exclusionHeader)))))
  | true => do
    let data ← readBytes project legacyVerifiedInputs
    match data with
    | none => pure ()
    | some data => readPolicy installation data

end Inputs

end Migration

end EvidenceV4
