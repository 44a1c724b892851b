import EvidenceV4.OrderedRecord
import EvidenceV4.ToolPaths
import Mathlib.Data.List.Sort

/-!
# The selected Lean toolchain

The adapter reads the toolchain that it attests from the `+toolchain` argument,
the environment, the overrides of the settings file and the pin file, in this
order. Overrides are tried from the longest spelling of a directory to the
shortest, and the pin file is the first one above the working directory.
-/

set_option autoImplicit false

namespace EvidenceV4

namespace LeanSelection

open JsonText (lexemeUnits)
open ProducerArtifact (units)
open ScalarText (JsString)
open ToolPaths

section Settings

def lineEnd (c : Char) : Bool := c == '\n' || c == '\r' || c.toNat == 0x2028 || c.toNat == 0x2029

/-- `text.split(/\r?\n/u)` -/
def lines : List Char → List (List Char)
  | [] => [[]]
  | '\r' :: '\n' :: rest => [] :: lines rest
  | '\n' :: rest => [] :: lines rest
  | c :: rest =>
    match lines rest with
    | line :: more => (c :: line) :: more
    | [] => [[c]]

/-- A quoted literal behind its first quote, up to the closing one, and what follows. -/
def quotedEnd : List Char → Option (List Char × List Char)
  | [] => none
  | '"' :: rest => some (['"'],rest)
  | '\\' :: c :: rest =>
    if lineEnd c then none else (quotedEnd rest).map (fun r => ('\\' :: c :: r.1,r.2))
  | '\\' :: [] => none
  | c :: rest => (quotedEnd rest).map (fun r => (c :: r.1,r.2))

/-- `JSON.parse` of a string literal behind its first quote. -/
def parseLiteral (s : List Char) : Except String JsString :=
  match JsonText.readString s with
  | some (lexemes,[]) => pure (lexemes.flatMap lexemeUnits)
  | _ => throw "JSON Parse error"

def tomlString (value : List Char) : Except String JsString :=
  match trim value with
  | '\'' :: rest =>
    if rest.getLast? = some '\'' ∧ '\'' ∉ rest.dropLast then pure (jsUnits rest.dropLast)
    else throw "Unsupported Elan selection configuration"
  | '"' :: rest =>
    match quotedEnd rest with
    | some (_,[]) => parseLiteral rest
    | _ => throw "Unsupported Elan selection configuration"
  | _ => throw "Unsupported Elan selection configuration"

/-- The value behind the sign of an assignment. -/
def behindKey (s : List Char) : Option (List Char) :=
  match s.dropWhile space with
  | '=' :: rest =>
    let value := rest.dropWhile space
    if value = [] ∨ value.any lineEnd then none else some value
  | _ => none

def quotedAssignment : List Char → Option (List Char × List Char)
  | '"' :: rest => do
    let (literal,behind) ← quotedEnd rest
    let value ← behindKey behind
    pure ('"' :: literal,value)
  | _ => none

def plainAssignment (line : List Char) : Option (List Char × List Char) := do
  let key := line.takeWhile (· != '=')
  if key = [] then none
  else do
    let value ← behindKey (line.drop key.length)
    pure (key,value)

def assignment (line : List Char) : Option (List Char × List Char) :=
  (quotedAssignment line).orElse (fun _ => plainAssignment line)

structure ElanSettings where
  defaultToolchain : Option JsString
  overrides : OrderedRecord.Entries JsString JsString

def elanLine (state : Bool × ElanSettings) (source : List Char) :
    Except String (Bool × ElanSettings) := do
  let (overrides,result) := state
  let line := trim source
  match line with
  | [] => pure state
  | '#' :: _ => pure state
  | '[' :: _ =>
    if String.ofList line = "[overrides]" then pure (true,result)
    else throw "Unsupported Elan configuration section"
  | _ =>
    match assignment line with
    | none => throw "Invalid Elan configuration"
    | some (key,value) =>
      if overrides then do
        let name ← tomlString (trim key)
        let token ← tomlString value
        pure (true,{ result with overrides := OrderedRecord.assign result.overrides name token })
      else if String.ofList (trim key) = "default_toolchain" then do
        let token ← tomlString value
        pure (false,{ result with defaultToolchain := some token })
      else if String.ofList (trim key) = "version" ∨ String.ofList (trim key) = "telemetry" then
        pure state
      else throw "Unsupported Elan configuration key"

/-- The settings of the file, or of none. -/
def elanSettings : Option (List Char) → Except String ElanSettings
  | none => pure ⟨none,[]⟩
  | some text => do
    let (_,result) ← (lines text).foldlM elanLine (false,⟨none,[]⟩)
    pure result

end Settings

section Ancestors

/-- The directory and the ones above it, up to the root. -/
def ancestors (start : Directory) : List Directory := start.inits.reverse

/-- The first pin file on the way up, with its directory. -/
def ancestorFile (pins : Directory → Option (List Char)) (start : Directory) :
    Option (Directory × List Char) :=
  (ancestors start).findSome? (fun cursor => (pins cursor).map (fun text => (cursor,text)))

end Ancestors

section Invocation

def leanInvocation (subject : List JsString) : Except String (List JsString) :=
  match subject with
  | [] => throw "Invalid subject"
  | first :: rest =>
    if basename first ≠ units "elan" then pure subject
    else
      match rest with
      | run :: toolchain :: tool :: more =>
        if run = units "run" ∧ toolchain ≠ [] ∧ toolchain.head? ≠ some 45 ∧
            tool ∈ [units "lean",units "lake"] ∧ more.head?.bind List.head? ≠ some 43 then
          pure (tool :: (43 :: toolchain) :: more)
        else throw "Unsupported Elan application selector; expected elan run <toolchain> lean|lake"
      | _ => throw "Unsupported Elan application selector; expected elan run <toolchain> lean|lake"

structure LeanOptions where
  toolchain : Option JsString
  directory : Option JsString
  configuration : JsString

/-- The token behind an option. -/
def optionValue : List JsString → Except String JsString
  | [] => throw "Invalid Lake adapter selector value"
  | token :: _ =>
    if token = [] ∨ token.head? = some 45 then throw "Invalid Lake adapter selector value"
    else pure token

def leanFile (arg : JsString) : Bool :=
  match arg.reverse with
  | n :: a :: e :: l :: d :: _ =>
    (n == 110 || n == 78) && (a == 97 || a == 65) && (e == 101 || e == 69) &&
      (l == 108 || l == 76) && d == 46
  | _ => false

def targetName (arg : JsString) : Bool :=
  arg ≠ [] && arg.all (fun u => (48 ≤ u && u ≤ 57) || (65 ≤ u && u ≤ 90) || (97 ≤ u && u ≤ 122) ||
    u == 95 || u == 46)

def leanArguments : LeanOptions → List JsString → Except String LeanOptions
  | options, [] => pure options
  | options, arg :: rest => do
    if arg ∈ ["--version","--print-prefix","--deps","--run"].map units ∨ leanFile arg then
      leanArguments options rest
    else throw "Unsupported Lean application argument"

def lakeArguments (commandSeen : Bool) : LeanOptions → List JsString → Except String LeanOptions
  | options, [] => pure options
  | options, arg :: rest =>
    if arg = units "-d" ∨ arg = units "--dir" then do
      let token ← optionValue rest
      match rest with
      | [] => throw "Invalid Lake adapter selector value"
      | _ :: rest => lakeArguments commandSeen { options with directory := some token } rest
    else if (units "--dir=").isPrefixOf arg then
      lakeArguments commandSeen { options with directory := some (arg.drop 6) } rest
    else if arg = units "-f" ∨ arg = units "--file" then do
      let token ← optionValue rest
      match rest with
      | [] => throw "Invalid Lake adapter selector value"
      | _ :: rest => lakeArguments commandSeen { options with configuration := token } rest
    else if (units "--file=").isPrefixOf arg then
      lakeArguments commandSeen { options with configuration := arg.drop 7 } rest
    else if arg ∈ ["--reconfigure","-R","--version","--help","-h","-v","--verbose","-q","--quiet"].map
        units then
      lakeArguments commandSeen options rest
    else if commandSeen = false ∧ arg = units "build" then lakeArguments true options rest
    else if commandSeen = false ∨ targetName arg = false then
      throw "Unsupported Lake application argument or dependency selector"
    else lakeArguments commandSeen options rest

/-- The options of an invocation; a leading argument with a plus names a toolchain. -/
def leanOptions (subject : List JsString) : Except String LeanOptions := do
  let invocation ← leanInvocation subject
  let start : LeanOptions := ⟨none,none,units "lakefile"⟩
  let lake := (invocation.head?.map basename) = some (units "lake")
  let (options,rest) : LeanOptions × List JsString :=
    match invocation.tail with
    | (u :: toolchain) :: rest =>
      if u = 43 then ({ start with toolchain := some toolchain },rest)
      else (start,(u :: toolchain) :: rest)
    | rest => (start,rest)
  let result ← if lake then lakeArguments false options rest else leanArguments options rest
  if result.configuration = [] ∨ result.directory = some [] ∨ result.toolchain = some [] then
    throw "Invalid Lake adapter selector"
  else pure result

end Invocation

section Selection

/-- What the adapter reads of an elan installation. -/
structure ElanHome where
  path : JsString
  settings : Option (List Char)
  installed : List JsString
  directory : JsString → Except String JsString
  which : JsString → JsString → Except String JsString

structure SelectedLean where
  home : JsString
  lean : JsString
  lake : JsString
  selection : JsString
  deriving DecidableEq

def longestFirst (overrides : OrderedRecord.Entries JsString JsString) :
    OrderedRecord.Entries JsString JsString :=
  overrides.insertionSort (fun a b => b.1.length ≤ a.1.length)

def overrideOf (base cwd : Directory) (overrides : OrderedRecord.Entries JsString JsString) :
    Option JsString :=
  ((longestFirst overrides).find? (fun entry =>
    inside (render (resolve base entry.1)) (render cwd))).map Prod.snd

def pinSelection (pins : Directory → Option (List Char)) (cwd : Directory) : Option JsString :=
  (ancestorFile pins cwd).map (fun file => jsUnits (trim file.2))

def selectionOf (toolchain environment : Option JsString) (pins : Directory → Option (List Char))
    (base cwd : Directory) (overrides : OrderedRecord.Entries JsString JsString) :
    Option JsString :=
  toolchain <|> environment <|> overrideOf base cwd overrides <|> pinSelection pins cwd

/-- The name under which a toolchain is installed. -/
def installName (selection : JsString) : JsString :=
  selection.flatMap (fun u => if u = slash then units "--" else if u = 58 then units "---" else [u])

/-- `selectedLean` where the entry lies beside an elan. -/
def selectedLean (elan : ElanHome) (environment : Option JsString)
    (pins : Directory → Option (List Char)) (base cwd : Directory) (subject : List JsString) :
    Except String SelectedLean := do
  let options ← leanOptions subject
  let settings ← elanSettings elan.settings
  match selectionOf options.toolchain environment pins base cwd settings.overrides with
  | none => throw "Lean adapter requires subject lean-toolchain; Elan default fallback is forbidden"
  | some selection =>
    if selection = [] then
      throw "Lean adapter requires subject lean-toolchain; Elan default fallback is forbidden"
    else if installName selection = [] ∨ slash ∈ installName selection ∨
        installName selection = dot ∨ installName selection = dotdot then
      throw "Invalid selected Lean toolchain"
    else if installName selection ∉ elan.installed then
      throw "Selected Lean version is not installed"
    else do
      let home ← elan.directory (elan.path ++ units "/toolchains/" ++ installName selection)
      let lean ← elan.which selection (units "lean")
      let lake ← elan.which selection (units "lake")
      if inside home lean ∧ inside home lake then pure ⟨home,lean,lake,selection⟩
      else throw "Elan selected a different installed Lean/Lake distribution"

end Selection

end LeanSelection

end EvidenceV4
