import EvidenceV4.CheckedExcept
import EvidenceV4.EvidenceArtifact
import EvidenceV4.GraphExploration
import EvidenceV4.ToolPaths

/-!
# The images of a native tool

The adapter reads the load commands of an image and inspects every library that
they name, with the run paths of the images that led there. It remembers what it
has inspected by image, executable and run paths. A script is inspected through
its interpreter.
-/

set_option autoImplicit false

namespace EvidenceV4

namespace NativeImages

open CheckedExcept
open GraphExploration
open ProducerArtifact (units)
open ScalarText (JsString)
open ToolPaths

/-- Why a call of the system fails. -/
inductive Fault
  | absent
  | failed (message : String)
  deriving DecidableEq

inductive Stop
  | fault (fault : Fault)
  | fuel
  deriving DecidableEq

structure LoadCommands where
  dependencies : List JsString
  rpaths : List JsString

structure ToolRoot where
  label : JsString
  path : JsString
  deriving DecidableEq

/-- A system with finitely many files, which are their own canonical paths. The head of a file
is its first 256 bytes, and `otool` is what selecting the tool adds to the roots. -/
structure Machine where
  files : List JsString
  canonical : JsString → Except Fault JsString
  head : JsString → Except Fault (List UInt8)
  commands : JsString → Except Fault LoadCommands
  resolveCommand : JsString → Except Fault JsString
  otool : Except Fault (List ToolRoot)
  canonical_mem : ∀ p f, canonical p = .ok f → f ∈ files
  canonical_file : ∀ f ∈ files, canonical f = .ok f
  resolveCommand_mem : ∀ p f, resolveCommand p = .ok f → f ∈ files
  absolute : ∀ f ∈ files, f.head? = some slash

inductive Context
  | input (image executable : JsString) (rpaths : List JsString)
  | load (image executable : JsString) (rpaths : List JsString)
  deriving DecidableEq

structure State where
  memory : Memory Context ToolRoot
  otool : Bool

def lift {α : Type} (result : Except Fault α) : Except Stop α := result.mapError Stop.fault

section Heads

def machoMagic : List ℕ :=
  [0xfeedface,0xcefaedfe,0xfeedfacf,0xcffaedfe,0xcafebabe,0xbebafeca,0xcafebabf,0xbfbafeca]

/-- `readUInt32BE(0)` of a buffer of zeros that the head is read into. -/
def word (head : List UInt8) : ℕ :=
  ((head ++ [0,0,0,0]).take 4).foldl (fun n (b : UInt8) => 256 * n + b.toNat) 0

def headText (head : List UInt8) : List Char := (EvidenceArtifact.decode head).map Char.ofNat

/-- The tokens of the first line behind its number sign and exclamation mark. -/
def shebang (text : List Char) : Option (JsString × List JsString) :=
  match text with
  | '#' :: '!' :: _ =>
    let line := trim ((text.takeWhile (· ≠ '\n')).drop 2)
    match (line.splitOnP (fun c => c == ' ' || c == '\t')).filter (· ≠ []) with
    | [] => some ([],[])
    | first :: rest => some (jsUnits first,rest.map jsUnits)
  | _ => none

def interpreterOf (tokens : JsString × List JsString) : Except Fault JsString :=
  if basename tokens.1 = units "env" then
    match tokens.2 with
    | [second] => pure second
    | _ => throw (.failed "Unsupported native shebang")
  else pure tokens.1

/-- The image of a process, which for a script is the one of its interpreter. -/
def processImage (m : Machine) : ℕ → JsString → Except Fault JsString
  | 0, file => do
    let head ← m.head file
    if 4 ≤ head.length ∧ word head ∈ machoMagic then pure file
    else throw (.failed "Unsupported native process image")
  | left + 1, file => do
    let head ← m.head file
    if 4 ≤ head.length ∧ word head ∈ machoMagic then pure file
    else
      match shebang (headText head) with
      | none => throw (.failed "Unsupported native process image")
      | some tokens => do
        let interpreter ← interpreterOf tokens
        let next ← m.resolveCommand interpreter
        processImage m left next

end Heads

section Names

def loaderPath : JsString := units "@loader_path"

def executablePath : JsString := units "@executable_path"

def rpathLead : JsString := units "@rpath/"

def dirname (file : JsString) : JsString := render (resolve [] file).dropLast

/-- What `replace` inserts for a text at the start of a string: a dollar sign stands with the
character behind it for a dollar sign, the match, what is before it or what is behind it. -/
def replacement (found behind : JsString) : JsString → JsString
  | 36 :: 36 :: rest => 36 :: replacement found behind rest
  | 36 :: 38 :: rest => found ++ replacement found behind rest
  | 36 :: 96 :: rest => replacement found behind rest
  | 36 :: 39 :: rest => behind ++ replacement found behind rest
  | u :: rest => u :: replacement found behind rest
  | [] => []

def substitute (lead directory value : JsString) : JsString :=
  if lead.isPrefixOf value then
    replacement lead (value.drop lead.length) directory ++ value.drop lead.length
  else value

def expand (cwd : Directory) (executable loader value : JsString) : JsString :=
  render (resolve cwd (substitute executablePath (dirname executable)
    (substitute loaderPath (dirname loader) value)))

/-- `path.join(root, rest)` -/
def joinPath (root rest : JsString) : JsString :=
  let parts := (rest.splitOn slash).foldl enter (resolve [] root)
  if rest.getLast? = some slash ∧ parts ≠ [] then render parts ++ [slash] else render parts

def system (path : JsString) : Bool :=
  (units "/usr/lib/").isPrefixOf path || (units "/System/Library/").isPrefixOf path

def candidates (cwd : Directory) (image executable : JsString) (rpaths : List JsString)
    (install : JsString) : List JsString :=
  if rpathLead.isPrefixOf install then
    rpaths.map (fun root => joinPath root (install.drop rpathLead.length))
  else [expand cwd executable image install]

def existing (m : Machine) : List JsString → Except Fault (List JsString)
  | [] => pure []
  | candidate :: rest =>
    match m.canonical candidate with
    | .ok file => do
      let more ← existing m rest
      pure (file :: more)
    | .error .absent => existing m rest
    | .error fault => throw fault

def libraryOf (m : Machine) (cwd : Directory) (image executable : JsString)
    (rpaths : List JsString) (install : JsString) : Except Fault JsString := do
  let files ← existing m (candidates cwd image executable rpaths install)
  match files.eraseDups with
  | [target] => pure target
  | _ => throw (.failed "Unresolved or ambiguous native library")

def upperHex (n : ℕ) : JsString :=
  let digit := fun d => if d < 10 then Fin.ofNat 65536 (48 + d) else Fin.ofNat 65536 (55 + d)
  [digit (n / 16),digit (n % 16)]

def encodeURIComponent (s : JsString) : JsString :=
  (ScalarText.fileBytes s).flatMap (fun byte =>
    let c := Char.ofNat byte.toNat
    if c.isAlphanum || ['-','_','.','!','~','*','\'','(',')'].contains c then
      [Fin.ofNat 65536 byte.toNat]
    else 37 :: upperHex byte.toNat)

end Names

section Inspection

def State.mark (st : State) (context : Context) : State :=
  { st with memory := ⟨context :: st.memory.visited,st.memory.found⟩ }

def State.push (st : State) (roots : List ToolRoot) : State :=
  { st with memory := ⟨st.memory.visited,st.memory.found ++ roots⟩ }

def selectedOtool (m : Machine) (st : State) : Except Fault State :=
  if st.otool then pure st
  else do
    let roots ← m.otool
    pure { st.push roots with otool := true }

def readLoadCommands (m : Machine) (st : State) (image : JsString) :
    Except Fault (State × LoadCommands) := do
  let st ← selectedOtool m st
  let commands ← m.commands image
  pure (st,commands)

/-- The call of `inspect` for a file, its executable and the run paths that led to it. -/
abbrev Inspect := State → JsString → JsString → List JsString → Except Stop State

def inspectRuntime (m : Machine) (next : Inspect) (st : State) (interpreter : JsString) :
    Except Stop State := do
  let runtime ← lift (m.resolveCommand interpreter)
  next (st.push [⟨units "drivers/shebang-" ++ basename runtime,runtime⟩]) runtime runtime []

def inspectScript (m : Machine) (next : Inspect) (st : State) (text : List Char) :
    Except Stop State :=
  match shebang text with
  | none => pure st
  | some (first,rest) =>
    if basename first = units "env" then
      match rest with
      | [second] => do
        let env ← lift (m.resolveCommand first)
        let st ← next (st.push [⟨units "drivers/shebang-env",env⟩]) env env []
        inspectRuntime m next st second
      | _ => throw (.fault (.failed "Unsupported native shebang"))
    else inspectRuntime m next st first

def inspectDependency (m : Machine) (cwd : Directory) (next : Inspect) (image executable : JsString)
    (rpaths : List JsString) (st : State) (install : JsString) : Except Stop State :=
  if system install then pure st
  else do
    let target ← lift (libraryOf m cwd image executable rpaths install)
    if system target then pure st
    else
      let root : ToolRoot := ⟨units "non-system-libraries/" ++ encodeURIComponent install,target⟩
      next (st.push [root]) target executable rpaths

def executableOf (m : Machine) (real target : JsString) : Except Fault JsString :=
  if real = target then pure real else processImage m 3 target

/-- The run paths of the images that led to the image, or of its executable if there are none. -/
def inheritedPaths (m : Machine) (cwd : Directory) (st : State) (real executable : JsString)
    (inherited : List JsString) : Except Fault (State × List JsString) :=
  if inherited ≠ [] ∨ real = executable then pure (st,inherited)
  else do
    let (st,launcher) ← readLoadCommands m st executable
    pure (st,launcher.rpaths.map (expand cwd executable executable))

def inspectImage (m : Machine) (cwd : Directory) (next : Inspect) (st : State)
    (real target : JsString) (inherited : List JsString) : Except Stop State := do
  let executable ← lift (executableOf m real target)
  let (st,commands) ← lift (readLoadCommands m st real)
  let (st,tail) ← lift (inheritedPaths m cwd st real executable inherited)
  let rpaths := (commands.rpaths.map (expand cwd executable real) ++ tail).eraseDups
  if .load real executable rpaths ∈ st.memory.visited then
    pure (st.mark (.input real target inherited))
  else
    commands.dependencies.foldlM (inspectDependency m cwd next real executable rpaths)
      ((st.mark (.load real executable rpaths)).mark (.input real target inherited))

/-- The executable by its path or by its name as a command. -/
def executableTarget (m : Machine) (executable : JsString) : Except Fault JsString :=
  if executable.head? = some slash then m.canonical executable else m.resolveCommand executable

def inspectWith (m : Machine) (cwd : Directory) (next : Inspect) : Inspect :=
  fun st file executable inherited => do
    let real ← lift (m.canonical file)
    let target ← lift (executableTarget m executable)
    if .input real target inherited ∈ st.memory.visited then pure st
    else do
      let head ← lift (m.head real)
      if word head ∈ machoMagic then inspectImage m cwd next st real target inherited
      else inspectScript m next (st.mark (.input real target inherited)) (headText head)

/-- `inspect`, stopped behind so many nested calls. -/
def inspect (m : Machine) (cwd : Directory) : ℕ → Inspect
  | 0 => fun _ _ _ _ => throw .fuel
  | fuel + 1 => inspectWith m cwd (inspect m cwd fuel)

def digits (part : JsString) : Bool := part ≠ [] && part.all (fun u => 48 ≤ u && u ≤ 57)

/-- The names of native modules and libraries. -/
def libraryName (path : JsString) : Bool :=
  match (path.splitOn 46).reverse with
  | last :: _ :: _ =>
    last == units "node" || last == units "dylib" ||
      (match (path.splitOn 46).reverse.dropWhile digits with
        | extension :: _ :: _ => extension == units "so"
        | _ => false)
  | _ => false

/-- A native module or library is loaded by the first subject. -/
def launcherOf (subjects : List JsString) (path : JsString) : JsString :=
  if libraryName path then subjects.headD path else path

def inspectRoot (m : Machine) (cwd : Directory) (subjects : List JsString) (depth : ℕ)
    (st : State) (input : ToolRoot) : Except Stop State :=
  if (units "drivers/").isPrefixOf input.label then
    inspect m cwd depth st input.path (launcherOf subjects input.path) []
  else pure st

/-- The loop over the roots from an index on. -/
def discover (m : Machine) (cwd : Directory) (subjects : List JsString) (depth : ℕ) :
    ℕ → ℕ → State → Except Stop State
  | 0, _, _ => throw .fuel
  | steps + 1, index, st =>
    match st.memory.found[index]? with
    | none => pure st
    | some input => do
      let st ← inspectRoot m cwd subjects depth st input
      discover m cwd subjects depth steps (index + 1) st

end Inspection

end NativeImages

end EvidenceV4
