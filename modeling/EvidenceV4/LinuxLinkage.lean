import EvidenceV4.ElfReader
import EvidenceV4.NativeImages

/-!
# The libraries of Linux images

The adapter visits an image once, with the search paths of the images that led to
it. It follows the interpreter and every needed name, which it looks up in the
search paths, in the cache of the loader and in the default directories. A
library outside the system directories becomes a root.
-/

set_option autoImplicit false

namespace EvidenceV4

namespace LinuxLinkage

open CanonicalJson (decodeUTF8)
open ElfReader (LinuxELF Text)
open GraphExploration
open JsonText (CodeUnit)
open LoggedReads (number slice)
open NativeImages (ToolRoot dirname encodeURIComponent headText joinPath)
open ProducerArtifact (units)
open ScalarText (JsString)
open ToolPaths

/-- Why a call of the system fails: `ENOENT`, `ENOTDIR` or anything else. -/
inductive Fault
  | absent
  | notDirectory
  | failed (message : JsString)
  deriving DecidableEq

inductive Stop
  | fault (fault : Fault)
  | fuel
  deriving DecidableEq

/-- A system with finitely many files, which are their own canonical paths. What `ELFReader.read`
gives for a file is its image, and what `fs.readFile` gives its content. -/
structure System where
  files : List JsString
  canonical : JsString → Except Fault JsString
  regular : JsString → Except Fault Bool
  image : JsString → Except Fault (Option LinuxELF)
  access : JsString → Except Fault Unit
  content : JsString → Except Fault (List UInt8)
  littleEndian : Bool
  canonical_mem : ∀ p f, canonical p = .ok f → f ∈ files
  canonical_file : ∀ f ∈ files, canonical f = .ok f

/-- The variables of the loader in the effective environment. -/
structure Environment where
  preload : Option JsString
  audit : Option JsString
  libraryPath : Option JsString

def stop {α : Type} (message : JsString) : Except Fault α := throw (.failed message)

def lift {α : Type} (result : Except Fault α) : Except Stop α := result.mapError Stop.fault

section Tokens

def wordUnit (u : CodeUnit) : Bool :=
  (48 ≤ u && u ≤ 57) || (65 ≤ u && u ≤ 90) || u == 95 || (97 ≤ u && u ≤ 122)

/-- `\b` behind a letter. -/
def boundary (rest : JsString) : Bool := rest.head?.all (fun u => !wordUnit u)

/-- `\$(?:\{?(?:LIB|PLATFORM)\b)` at the start of a text. -/
def hardwareAt (s : JsString) : Bool :=
  ["$LIB","$\x7bLIB","$PLATFORM","$\x7bPLATFORM"].any (fun token =>
    (units token).isPrefixOf s && boundary (s.drop (units token).length))

def hardware (s : JsString) : Bool := s.tails.any hardwareAt

/-- The length of `\$(?:ORIGIN\b|\{ORIGIN\})` at the start of a text. -/
def originAt (s : JsString) : Option ℕ :=
  if (units "$ORIGIN").isPrefixOf s && boundary (s.drop 7) then some 7
  else if (units "$\x7bORIGIN\x7d").isPrefixOf s then some 9
  else none

/-- The text with every origin token replaced, by what is before, in and behind the token. -/
def spell (put : JsString → JsString → JsString → JsString) :
    JsString → ℕ → JsString → JsString
  | _, _, [] => []
  | before, skip + 1, u :: rest => spell put (before ++ [u]) skip rest
  | before, 0, u :: rest =>
    match originAt (u :: rest) with
    | some n => put before ((u :: rest).take n) ((u :: rest).drop n) ++
        spell put (before ++ [u]) (n - 1) rest
    | none => u :: spell put (before ++ [u]) 0 rest

/-- What `replace` inserts for a text: a dollar sign stands with the character behind it for a
dollar sign, the match, what is before it or what is behind it. -/
def replacement (before found behind : JsString) : JsString → JsString
  | 36 :: 36 :: rest => 36 :: replacement before found behind rest
  | 36 :: 38 :: rest => found ++ replacement before found behind rest
  | 36 :: 96 :: rest => before ++ replacement before found behind rest
  | 36 :: 39 :: rest => behind ++ replacement before found behind rest
  | u :: rest => u :: replacement before found behind rest
  | [] => []

def expand (real : JsString) (entry : Text) : Except Fault JsString :=
  if hardware (jsUnits entry) then stop (units "Unsupported dynamic search token in " ++ real)
  else pure (spell (fun before found behind => replacement before found behind (dirname real)) [] 0
    (jsUnits entry))

end Tokens

section Cache

structure CacheEntry where
  key : Text
  path : Text
  hwcap : ℕ
  deriving DecidableEq

def corrupt {α : Type} (message : String) : Except Fault α := stop (units message)

def cacheMark : List UInt8 := (units "glibc-ld.so.cache1.1").map (fun u => UInt8.ofNat u.val)

/-- The index of the mark of the cache. -/
def markAt : List UInt8 → Option ℕ
  | [] => none
  | b :: rest => if cacheMark.isPrefixOf (b :: rest) then some 0 else (markAt rest).map (· + 1)

def cacheText (bytes : List UInt8) (start offset : ℕ) : Except Fault Text :=
  if bytes.length ≤ start + offset ∨ 0 ∉ bytes.drop (start + offset) then
    corrupt "Corrupt ld.so.cache string"
  else
    (decodeUTF8 ((bytes.drop (start + offset)).takeWhile (· ≠ 0))).mapError
      (fun _ => .failed (units "The encoded data was not valid for encoding utf-8"))

def cacheEntry (bytes : List UInt8) (start index : ℕ) : Except Fault CacheEntry := do
  let place := start + 48 + index * 24
  let key ← cacheText bytes start (number true (slice bytes (place + 4) 4))
  let path ← cacheText bytes start (number true (slice bytes (place + 8) 4))
  pure ⟨key,path,number true (slice bytes (place + 16) 8)⟩

def glibcCache (littleEndian : Bool) (bytes : List UInt8) : Except Fault (List CacheEntry) :=
  match markAt bytes with
  | none => corrupt "Unsupported ld.so.cache format"
  | some start =>
    if littleEndian = false ∨ bytes.length < start + 48 then corrupt "Unsupported ld.so.cache format"
    else
      let count := number true (slice bytes (start + 20) 4)
      if bytes.length < start + 48 + count * 24 then corrupt "Corrupt ld.so.cache entries"
      else (List.range count).mapM (cacheEntry bytes start)

end Cache

section Lookup

def systemPrefixes : List JsString :=
  ["/lib/","/lib32/","/lib64/","/libx32/","/usr/lib/","/usr/lib32/","/usr/lib64/",
    "/usr/libx32/"].map units

def linuxSystemPath (file : JsString) : Bool := systemPrefixes.any (·.isPrefixOf file)

def optionalFile (s : System) (file : JsString) : Except Fault (Option (List UInt8)) :=
  match s.content file with
  | .ok bytes => pure (some bytes)
  | .error .absent => pure none
  | .error fault => throw fault

def isFile (s : System) (candidate : JsString) : Except Fault (Option JsString) := do
  let real ← s.canonical candidate
  let file ← s.regular real
  pure (if file then some real else none)

/-- The file behind a path, if it is an image of the same kind. -/
def matching (s : System) (image : LinuxELF) (candidate : JsString) :
    Except Fault (Option JsString) :=
  match isFile s candidate with
  | .ok none => pure none
  | .ok (some real) => do
    let selected ← s.image real
    pure (if selected.any (fun other => other.machine = image.machine ∧ other.wide = image.wide) then
      some real else none)
  | .error .absent => pure none
  | .error .notDirectory => pure none
  | .error fault => throw fault

def absolute (path : JsString) : Bool := path.head? = some slash

/-- The directory has no libraries for kinds of hardware. -/
def plainDirectory (s : System) (directory : JsString) : Except Fault Unit :=
  if linuxSystemPath (directory ++ [slash]) then pure ()
  else
    match s.access (joinPath directory (units "glibc-hwcaps")) with
    | .ok () => stop (units "Ambiguous glibc-hwcaps selection in " ++ directory)
    | .error .absent => pure ()
    | .error fault => throw fault

def searchDirectories (s : System) (name : JsString) (image : LinuxELF) :
    List JsString → Except Fault (Option JsString)
  | [] => pure none
  | directory :: rest =>
    if absolute directory then do
      plainDirectory s directory
      let selected ← matching s image (joinPath directory name)
      match selected with
      | some file => pure (some file)
      | none => searchDirectories s name image rest
    else stop (units "Unsupported relative dynamic library search path: " ++ directory)

def libraryPaths (env : Environment) : List JsString :=
  match env.libraryPath with
  | none => []
  | some text => text.splitOnP (fun u => u == 58 || u == 59)

def cacheEntries (s : System) : Except Fault (List CacheEntry) := do
  let bytes ← optionalFile s (units "/etc/ld.so.cache")
  match bytes with
  | some bytes => glibcCache s.littleEndian bytes
  | none => pure []

/-- The entries of a name whose files are images of the same kind. -/
def candidates (s : System) (image : LinuxELF) :
    List CacheEntry → Except Fault (List (JsString × ℕ))
  | [] => pure []
  | entry :: rest => do
    let real ← matching s image (jsUnits entry.path)
    let more ← candidates s image rest
    pure (match real with
      | some real => (real,entry.hwcap) :: more
      | none => more)

def cached (s : System) (image : LinuxELF) (needed : Text) : Except Fault (Option JsString) := do
  let entries ← cacheEntries s
  let found ← candidates s image (entries.filter (fun entry => entry.key = needed))
  if found.any (fun entry => entry.2 ≠ 0) ∧ 1 < (found.map Prod.fst).eraseDups.length then
    stop (units "Ambiguous hardware-capability library selection: " ++ jsUnits needed)
  else pure (found.head?.map Prod.fst)

def defaultDirectories (image : LinuxELF) : List JsString :=
  ((if image.machine = 62 then ["/lib/x86_64-linux-gnu","/usr/lib/x86_64-linux-gnu"]
    else if image.machine = 183 then ["/lib/aarch64-linux-gnu","/usr/lib/aarch64-linux-gnu"]
    else []) ++ (if image.wide then ["/lib64","/usr/lib64"] else []) ++ ["/lib","/usr/lib"]).map units

end Lookup

section Linkage

abbrev State := Memory JsString ToolRoot

def State.mark (st : State) (real : JsString) : State := ⟨real :: st.visited,st.found⟩

/-- A root, where the file is outside the system directories. -/
def State.push (st : State) (name : Text) (file : JsString) : State :=
  if linuxSystemPath file then st
  else ⟨st.visited,
    st.found ++ [⟨units "non-system-libraries/" ++ encodeURIComponent (jsUnits name),file⟩]⟩

def muslLead : JsString := units "ld-musl-"

def musl (image : LinuxELF) : Bool :=
  image.interpreter.any (fun interpreter => muslLead.isPrefixOf (basename (jsUnits interpreter)))

/-- The name of the interpreter without `ld-musl-` before and `.so.1` behind it. -/
def muslArch (image : LinuxELF) : JsString :=
  let name := (basename (jsUnits (image.interpreter.getD []))).drop muslLead.length
  if (units ".so.1").isSuffixOf name then name.take (name.length - 5) else name

def muslDirectories (s : System) (image : LinuxELF) : Except Fault (List JsString) := do
  let configured ← optionalFile s (units "/etc/ld-musl-" ++ muslArch image ++ units ".path")
  pure (match configured with
    | some bytes =>
      (((headText bytes).splitOnP (fun c => c == ':' || c == '\n')).filter (· ≠ [])).map jsUnits
    | none => ["/lib","/usr/local/lib","/usr/lib"].map units)

/-- The search paths of an image: those of the images that led to it behind its own, the ones that
its names are looked up in, and its run paths. -/
structure Search where
  chain : List JsString
  rpath : List JsString
  runpath : List JsString

def ownPaths (real : JsString) (image : LinuxELF) : Except Fault (List JsString) :=
  if image.runpath = [] then image.rpath.mapM (expand real) else pure []

def searchOf (real : JsString) (image : LinuxELF) (inherited : List JsString) :
    Except Fault Search := do
  let own ← ownPaths real image
  let runpath ← image.runpath.mapM (expand real)
  let chain := own ++ inherited
  pure ⟨chain,if image.runpath = [] then chain else [],runpath⟩

/-- The library of a name without a slash, for the loader of the GNU library. -/
def glibcLibrary (s : System) (env : Environment) (image : LinuxELF) (search : Search)
    (needed : Text) : Except Fault (Option JsString) := do
  let selected ← searchDirectories s (jsUnits needed) image
    (search.rpath ++ libraryPaths env ++ search.runpath)
  match selected with
  | some file => pure (some file)
  | none => do
    let selected ← cached s image needed
    match selected with
    | some file => pure (some file)
    | none => searchDirectories s (jsUnits needed) image (defaultDirectories image)

def muslLibrary (s : System) (env : Environment) (image : LinuxELF) (search : Search)
    (needed : Text) : Except Fault (Option JsString) := do
  let directories ← muslDirectories s image
  searchDirectories s (jsUnits needed) image
    (libraryPaths env ++ search.rpath ++ search.runpath ++ directories)

def selectedLibrary (s : System) (env : Environment) (real : JsString) (image : LinuxELF)
    (search : Search) (needed : Text) : Except Fault (Option JsString) :=
  if '/' ∈ needed then
    if absolute (jsUnits needed) then matching s image (jsUnits needed)
    else stop (units "Unsupported relative DT_NEEDED path in " ++ real)
  else if musl image then muslLibrary s env image search needed
  else glibcLibrary s env image search needed

def libraryOf (s : System) (env : Environment) (real : JsString) (image : LinuxELF)
    (search : Search) (needed : Text) : Except Fault JsString := do
  let selected ← selectedLibrary s env real image search needed
  match selected with
  | some file => pure file
  | none => stop (units "Unresolved dynamic library " ++ jsUnits needed ++ units " from " ++ real)

/-- The call of `visit` for a file and the search paths of the images that led to it. -/
abbrev Visit := State → JsString → List JsString → Except Stop State

def visitInterpreter (s : System) (next : Visit) (st : State) (image : LinuxELF) :
    Except Stop State :=
  match image.interpreter with
  | none => pure st
  | some [] => pure st
  | some (c :: rest) => do
    let interpreter ← lift (s.canonical (jsUnits (c :: rest)))
    next (st.push (c :: rest) interpreter) interpreter []

def visitNeeded (s : System) (env : Environment) (next : Visit) (real : JsString) (image : LinuxELF)
    (search : Search) (st : State) (needed : Text) : Except Stop State := do
  let selected ← lift (libraryOf s env real image search needed)
  next (st.push needed selected) selected search.chain

def visitImage (s : System) (env : Environment) (next : Visit) (st : State) (real : JsString)
    (inherited : List JsString) (image : LinuxELF) : Except Stop State := do
  let st ← visitInterpreter s next st image
  let search ← lift (searchOf real image inherited)
  image.needed.foldlM (visitNeeded s env next real image search) st

def visitWith (s : System) (env : Environment) (next : Visit) : Visit :=
  fun st file inherited => do
    let real ← lift (s.canonical file)
    if real ∈ st.visited then pure st
    else do
      let image ← lift (s.image real)
      match image with
      | none => pure (st.mark real)
      | some image => visitImage s env next (st.mark real) real inherited image

/-- `visit`, stopped behind so many nested calls. -/
def visit (s : System) (env : Environment) : ℕ → Visit
  | 0 => fun _ _ _ => throw .fuel
  | fuel + 1 => visitWith s env (visit s env fuel)

def selectionRefused (s : System) (env : Environment) : Except Fault Unit := do
  if env.preload.isSome ∨ env.audit.isSome then
    stop (units "Unattested dynamic loader preload/audit selection")
  else do
    let preload ← optionalFile s (units "/etc/ld.so.preload")
    if preload.any (fun bytes => trim (headText bytes) ≠ []) then
      stop (units "Unattested /etc/ld.so.preload selection")
    else if (libraryPaths env).any (· = []) then
      stop (units "Unsupported current-directory LD_LIBRARY_PATH entry")
    else pure ()

/-- `linuxLinkage`, with what it has visited beside the roots. -/
def linuxLinkage (s : System) (env : Environment) (depth : ℕ) (files : List JsString) :
    Except Stop State := do
  lift (selectionRefused s env)
  files.foldlM (fun st file => visit s env depth st file []) ⟨[],[]⟩

end Linkage

end LinuxLinkage

end EvidenceV4
