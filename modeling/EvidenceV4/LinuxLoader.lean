import EvidenceV4.LinuxLinkage
import EvidenceV4.NativeDiscovery

/-!
# The loader of the GNU library

The loader takes the needed names of its objects breadth first and loads a file
once. It looks a name up in the search paths of the loading object and of the
objects that led to it, unless the object has run paths, then in the library
path, in the run paths, in the cache and in the default directories. Where the
adapter reads the same paths, it finds the same file.
-/

set_option autoImplicit false

namespace EvidenceV4

namespace LinuxLoader

open CheckedExcept
open ElfReader (LinuxELF Text)
open JsonText (CodeUnit)
open LinuxLinkage
open NativeDiscovery (Literal)
open NativeImages (dirname joinPath)
open ScalarText (JsString)
open ToolPaths

variable {s : System} {env : Environment} {files : List JsString}

section Loader

/-- A search path with the directory of the object for every origin token. -/
def loaderPath (real : JsString) (entry : Text) : JsString :=
  spell (fun _ _ _ => dirname real) [] 0 (jsUnits entry)

/-- The file behind a path, if it is an image of the same kind. -/
def suits (s : System) (image : LinuxELF) (path : JsString) : Option JsString :=
  match isFile s path with
  | .ok (some real) =>
    match s.image real with
    | .ok (some other) =>
      if other.machine = image.machine ∧ other.wide = image.wide then some real else none
    | _ => none
  | _ => none

def firstLibrary (s : System) (image : LinuxELF) (name : JsString) (directories : List JsString) :
    Option JsString :=
  directories.findSome? (fun directory => suits s image (directory ++ slash :: name))

/-- The search paths that an object hands on to what it loads. -/
def loaderChain (real : JsString) (image : LinuxELF) (inherited : List JsString) : List JsString :=
  (if image.runpath = [] then image.rpath.map (loaderPath real) else []) ++ inherited

def loaderDirectories (env : Environment) (real : JsString) (image : LinuxELF)
    (inherited : List JsString) : List JsString :=
  (if image.runpath = [] then loaderChain real image inherited else []) ++ libraryPaths env ++
    image.runpath.map (loaderPath real)

def loaderCache (s : System) (image : LinuxELF) (needed : Text) : Option JsString :=
  match cacheEntries s with
  | .ok entries =>
    (entries.filter (fun entry => entry.key = needed)).findSome?
      (fun entry => suits s image (jsUnits entry.path))
  | .error _ => none

def loaderLibrary (s : System) (env : Environment) (real : JsString) (image : LinuxELF)
    (inherited : List JsString) (needed : Text) : Option JsString :=
  if '/' ∈ needed then suits s image (jsUnits needed)
  else
    (firstLibrary s image (jsUnits needed) (loaderDirectories env real image inherited)).or
      ((loaderCache s image needed).or
        (firstLibrary s image (jsUnits needed) (defaultDirectories image)))

/-- An object with the search paths of the objects that led to its first loading. -/
structure Load where
  object : JsString
  inherited : List JsString

/-- The objects whose names have been taken, and those that wait. -/
structure Loader where
  done : List Load
  queue : List Load

def Loader.objects (l : Loader) : List JsString := (l.done ++ l.queue).map (·.object)

def request (s : System) (env : Environment) (object : Load) (image : LinuxELF) (l : Loader)
    (needed : Text) : Loader :=
  match loaderLibrary s env object.object image object.inherited needed with
  | none => l
  | some file =>
    if file ∈ l.objects then l
    else
      { l with queue := l.queue ++ [⟨file,loaderChain object.object image object.inherited⟩] }

def loaderStep (s : System) (env : Environment) (l : Loader) : Loader :=
  match l.queue with
  | [] => l
  | object :: rest =>
    match s.image object.object with
    | .ok (some image) =>
      image.needed.foldl (request s env object image) ⟨l.done ++ [object],rest⟩
    | _ => ⟨l.done ++ [object],rest⟩

def started (real : JsString) : Loader := ⟨[],[⟨real,[]⟩]⟩

/-- The loader of a file loads the library at some step. -/
def Loads (s : System) (env : Environment) (real library : JsString) : Prop :=
  ∃ steps : ℕ, library ∈ ((loaderStep s env)^[steps] (started real)).objects

end Loader

section Conditions

/-- Ways from the given files to an object, with the search paths that they collect. An
interpreter is met with none. -/
inductive Way (s : System) (env : Environment) (files : List JsString) :
    JsString → List JsString → Prop
  | start {file real : JsString} (member : file ∈ files) (known : s.canonical file = .ok real) :
      Way s env files real []
  | library {real file : JsString} {inherited : List JsString} {image : LinuxELF} {needed : Text}
      (way : Way s env files real inherited) (read : s.image real = .ok (some image))
      (member : needed ∈ image.needed)
      (taken : loaderLibrary s env real image inherited needed = some file) :
      Way s env files file (loaderChain real image inherited)
  | interpreter {real file : JsString} {inherited : List JsString} {image : LinuxELF} {name : Text}
      (way : Way s env files real inherited) (read : s.image real = .ok (some image))
      (names : image.interpreter = some name) (full : name ≠ [])
      (known : s.canonical (jsUnits name) = .ok file) :
      Way s env files file []

/-- The object is one for the loader of the GNU library, and its names and search paths are read as
the loader reads them. -/
structure Plain (s : System) (env : Environment) (real : JsString) (image : LinuxELF)
    (inherited : List JsString) : Prop where
  glibc : musl image = false
  literal : ∀ entry ∈ image.rpath ++ image.runpath, '$' ∈ entry → Literal (dirname real)
  lexical : ∀ needed ∈ image.needed, '/' ∉ needed →
    ∀ directory ∈ loaderDirectories env real image inherited ++ defaultDirectories image,
      s.canonical (joinPath directory (jsUnits needed)) =
        s.canonical (directory ++ slash :: jsUnits needed)

/-- Every object is plain, and what its names denote does not depend on the way to it. -/
structure Settles (s : System) (env : Environment) (files : List JsString) : Prop where
  plain : ∀ real inherited image, Way s env files real inherited →
    s.image real = .ok (some image) → Plain s env real image inherited
  single : ∀ real inherited other image, Way s env files real inherited →
    Way s env files real other → s.image real = .ok (some image) → ∀ needed ∈ image.needed,
      loaderLibrary s env real image inherited needed = loaderLibrary s env real image other needed

end Conditions

section Tokens

variable {put other : JsString → JsString → JsString → JsString}

theorem originAt_dollar {u : CodeUnit} {rest : JsString} {n : ℕ}
    (token : originAt (u :: rest) = some n) : u = 36 := by
  have lead : ∀ {word : JsString}, word.head? = some 36 → word.isPrefixOf (u :: rest) = true →
      u = 36 := by
    intro word first before
    cases word with
    | nil => simp at first
    | cons v word =>
      have ⟨same,_⟩ := List.cons_prefix_cons.mp (List.isPrefixOf_iff_prefix.mp before)
      rw [← same]
      exact Option.some.inj first
  rw [originAt] at token
  split_ifs at token with plain braced
  · exact lead rfl (Bool.and_eq_true _ _ |>.mp plain).1
  · exact lead rfl braced

/-- Replacements that agree wherever there is a dollar sign give the same text. -/
theorem spell_congr {text : JsString} (same : 36 ∈ text → put = other) (before : JsString)
    (skip : ℕ) : spell put before skip text = spell other before skip text := by
  induction text generalizing before skip with
  | nil => cases skip <;> rfl
  | cons u rest ih =>
    have later : 36 ∈ rest → put = other := fun member => same (List.mem_cons_of_mem _ member)
    cases skip with
    | succ skip => exact ih later _ skip
    | zero =>
      rw [spell, spell]
      cases token : originAt (u :: rest) with
      | none => exact congrArg _ (ih later _ 0)
      | some n =>
        have here := same (originAt_dollar token ▸ List.mem_cons_self)
        dsimp only
        rw [ih later, here]

theorem replacement_literal {before found behind text : JsString} (literal : Literal text) :
    replacement before found behind text = text := by
  have here : ∀ {u : CodeUnit} {rest : JsString}, u ∈ ([36,38,96,39] : JsString) →
      ¬Literal (36 :: u :: rest) := fun {u rest} mark literal =>
    literal u mark (List.prefix_append [36,u] rest).isInfix
  fun_induction replacement before found behind text with
  | case1 rest ih => exact absurd literal (here (by simp))
  | case2 rest ih => exact absurd literal (here (by simp))
  | case3 rest ih => exact absurd literal (here (by simp))
  | case4 rest ih => exact absurd literal (here (by simp))
  | case5 u rest _ _ _ _ ih =>
    rw [ih fun v mark within => literal v mark (within.trans (List.suffix_cons u rest).isInfix)]
  | case6 => rfl

theorem dollar_units {entry : Text} (member : 36 ∈ jsUnits entry) : '$' ∈ entry := by
  obtain ⟨c,inside,unit⟩ := List.mem_flatMap.mp member
  rw [JsonText.charUnits] at unit
  split_ifs at unit with small
  · have code := congrArg Fin.val (List.mem_singleton.mp unit)
    rw [JsonText.unit_val small] at code
    have same : c = '$' := Char.ext (UInt32.toNat_inj.mp code.symm)
    exact same ▸ inside
  · simp only [List.mem_cons, List.not_mem_nil, or_false] at unit
    have high := JsonText.highUnit_val c
    have low := JsonText.lowUnit_val c
    have dollar : (36 : CodeUnit).val = 36 := rfl
    rcases unit with unit | unit
    · rw [← unit, dollar] at high
      omega
    · rw [← unit, dollar] at low
      omega

theorem expand_ok {real path : JsString} {entry : Text}
    (literal : '$' ∈ entry → Literal (dirname real)) (read : expand real entry = .ok path) :
    loaderPath real entry = path := by
  rw [expand] at read
  split_ifs at read
  · simp [stop] at read
  · rw [← (pure_ok _ _).mp read, loaderPath]
    apply spell_congr
    intro dollar
    funext before found behind
    exact (replacement_literal (literal (dollar_units dollar))).symm

end Tokens

section Lookups

variable {image : LinuxELF} {real name : JsString} {inherited : List JsString} {needed : Text}

theorem matching_ok {path : JsString} {selected : Option JsString}
    (read : matching s image path = .ok selected) : suits s image path = selected := by
  rw [matching] at read
  rw [suits]
  split at read
  · next found =>
    rw [found]
    exact (pure_ok _ _).mp read
  · next file found =>
    obtain ⟨other,known,read⟩ := (bind_ok _ _ _).mp read
    rw [found]
    simp only [known]
    rw [← (pure_ok _ _).mp read]
    cases other with
    | none => rfl
    | some other => simp
  · next found =>
    rw [found]
    exact (pure_ok _ _).mp read
  · next found =>
    rw [found]
    exact (pure_ok _ _).mp read
  · simp at read

/-- A search that does not fail finds what the loader finds in the directories. -/
theorem searchDirectories_ok {directories : List JsString} {selected : Option JsString}
    (lexical : ∀ directory ∈ directories,
      s.canonical (joinPath directory name) = s.canonical (directory ++ slash :: name))
    (read : searchDirectories s name image directories = .ok selected) :
    firstLibrary s image name directories = selected := by
  induction directories with
  | nil => exact (pure_ok _ _).mp read
  | cons directory rest ih =>
    have ⟨here,later⟩ := List.forall_mem_cons.mp lexical
    rw [searchDirectories] at read
    by_cases whole : absolute directory = true
    rotate_left
    · rw [if_neg whole] at read
      simp [stop] at read
    rw [if_pos whole] at read
    obtain ⟨_,_,read⟩ := (bind_ok _ _ _).mp read
    obtain ⟨found,matched,read⟩ := (bind_ok _ _ _).mp read
    have same : suits s image (directory ++ slash :: name) = found := by
      rw [← matching_ok matched, suits, suits, isFile, isFile, here]
    rw [firstLibrary, List.findSome?_cons, same]
    cases found with
    | none => exact ih later read
    | some file => exact (pure_ok _ _).mp read

theorem candidates_ok {entries : List CacheEntry} {found : List (JsString × ℕ)}
    (read : candidates s image entries = .ok found) :
    entries.findSome? (fun entry => suits s image (jsUnits entry.path)) =
      found.head?.map Prod.fst := by
  induction entries generalizing found with
  | nil =>
    rw [← (pure_ok _ _).mp read]
    rfl
  | cons entry rest ih =>
    obtain ⟨real,matched,read⟩ := (bind_ok _ _ _).mp read
    obtain ⟨more,later,read⟩ := (bind_ok _ _ _).mp read
    rw [List.findSome?_cons, matching_ok matched, ← (pure_ok _ _).mp read]
    cases real with
    | none => exact ih later
    | some file => rfl

theorem cached_ok {selected : Option JsString} (read : cached s image needed = .ok selected) :
    loaderCache s image needed = selected := by
  obtain ⟨entries,known,read⟩ := (bind_ok _ _ _).mp read
  obtain ⟨found,kept,read⟩ := (bind_ok _ _ _).mp read
  rw [loaderCache, known]
  dsimp only
  rw [candidates_ok kept]
  split_ifs at read
  · simp [stop] at read
  · exact (pure_ok _ _).mp read

theorem expandAll_ok {entries : List Text} {paths : List JsString}
    (literal : ∀ entry ∈ entries, '$' ∈ entry → Literal (dirname real))
    (read : entries.mapM (expand real) = .ok paths) : entries.map (loaderPath real) = paths := by
  have each := (mapM_ok _ _ _).mp read
  clear read
  induction each with
  | nil => rfl
  | cons first _ ih =>
    have ⟨here,later⟩ := List.forall_mem_cons.mp literal
    rw [List.map_cons, expand_ok here first, ih later]

/-- The search paths of a plain object are those of the loader. -/
theorem searchOf_ok {search : Search}
    (literal : ∀ entry ∈ image.rpath ++ image.runpath, '$' ∈ entry → Literal (dirname real))
    (read : searchOf real image inherited = .ok search) :
    search.chain = loaderChain real image inherited ∧
      search.rpath ++ libraryPaths env ++ search.runpath =
        loaderDirectories env real image inherited := by
  obtain ⟨own,owned,read⟩ := (bind_ok _ _ _).mp read
  obtain ⟨runs,ran,read⟩ := (bind_ok _ _ _).mp read
  obtain rfl := (pure_ok _ _).mp read
  have first : (if image.runpath = [] then image.rpath.map (loaderPath real) else []) = own := by
    rw [ownPaths] at owned
    split_ifs at owned ⊢
    · exact expandAll_ok (fun entry member => literal entry (List.mem_append_left _ member)) owned
    · exact (pure_ok _ _).mp owned
  have second : image.runpath.map (loaderPath real) = runs :=
    expandAll_ok (fun entry member => literal entry (List.mem_append_right _ member)) ran
  constructor
  · rw [loaderChain, first]
  · rw [loaderDirectories, loaderChain, first, second]

/-- The library that the adapter takes for a plain object is that of the loader. -/
theorem libraryOf_ok {search : Search} {file : JsString}
    (plain : Plain s env real image inherited) (member : needed ∈ image.needed)
    (searched : searchOf real image inherited = .ok search)
    (read : libraryOf s env real image search needed = .ok file) :
    loaderLibrary s env real image inherited needed = some file := by
  have ⟨_,directories⟩ := @searchOf_ok env image real inherited search plain.literal searched
  obtain ⟨selected,found,read⟩ := (bind_ok _ _ _).mp read
  have same : selected = some file := by
    cases selected with
    | none => simp [stop] at read
    | some other => exact congrArg some ((pure_ok _ _).mp read)
  subst same
  rw [selectedLibrary] at found
  rw [loaderLibrary]
  by_cases path : '/' ∈ needed
  · rw [if_pos path] at found ⊢
    split_ifs at found
    · exact matching_ok found
    · simp [stop] at found
  · rw [if_neg path, if_neg (by simp [plain.glibc]), glibcLibrary] at found
    rw [if_neg path]
    have lexical := plain.lexical needed member path
    obtain ⟨first,searched,found⟩ := (bind_ok _ _ _).mp found
    have here := searchDirectories_ok (fun directory inside => lexical directory
      (List.mem_append_left _ (directories ▸ inside))) searched
    rw [← directories, here]
    cases first with
    | some other => exact (pure_ok _ _).mp found
    | none =>
      obtain ⟨second,cache,found⟩ := (bind_ok _ _ _).mp found
      rw [Option.none_or, cached_ok cache]
      cases second with
      | some other => exact (pure_ok _ _).mp found
      | none =>
        exact searchDirectories_ok (fun directory inside => lexical directory
          (List.mem_append_right _ inside)) found

end Lookups

end LinuxLoader

end EvidenceV4
