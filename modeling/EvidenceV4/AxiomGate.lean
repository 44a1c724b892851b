import EvidenceV4.OrderedRecord
import EvidenceV4.PromptBlocks

/-!
# The axiom gate

The gate has Lean print the axioms of every requested theorem and reads the
names back from the printed messages. A theorem passes when all its axioms are
allowed, and an axiom that stands for an admitted proof is never allowed.
-/

set_option autoImplicit false

namespace EvidenceV4

namespace AxiomGate

open CheckerJson (PyString points)
open EvidenceArtifact (splitlines pieces)
open LineText OrderedRecord
open PythonData

section Reading

/-- `[part.strip() for part in text.split(",") if part.strip()]` -/
def listed (text : PyString) : List PyString :=
  ((text.splitOnP (fun c => c == 44)).map strip).filter (fun part => part ≠ [])

def quoted (rest : PyString) : PyString := rest.takeWhile (fun c => c != 39)

def behindQuoted (rest : PyString) : PyString := rest.dropWhile (fun c => c != 39)

def cleanText : PyString := "' does not depend on any axioms"

def dependsText : PyString := "' depends on axioms: ["

/-- `_CLEAN_RE` at this place. -/
def cleanAt : PyString → Option PyString
  | [] => none
  | c :: rest =>
    if c = 39 ∧ quoted rest ≠ [] ∧ cleanText.isPrefixOf (behindQuoted rest) = true then
      some (quoted rest)
    else none

/-- `_DEPENDS_RE` at this place. -/
def dependsAt : PyString → Option (PyString × PyString)
  | [] => none
  | c :: rest =>
    let printed := (behindQuoted rest).drop dependsText.length
    if c = 39 ∧ quoted rest ≠ [] ∧ dependsText.isPrefixOf (behindQuoted rest) = true ∧
        93 ∈ printed then
      some (quoted rest,printed.takeWhile (fun c => c != 93))
    else none

/-- `pattern.search(line)` -/
def found {α : Type} (pattern : PyString → Option α) (line : PyString) : Option α :=
  line.tails.findSome? pattern

def readLine (entries : Entries PyString (List PyString)) (line : PyString) :
    Entries PyString (List PyString) :=
  match found cleanAt line with
  | some name => assign entries name []
  | none =>
    match found dependsAt line with
    | some (name,printed) => assign entries name (listed printed)
    | none => entries

def readAudit (output : PyString) : Entries PyString (List PyString) :=
  (splitlines output).foldl readLine []

end Reading

section Gate

def baseAxioms : List PyString := ["Classical.choice","propext","Quot.sound"].map points

def sorryAxiom : PyString := "sorryAx"

inductive Verdict where
  | verified
  | incomplete
  | failed
  deriving DecidableEq

inductive Outcome where
  | buildFailed
  | auditFailed
  | noOutput (missing : List PyString)
  | sorryAdmitted (theorems : ℕ) (admitted : List PyString)
  | nonstandard (entries : Entries PyString (List PyString))
  | clean (theorems : ℕ)

def Outcome.verdict : Outcome → Verdict
  | .clean _ => .verified
  | .sorryAdmitted _ _ | .nonstandard _ => .incomplete
  | .buildFailed | .auditFailed | .noOutput _ => .failed

/-- The build, and the audit as the exit code and the output for a source text. -/
structure Toolchain where
  build : ℤ
  audit : PyString → ℤ × PyString

def auditSource (module : PyString) (theorems : List PyString) : PyString :=
  say ["import ",module,"\n"] ++ theorems.flatMap (fun t => say ["#print axioms ",t,"\n"])

def unusual (allowed names : List PyString) : List PyString :=
  sortedNames (names.filter (fun a => a ∉ allowed ∧ a ≠ sorryAxiom))

def judge (theorems allowed : List PyString) (entries : Entries PyString (List PyString)) : Outcome :=
  let missing := theorems.filter (fun t => t ∉ entries.map Prod.fst)
  let incomplete := entries.filter (fun entry => sorryAxiom ∈ entry.2)
  let nonstandard := (entries.map (fun entry => (entry.1,unusual allowed entry.2))).filter
    (fun entry => entry.2 ≠ [])
  if missing ≠ [] then .noOutput missing
  else if incomplete ≠ [] then
    .sorryAdmitted theorems.length (sortedNames (incomplete.map Prod.fst))
  else if nonstandard ≠ [] then .nonstandard nonstandard
  else .clean theorems.length

def axiomGate (argument module : PyString) (extra : List PyString) (toolchain : Toolchain) : Outcome :=
  let theorems := listed argument
  let audit := toolchain.audit (auditSource module theorems)
  if toolchain.build ≠ 0 then .buildFailed
  else if audit.1 ≠ 0 then .auditFailed
  else judge theorems (baseAxioms ++ extra) (readAudit audit.2)

end Gate

section Printing

/-- The message for a theorem with these axioms. -/
def message (name : PyString) (axiomNames : List PyString) : PyString :=
  if axiomNames = [] then 39 :: (name ++ cleanText)
  else 39 :: (name ++ (dependsText ++ (joined ", " axiomNames ++ [93])))

/-- The state behind a name read so far, where `true` says that a quotation is
open; a comma, a bracket and white space stand in quotations only. -/
def scan : Bool → PyString → Option Bool
  | inside, [] => some inside
  | true, c :: rest => scan (c != 0xbb) rest
  | false, c :: rest =>
    if c == 44 || c == 93 || isSpace c then none else scan (c == 0xab) rest

def Legal (name : PyString) : Prop := name ≠ [] ∧ scan false name = some false

instance (name : PyString) : Decidable (Legal name) := inferInstanceAs (Decidable (_ ∧ _))

variable {inside : Bool} {name part front back : PyString}

theorem scan_append (a b : PyString) :
    scan inside (a ++ b) = (scan inside a).bind (fun state => scan state b) := by
  induction a generalizing inside with
  | nil => cases inside <;> rfl
  | cons c a ih =>
    cases inside with
    | true => exact ih
    | false =>
      rw [List.cons_append, scan, scan]
      split
      · rfl
      · exact ih

theorem scan_space {c : ℕ} (space : isSpace c = true) : scan false (c :: name) = none := by
  simp [scan, space]

/-- A mark that ends a piece is inside a quotation. -/
theorem scan_mark {c : ℕ} (mark : c = 44 ∨ c = 93) {state : Bool}
    (read : scan false (part ++ c :: back) = some state) : scan false part = some true := by
  rw [scan_append] at read
  obtain ⟨middle,start,rest⟩ := Option.bind_eq_some_iff.mp read
  cases middle with
  | true => exact start
  | false =>
    rcases mark with rfl | rfl
    · simp [scan] at rest
    · simp [scan] at rest

theorem scan_starts {state : Bool} (read : scan false name = some state) : lstrip name = name := by
  cases name with
  | nil => rfl
  | cons c name =>
    apply List.dropWhile_cons_of_neg
    intro space
    rw [scan_space space] at read
    cases read

/-- Inside a quotation, taking white space off a name leaves the quotation open. -/
theorem scan_rstrip_open (read : scan false name = some true) :
    scan false (rstrip name) = some true := by
  have split : name = rstrip name ++ (name.reverse.takeWhile isSpace).reverse := by
    rw [rstrip, ← List.reverse_append, List.takeWhile_append_dropWhile, List.reverse_reverse]
  have spaces : ∀ c ∈ (name.reverse.takeWhile isSpace).reverse, isSpace c = true :=
    fun c member => List.mem_takeWhile_imp (List.mem_reverse.mp member)
  generalize (name.reverse.takeWhile isSpace).reverse = padding at split spaces
  rw [split, scan_append] at read
  obtain ⟨middle,start,rest⟩ := Option.bind_eq_some_iff.mp read
  cases middle with
  | true => exact start
  | false =>
    cases padding with
    | nil => cases rest
    | cons c padding =>
      rw [scan_space (spaces c List.mem_cons_self)] at rest
      cases rest

theorem strip_open (spaces : front.all isSpace = true) (read : scan false name = some true) :
    scan false (strip (front ++ name)) = some true := by
  rw [strip_eq, lstrip_spaces spaces, scan_starts read]
  exact scan_rstrip_open read

theorem strip_legal (spaces : front.all isSpace = true) (legal : Legal name) :
    strip (front ++ name) = name := by
  rw [strip_eq, lstrip_spaces spaces, scan_starts legal.2]
  obtain ⟨body,c,rfl⟩ : ∃ body c, name = body ++ [c] :=
    ⟨name.dropLast,name.getLast legal.1,(List.dropLast_append_getLast legal.1).symm⟩
  apply rstrip_inked
  by_contra space
  rw [Bool.not_eq_false] at space
  have read := legal.2
  rw [scan_append] at read
  obtain ⟨middle,_,rest⟩ := Option.bind_eq_some_iff.mp read
  cases middle with
  | true =>
    have other : (c != 0xbb) = true := by
      by_contra closing
      rw [show c = 0xbb by simpa using closing] at space
      exact absurd space (by decide)
    simp [scan, other] at rest
  | false =>
    rw [scan_space space] at rest
    cases rest

end Printing

section Lists

variable {name front : PyString} {names : List PyString}

/-- What the gate reads of a printed list. -/
def readList (body : PyString) : List PyString := listed ((body ++ [93]).takeWhile (fun c => c != 93))

def tailText (names : List PyString) : PyString := names.flatMap (fun name => 44 :: 32 :: name)

theorem joined_tail (name : PyString) (names : List PyString) :
    joined ", " (name :: names) = name ++ tailText names := by
  induction names generalizing name with
  | nil => simp [joined, tailText, List.intercalate]
  | cons next names ih =>
    have split : joined ", " (name :: next :: names) = name ++ (44 :: 32 :: joined ", " (next :: names)) := by
      have comma : points ", " = [44,32] := by decide
      simp [joined_cons, comma]
    rw [split, ih]
    rfl

def Plain (name : PyString) : Prop := 44 ∉ name ∧ 93 ∉ name

theorem takeWhile_plain {text rest : PyString} (plain : 93 ∉ text) :
    (text ++ rest).takeWhile (fun c => c != 93) = text ++ rest.takeWhile (fun c => c != 93) := by
  apply List.takeWhile_append_of_pos
  intro c member
  have other : c ≠ 93 := fun same => plain (same ▸ member)
  simpa using other

theorem listed_single {text : PyString} (plain : 44 ∉ text) :
    listed text = [strip text].filter (fun part => part ≠ []) := by
  have single : text.splitOnP (fun c => c == 44) = [text] := by
    apply List.splitOnP_eq_singleton
    intro c member
    have other : c ≠ 44 := fun same => plain (same ▸ member)
    simpa using other
  rw [listed, single]
  rfl

theorem listed_append (a b : PyString) : listed (a ++ 44 :: b) = listed a ++ listed b := by
  rw [listed, List.splitOnP_append_cons a b (by decide), List.map_append, List.filter_append]
  rfl

theorem single_space : ([32] : PyString).all isSpace = true := by decide

theorem spaces_plain (spaces : front.all isSpace = true) : Plain front := by
  constructor <;> intro member
  · exact absurd (List.all_eq_true.mp spaces 44 member) (by decide)
  · exact absurd (List.all_eq_true.mp spaces 93 member) (by decide)

theorem plain_append {a b : PyString} (first : Plain a) (second : Plain b) : Plain (a ++ b) :=
  ⟨by simp [first.1, second.1],by simp [first.2, second.2]⟩

theorem listed_name (spaces : front.all isSpace = true) (legal : Legal name) (plain : Plain name) :
    listed (front ++ name) = [name] := by
  rw [listed_single (plain_append (spaces_plain spaces) plain).1, strip_legal spaces legal]
  simp [legal.1]

theorem tailText_cons (next : PyString) (names : List PyString) :
    tailText (next :: names) = 44 :: ([32] ++ next ++ tailText names) := by
  simp [tailText]

theorem readList_cons {next : PyString} (spaces : front.all isSpace = true) (plain : Plain name) :
    readList (front ++ name ++ tailText (next :: names)) =
      listed (front ++ name) ++ readList ([32] ++ next ++ tailText names) := by
  rw [readList, List.append_assoc, takeWhile_plain (plain_append (spaces_plain spaces) plain).2,
    tailText_cons, List.cons_append, List.takeWhile_cons_of_pos (by decide), listed_append]
  rfl

theorem readList_last (spaces : front.all isSpace = true) (plain : Plain name) :
    readList (front ++ name ++ tailText []) = listed (front ++ name) := by
  rw [readList, List.append_assoc, takeWhile_plain (plain_append (spaces_plain spaces) plain).2]
  simp [tailText]

/-- A list of plain names is read back. -/
theorem readList_plain (spaces : front.all isSpace = true) (legal : Legal name)
    (plain : Plain name) (others : ∀ other ∈ names, Legal other ∧ Plain other) :
    readList (front ++ name ++ tailText names) = name :: names := by
  induction names generalizing front name with
  | nil => rw [readList_last spaces plain, listed_name spaces legal plain]
  | cons next names ih =>
    obtain ⟨first,later⟩ := List.forall_mem_cons.mp others
    rw [readList_cons spaces plain, listed_name spaces legal plain,
      ih single_space first.1 first.2 later]
    rfl

theorem not_plain (marked : ¬ Plain name) : ∃ start mark rest, name = start ++ mark :: rest ∧
    (mark = 44 ∨ mark = 93) ∧ Plain start := by
  induction name with
  | nil => exact absurd ⟨List.not_mem_nil,List.not_mem_nil⟩ marked
  | cons c name ih =>
    by_cases mark : c = 44 ∨ c = 93
    · exact ⟨[],c,name,rfl,mark,List.not_mem_nil,List.not_mem_nil⟩
    · obtain ⟨comma,bracket⟩ := not_or.mp mark
      have left : ¬ Plain name := by
        intro plain
        apply marked
        exact ⟨by simp [Ne.symm comma, plain.1],by simp [Ne.symm bracket, plain.2]⟩
      obtain ⟨start,mark,rest,rfl,kind,plain⟩ := ih left
      refine ⟨c :: start,mark,rest,rfl,kind,?_⟩
      exact ⟨by simp [Ne.symm comma, plain.1],by simp [Ne.symm bracket, plain.2]⟩

theorem listed_open (spaces : front.all isSpace = true) (plain : Plain name)
    (read : scan false name = some true) :
    ∃ piece ∈ listed (front ++ name), scan false piece = some true := by
  have stays := strip_open spaces read
  refine ⟨strip (front ++ name),?_,stays⟩
  rw [listed_single (plain_append (spaces_plain spaces) plain).1]
  have filled : strip (front ++ name) ≠ [] := by
    intro empty
    rw [empty] at stays
    cases stays
  simp [filled]

/-- A name that holds a comma or a bracket leaves a piece with an open quotation. -/
theorem readList_marked (spaces : front.all isSpace = true) (legal : Legal name)
    (marked : ¬ Plain name) (rest : PyString) :
    ∃ piece ∈ readList (front ++ name ++ rest), scan false piece = some true := by
  obtain ⟨start,mark,behind,rfl,kind,plain⟩ := not_plain marked
  have read := scan_mark kind legal.2
  obtain ⟨piece,member,stays⟩ := listed_open spaces plain read
  refine ⟨piece,?_,stays⟩
  have split : front ++ (start ++ mark :: behind) ++ rest ++ [93] =
      (front ++ start) ++ mark :: (behind ++ rest ++ [93]) := by simp
  rw [readList, split, takeWhile_plain (plain_append (spaces_plain spaces) plain).2]
  rcases kind with rfl | rfl
  · rw [List.takeWhile_cons_of_pos (by decide), listed_append]
    exact List.mem_append_left _ member
  · rw [List.takeWhile_cons_of_neg (by decide), List.append_nil]
    exact member

theorem readList_open (spaces : front.all isSpace = true) (legal : Legal name)
    (others : ∀ other ∈ names, Legal other)
    (marked : ¬ Plain name ∨ ∃ other ∈ names, ¬ Plain other) :
    ∃ piece ∈ readList (front ++ name ++ tailText names), scan false piece = some true := by
  induction names generalizing front name with
  | nil =>
    rcases marked with marked | ⟨_,member,_⟩
    · exact readList_marked spaces legal marked _
    · exact absurd member List.not_mem_nil
  | cons next names ih =>
    by_cases plain : Plain name
    · obtain ⟨first,later⟩ := List.forall_mem_cons.mp others
      have deeper : ¬ Plain next ∨ ∃ other ∈ names, ¬ Plain other := by
        obtain ⟨other,member,bad⟩ := marked.resolve_left (not_not.mpr plain)
        rcases List.mem_cons.mp member with rfl | member
        · exact .inl bad
        · exact .inr ⟨other,member,bad⟩
      obtain ⟨piece,member,stays⟩ := ih single_space first later deeper
      rw [readList_cons spaces plain]
      exact ⟨piece,List.mem_append_right _ member,stays⟩
    · exact readList_marked spaces legal plain _

/-- The printed names as the gate reads them. -/
def readBack (axiomNames : List PyString) : List PyString :=
  if axiomNames = [] then [] else readList (joined ", " axiomNames)

theorem readBack_plain (legal : ∀ a ∈ names, Legal a) (plain : ∀ a ∈ names, Plain a) :
    readBack names = names := by
  cases names with
  | nil => rfl
  | cons name names =>
    have nothing : ([] : PyString).all isSpace = true := rfl
    rw [readBack, if_neg (List.cons_ne_nil _ _), joined_tail]
    exact readList_plain nothing (legal name List.mem_cons_self) (plain name List.mem_cons_self)
      (fun other member => ⟨legal other (List.mem_cons_of_mem _ member),
        plain other (List.mem_cons_of_mem _ member)⟩)

theorem readBack_open (legal : ∀ a ∈ names, Legal a) (marked : ∃ a ∈ names, ¬ Plain a) :
    ∃ piece ∈ readBack names, scan false piece = some true := by
  obtain ⟨a,member,bad⟩ := marked
  cases names with
  | nil => exact absurd member List.not_mem_nil
  | cons name names =>
    have nothing : ([] : PyString).all isSpace = true := rfl
    rw [readBack, if_neg (List.cons_ne_nil _ _), joined_tail]
    apply readList_open nothing (legal name List.mem_cons_self)
      (fun other known => legal other (List.mem_cons_of_mem _ known))
    rcases List.mem_cons.mp member with rfl | member
    · exact .inl bad
    · exact .inr ⟨a,member,bad⟩

end Lists

section Messages

variable {name line : PyString} {axiomNames : List PyString}

theorem quoted_split (plain : 39 ∉ name) (rest : PyString) :
    quoted (name ++ 39 :: rest) = name ∧ behindQuoted (name ++ 39 :: rest) = 39 :: rest := by
  have all : ∀ c ∈ name, (c != 39) = true := by
    intro c member
    have other : c ≠ 39 := fun same => plain (same ▸ member)
    simpa using other
  constructor
  · rw [quoted, List.takeWhile_append_of_pos all, List.takeWhile_cons_of_neg (by decide),
      List.append_nil]
  · rw [behindQuoted, List.dropWhile_append_of_pos all, List.dropWhile_cons_of_neg (by decide)]

theorem quoted_plain (rest : PyString) : 39 ∉ quoted rest := by
  intro member
  have stays := List.mem_takeWhile_imp member
  exact absurd stays (by decide)

theorem cleanText_split : cleanText = 39 :: cleanText.tail := by decide

theorem dependsText_split : dependsText = 39 :: dependsText.tail := by decide

theorem found_first {α : Type} {pattern : PyString → Option α} {c : ℕ} {rest : PyString} {value : α}
    (here : pattern (c :: rest) = some value) : found pattern (c :: rest) = some value := by
  rw [found, List.tails, List.findSome?_cons, here]

theorem found_clean (filled : name ≠ []) (plain : 39 ∉ name) :
    found cleanAt (message name []) = some name := by
  have parts := quoted_split plain cleanText.tail
  rw [← cleanText_split] at parts
  have start : cleanText.isPrefixOf cleanText = true :=
    List.isPrefixOf_iff_prefix.mpr List.prefix_rfl
  rw [message, if_pos rfl]
  apply found_first
  rw [cleanAt, parts.1, parts.2, if_pos ⟨rfl,filled,start⟩]

theorem found_depends (filled : name ≠ []) (plain : 39 ∉ name) (listed_names : axiomNames ≠ []) :
    found dependsAt (message name axiomNames) =
      some (name,(joined ", " axiomNames ++ [93]).takeWhile (fun c => c != 93)) := by
  have parts := quoted_split plain (dependsText.tail ++ (joined ", " axiomNames ++ [93]))
  rw [← List.cons_append, ← dependsText_split] at parts
  have start : dependsText.isPrefixOf (dependsText ++ (joined ", " axiomNames ++ [93])) = true :=
    List.isPrefixOf_iff_prefix.mpr (List.prefix_append _ _)
  rw [message, if_neg listed_names]
  apply found_first
  simp only [dependsAt, parts.1, parts.2]
  rw [List.drop_left, if_pos ⟨trivial,filled,start,by simp⟩]

end Messages

section Audit

variable {theorems allowed extra : List PyString} {axiomsOf : PyString → List PyString}
variable {entries : Entries PyString (List PyString)} {argument module : PyString}
variable {toolchain : Toolchain}

theorem cleanAt_plain {line name : PyString} (read : cleanAt line = some name) : 39 ∉ name := by
  cases line with
  | nil => cases read
  | cons c rest =>
    rw [cleanAt] at read
    split at read
    · rw [← Option.some.inj read]
      exact quoted_plain rest
    · cases read

theorem dependsAt_plain {line name printed : PyString}
    (read : dependsAt line = some (name,printed)) : 39 ∉ name := by
  cases line with
  | nil => cases read
  | cons c rest =>
    simp only [dependsAt] at read
    split at read
    · rw [← (Prod.mk.inj (Option.some.inj read)).1]
      exact quoted_plain rest
    · cases read

/-- No name that the gate reads holds a quotation mark. -/
theorem readLine_plain {line : PyString} (known : ∀ key ∈ entries.map Prod.fst, 39 ∉ key) :
    ∀ key ∈ (readLine entries line).map Prod.fst, 39 ∉ key := by
  intro key member
  rw [readLine] at member
  split at member
  · next name read =>
    obtain ⟨place,_,here⟩ := List.exists_of_findSome?_eq_some read
    rcases mem_keys_assign.mp member with rfl | member
    · exact cleanAt_plain here
    · exact known key member
  · split at member
    · next name printed read =>
      obtain ⟨place,_,here⟩ := List.exists_of_findSome?_eq_some read
      rcases mem_keys_assign.mp member with rfl | member
      · exact dependsAt_plain here
      · exact known key member
    · exact known key member

theorem readAudit_plain (output : PyString) : ∀ key ∈ (readAudit output).map Prod.fst, 39 ∉ key := by
  have run : ∀ (lines : List PyString) (entries : Entries PyString (List PyString)),
      (∀ key ∈ entries.map Prod.fst, 39 ∉ key) →
        ∀ key ∈ (lines.foldl readLine entries).map Prod.fst, 39 ∉ key := by
    intro lines
    induction lines with
    | nil => exact fun _ known => known
    | cons line lines ih => exact fun _ known => ih _ (readLine_plain known)
  exact run _ [] (by simp)

/-- The message of a theorem gives its entry, unless a name in it reads as a message. -/
theorem readLine_message {name : PyString} (filled : name ≠ []) (plain : 39 ∉ name)
    (apart : axiomsOf name ≠ [] → found cleanAt (message name (axiomsOf name)) = none) :
    readLine entries (message name (axiomsOf name)) =
      assign entries name (readBack (axiomsOf name)) := by
  by_cases none_listed : axiomsOf name = []
  · rw [none_listed, readLine, found_clean filled plain]
    rfl
  · rw [readLine, apart none_listed, found_depends filled plain none_listed, readBack,
      if_neg none_listed]
    rfl

theorem readAudit_messages (lines : ∀ t ∈ theorems, LineFree (message t (axiomsOf t)))
    (filled : ∀ t ∈ theorems, t ≠ []) (plain : ∀ t ∈ theorems, 39 ∉ t)
    (apart : ∀ t ∈ theorems, axiomsOf t ≠ [] → found cleanAt (message t (axiomsOf t)) = none) :
    readAudit (unlines (theorems.map (fun t => message t (axiomsOf t)))) =
      assignAll [] (theorems.map (fun t => (t,readBack (axiomsOf t)))) := by
  have free : ∀ line ∈ theorems.map (fun t => message t (axiomsOf t)), LineFree line := by
    intro line member
    obtain ⟨t,known,rfl⟩ := List.mem_map.mp member
    exact lines t known
  rw [readAudit, splitlines_unlines free, assignAll, List.foldl_map, List.foldl_map]
  clear free lines
  generalize ([] : Entries PyString (List PyString)) = entries
  induction theorems generalizing entries with
  | nil => rfl
  | cons t theorems ih =>
    obtain ⟨f,fs⟩ := List.forall_mem_cons.mp filled
    obtain ⟨p,ps⟩ := List.forall_mem_cons.mp plain
    obtain ⟨a,as⟩ := List.forall_mem_cons.mp apart
    rw [List.foldl_cons, List.foldl_cons, readLine_message f p a]
    exact ih fs ps as _

theorem get_named {f : PyString → List PyString} {names : List PyString} {key : PyString} :
    get (names.map (fun t => (t,f t))) key = if key ∈ names then some (f key) else none := by
  induction names with
  | nil => rfl
  | cons name names ih =>
    rw [List.map_cons, get_cons, ih]
    by_cases same : name = key
    · simp [same]
    · simp [same, Ne.symm same]

theorem mem_named {f : PyString → List PyString} {names : List PyString} {key : PyString}
    {value : List PyString} :
    (key,value) ∈ assignAll [] (names.map (fun t => (t,f t))) ↔ key ∈ names ∧ value = f key := by
  have distinct : ((assignAll [] (names.map (fun t => (t,f t)))).map Prod.fst).Nodup :=
    nodup_assignAll List.nodup_nil
  rw [mem_iff_get distinct, get_assignAll, ← List.map_reverse, get_named, get_nil, Option.or_none]
  by_cases member : key ∈ names
  · simp [member, eq_comm]
  · simp [member]

def Forbidden (allowed names : List PyString) : Prop := ∃ a ∈ names, a = sorryAxiom ∨ a ∉ allowed

theorem unusual_nil {names : List PyString} :
    unusual allowed names = [] ↔ ∀ a ∈ names, a ∈ allowed ∨ a = sorryAxiom := by
  rw [unusual, sortedNames_nil, List.filter_eq_nil_iff]
  apply forall₂_congr
  intro a member
  simp only [decide_eq_true_eq, not_and, not_not]
  tauto

theorem judge_failed (absent : ∃ t ∈ theorems, t ∉ entries.map Prod.fst) :
    (judge theorems allowed entries).verdict = .failed := by
  obtain ⟨t,member,unread⟩ := absent
  have missing : theorems.filter (fun t => t ∉ entries.map Prod.fst) ≠ [] := by
    apply @List.ne_nil_of_mem _ t
    exact List.mem_filter.mpr ⟨member,by simpa using unread⟩
  simp only [judge]
  rw [if_pos missing]
  rfl

theorem judge_read (present : ∀ t ∈ theorems, t ∈ entries.map Prod.fst) :
    ((judge theorems allowed entries).verdict = .incomplete ∧
      ∃ entry ∈ entries, Forbidden allowed entry.2) ∨
    ((judge theorems allowed entries).verdict = .verified ∧
      ∀ entry ∈ entries, ¬ Forbidden allowed entry.2) := by
  have missing : ¬ theorems.filter (fun t => t ∉ entries.map Prod.fst) ≠ [] := by
    rw [not_not, List.filter_eq_nil_iff]
    intro t member
    simpa using present t member
  simp only [judge]
  rw [if_neg missing]
  by_cases admitted : entries.filter (fun entry => sorryAxiom ∈ entry.2) ≠ []
  · rw [if_pos admitted]
    obtain ⟨entry,member⟩ := List.exists_mem_of_ne_nil _ admitted
    obtain ⟨known,inside⟩ := List.mem_filter.mp member
    exact .inl ⟨rfl,entry,known,sorryAxiom,by simpa using inside,.inl rfl⟩
  · rw [if_neg admitted]
    rw [not_not, List.filter_eq_nil_iff] at admitted
    by_cases strange : (entries.map (fun entry => (entry.1,unusual allowed entry.2))).filter
        (fun entry => entry.2 ≠ []) ≠ []
    · rw [if_pos strange]
      obtain ⟨shown,member⟩ := List.exists_mem_of_ne_nil _ strange
      obtain ⟨known,filled⟩ := List.mem_filter.mp member
      obtain ⟨entry,inside,rfl⟩ := List.mem_map.mp known
      have some_name : unusual allowed entry.2 ≠ [] := by simpa using filled
      rw [Ne, unusual_nil] at some_name
      simp only [not_forall, not_or] at some_name
      obtain ⟨a,listed_name,outside,_⟩ := some_name
      exact .inl ⟨rfl,entry,inside,a,listed_name,.inr outside⟩
    · rw [if_neg strange]
      refine .inr ⟨rfl,?_⟩
      rw [not_not, List.filter_eq_nil_iff] at strange
      rintro entry inside ⟨a,listed_name,bad⟩
      have plain : sorryAxiom ∉ entry.2 := by simpa using admitted entry inside
      have none_left := strange _ (List.mem_map.mpr ⟨entry,inside,rfl⟩)
      simp only [ne_eq, decide_not, Bool.not_eq_true', decide_eq_false_iff_not, not_not] at none_left
      rcases bad with rfl | outside
      · exact plain listed_name
      · rcases unusual_nil.mp none_left a listed_name with known | rfl
        · exact outside known
        · exact plain listed_name

/-- The verdict is the one that the axioms of the requested theorems call for. -/
def Exact (theorems allowed : List PyString) (axiomsOf : PyString → List PyString)
    (verdict : Verdict) : Prop :=
  (verdict = .verified ↔
    theorems ≠ [] ∧ ∀ t ∈ theorems, ∀ a ∈ axiomsOf t, a ∈ allowed ∧ a ≠ sorryAxiom) ∧
  (verdict = .incomplete ↔ ∃ t ∈ theorems, Forbidden allowed (axiomsOf t))

/-- The build succeeds and each requested theorem has its message. -/
def Reports (toolchain : Toolchain) (module : PyString) (theorems : List PyString)
    (axiomsOf : PyString → List PyString) : Prop :=
  toolchain.build = 0 ∧ toolchain.audit (auditSource module theorems) =
    (0,unlines (theorems.map (fun t => message t (axiomsOf t))))

/-- No message for a theorem with axioms reads as one for a theorem without. -/
def Apart (theorems : List PyString) (axiomsOf : PyString → List PyString) : Prop :=
  ∀ t ∈ theorems, axiomsOf t ≠ [] → found cleanAt (message t (axiomsOf t)) = none

structure Readable (theorems allowed : List PyString) (axiomsOf : PyString → List PyString) :
    Prop where
  requested : theorems ≠ []
  unquoted : ∀ t ∈ theorems, 39 ∉ t
  apart : Apart theorems axiomsOf
  whole : (∀ t ∈ theorems, ¬ Forbidden allowed (axiomsOf t)) →
    ∀ t ∈ theorems, ∀ a ∈ axiomsOf t, Plain a

theorem forbidden_iff {names : List PyString} :
    ¬ Forbidden allowed names ↔ ∀ a ∈ names, a ∈ allowed ∧ a ≠ sorryAxiom := by
  simp only [Forbidden, not_exists, not_and, not_or, not_not]
  exact forall₂_congr (fun a _ => and_comm)

theorem exact_verified (requested : theorems ≠ [])
    (clean : ∀ t ∈ theorems, ¬ Forbidden allowed (axiomsOf t)) :
    Exact theorems allowed axiomsOf .verified := by
  constructor
  · exact iff_of_true rfl ⟨requested,fun t member => forbidden_iff.mp (clean t member)⟩
  · exact iff_of_false nofun (fun ⟨t,member,bad⟩ => clean t member bad)

theorem exact_incomplete (bad : ∃ t ∈ theorems, Forbidden allowed (axiomsOf t)) :
    Exact theorems allowed axiomsOf .incomplete := by
  constructor
  · obtain ⟨t,member,bad⟩ := bad
    exact iff_of_false nofun (fun clean => forbidden_iff.mpr (clean.2 t member) bad)
  · exact iff_of_true rfl bad

theorem listed_filled {t : PyString} {text : PyString} (member : t ∈ listed text) : t ≠ [] := by
  simpa using (List.mem_filter.mp member).2

/-- Only a legal name is allowed, and a piece with an open quotation is none. -/
theorem open_forbidden (legal : ∀ a ∈ allowed, Legal a) {names : List PyString}
    (cut : ∃ piece ∈ names, scan false piece = some true) : Forbidden allowed names := by
  obtain ⟨piece,member,stays⟩ := cut
  refine ⟨piece,member,.inr ?_⟩
  intro known
  rw [(legal piece known).2] at stays
  cases stays

/-- The names that are read back hold a forbidden one exactly when the printed
ones do, or when one of these has a comma or a bracket. -/
theorem readBack_forbidden (legal : ∀ t ∈ theorems, ∀ a ∈ axiomsOf t, Legal a)
    (allowed_legal : ∀ a ∈ allowed, Legal a) : (∃ t ∈ theorems, Forbidden allowed (readBack (axiomsOf t))) ↔
    (∃ t ∈ theorems, Forbidden allowed (axiomsOf t)) ∨
      ∃ t ∈ theorems, ∃ a ∈ axiomsOf t, ¬ Plain a := by
  constructor
  · rintro ⟨t,member,bad⟩
    by_cases plain : ∀ a ∈ axiomsOf t, Plain a
    · rw [readBack_plain (legal t member) plain] at bad
      exact .inl ⟨t,member,bad⟩
    · simp only [not_forall] at plain
      obtain ⟨a,inside,marked⟩ := plain
      exact .inr ⟨t,member,a,inside,marked⟩
  · intro either
    have cut : ∀ t ∈ theorems, (∃ a ∈ axiomsOf t, ¬ Plain a) →
        Forbidden allowed (readBack (axiomsOf t)) :=
      fun t member marked => open_forbidden allowed_legal (readBack_open (legal t member) marked)
    rcases either with ⟨t,member,bad⟩ | ⟨t,member,marked⟩
    · by_cases plain : ∀ a ∈ axiomsOf t, Plain a
      · refine ⟨t,member,?_⟩
        rwa [readBack_plain (legal t member) plain]
      · simp only [not_forall] at plain
        obtain ⟨a,inside,marked⟩ := plain
        exact ⟨t,member,cut t member ⟨a,inside,marked⟩⟩
    · exact ⟨t,member,cut t member marked⟩

/-- Where the messages are told apart, the entries decide as the axioms do. -/
theorem judge_exact_iff (legal : ∀ t ∈ theorems, ∀ a ∈ axiomsOf t, Legal a)
    (allowed_legal : ∀ a ∈ allowed, Legal a) (filled : ∀ t ∈ theorems, t ≠ [])
    (lines : ∀ t ∈ theorems, LineFree (message t (axiomsOf t))) (apart : Apart theorems axiomsOf) :
    Exact theorems allowed axiomsOf (judge theorems allowed
      (readAudit (unlines (theorems.map (fun t => message t (axiomsOf t)))))).verdict ↔
      Readable theorems allowed axiomsOf := by
  by_cases requested : theorems = []
  · subst requested
    apply iff_of_false
    · intro exact_verdict
      have claimed := exact_verdict.1.mp rfl
      exact claimed.1 rfl
    · exact fun readable => readable.requested rfl
  by_cases unquoted : ∀ t ∈ theorems, 39 ∉ t
  · rw [readAudit_messages lines filled unquoted apart]
    have present : ∀ t ∈ theorems, t ∈ (assignAll []
        (theorems.map (fun t => (t,readBack (axiomsOf t))))).map Prod.fst := by
      intro t member
      exact List.mem_map.mpr ⟨_,mem_named.mpr ⟨member,rfl⟩,rfl⟩
    have entries_iff : (∃ entry ∈ assignAll [] (theorems.map (fun t => (t,readBack (axiomsOf t)))),
        Forbidden allowed entry.2) ↔ ∃ t ∈ theorems, Forbidden allowed (readBack (axiomsOf t)) := by
      constructor
      · rintro ⟨⟨t,value⟩,member,bad⟩
        obtain ⟨known,rfl⟩ := mem_named.mp member
        exact ⟨t,known,bad⟩
      · rintro ⟨t,member,bad⟩
        exact ⟨(t,readBack (axiomsOf t)),mem_named.mpr ⟨member,rfl⟩,bad⟩
    rw [readBack_forbidden legal allowed_legal] at entries_iff
    rcases @judge_read theorems allowed _ present with ⟨verdict,bad⟩ | ⟨verdict,clean⟩
    · rw [verdict]
      rcases entries_iff.mp bad with forbidden | ⟨t,member,a,inside,marked⟩
      · refine iff_of_true (exact_incomplete forbidden) ⟨requested,unquoted,apart,?_⟩
        intro clean
        obtain ⟨t,member,bad⟩ := forbidden
        exact absurd bad (clean t member)
      · constructor
        · intro exact_verdict
          obtain ⟨u,known,bad⟩ := exact_verdict.2.mp rfl
          exact ⟨requested,unquoted,apart,fun clean => absurd bad (clean u known)⟩
        · intro readable
          apply exact_incomplete
          by_contra none_bad
          have clean : ∀ t ∈ theorems, ¬ Forbidden allowed (axiomsOf t) :=
            fun u known bad => none_bad ⟨u,known,bad⟩
          exact marked (readable.whole clean t member a inside)
    · rw [verdict]
      have neither := mt entries_iff.mpr (fun ⟨entry,member,bad⟩ => clean entry member bad)
      obtain ⟨no_bad,no_mark⟩ := not_or.mp neither
      have all_clean : ∀ t ∈ theorems, ¬ Forbidden allowed (axiomsOf t) :=
        fun t member bad => no_bad ⟨t,member,bad⟩
      refine iff_of_true (exact_verified requested all_clean) ⟨requested,unquoted,apart,?_⟩
      intro _ t member a inside
      by_contra marked
      exact no_mark ⟨t,member,a,inside,marked⟩
  · obtain ⟨t,member,mark⟩ : ∃ t ∈ theorems, 39 ∈ t := by simpa using unquoted
    have unread : t ∉ (readAudit (unlines (theorems.map (fun t => message t (axiomsOf t))))).map
        Prod.fst := fun known => readAudit_plain _ t known mark
    rw [judge_failed ⟨t,member,unread⟩]
    apply iff_of_false
    · intro exact_verdict
      by_cases forbidden : ∃ t ∈ theorems, Forbidden allowed (axiomsOf t)
      · exact absurd (exact_verdict.2.mpr forbidden) nofun
      · have clean : ∀ t ∈ theorems, ∀ a ∈ axiomsOf t, a ∈ allowed ∧ a ≠ sorryAxiom :=
          fun u known => forbidden_iff.mp (fun bad => forbidden ⟨u,known,bad⟩)
        exact absurd (exact_verdict.1.mpr ⟨requested,clean⟩) nofun
    · exact fun readable => readable.unquoted t member mark

theorem judge_sorry : judge theorems (baseAxioms ++ sorryAxiom :: extra) entries =
    judge theorems (baseAxioms ++ extra) entries := by
  have same : ∀ names, unusual (baseAxioms ++ sorryAxiom :: extra) names =
      unusual (baseAxioms ++ extra) names := by
    intro names
    unfold unusual
    congr 1
    apply List.filter_congr
    intro a _
    by_cases admitted : a = sorryAxiom
    · simp [admitted]
    · simp [admitted]
  simp only [judge, same]

theorem base_legal : ∀ a ∈ baseAxioms, Legal a := by
  decide +kernel

end Audit

/-- The gate is exact when something is requested, no requested name holds an
apostrophe, no printed list holds the message of a theorem without axioms, and
no name with a comma or a bracket is allowed where all else is; where the
messages are told apart it is exact in no other case. Allowing the axiom of
admitted proofs changes no outcome. -/
theorem axiomGate_exact_iff (argument module : PyString) (extra : List PyString)
    (toolchain : Toolchain) (axiomsOf : PyString → List PyString)
    (reports : Reports toolchain module (listed argument) axiomsOf)
    (lines : ∀ t ∈ listed argument, LineFree (message t (axiomsOf t)))
    (legal : ∀ t ∈ listed argument, ∀ a ∈ axiomsOf t, Legal a) (admitted : ∀ a ∈ extra, Legal a) :
    (Readable (listed argument) (baseAxioms ++ extra) axiomsOf →
      Exact (listed argument) (baseAxioms ++ extra) axiomsOf
        (axiomGate argument module extra toolchain).verdict) ∧
    (Apart (listed argument) axiomsOf →
      Exact (listed argument) (baseAxioms ++ extra) axiomsOf
        (axiomGate argument module extra toolchain).verdict →
      Readable (listed argument) (baseAxioms ++ extra) axiomsOf) ∧
    ∀ other : Toolchain, axiomGate argument module (sorryAxiom :: extra) other =
      axiomGate argument module extra other := by
  obtain ⟨built,printed⟩ := reports
  have run : ∀ extra, axiomGate argument module extra toolchain =
      judge (listed argument) (baseAxioms ++ extra)
        (readAudit (unlines ((listed argument).map (fun t => message t (axiomsOf t))))) := by
    intro extra
    simp [axiomGate, built, printed]
  have allowed_legal : ∀ a ∈ baseAxioms ++ extra, Legal a := by
    intro a member
    rcases List.mem_append.mp member with known | known
    · exact base_legal a known
    · exact admitted a known
  have decided := judge_exact_iff legal allowed_legal (fun _ => listed_filled) lines
  rw [run]
  refine ⟨fun readable => (decided readable.apart).mpr readable,
    fun apart exact_verdict => (decided apart).mp exact_verdict,?_⟩
  intro other
  simp only [axiomGate, judge_sorry]

/-- A project whose audit prints the messages of these theorems. -/
def sampleToolchain (theorems : List PyString) (axiomsOf : PyString → List PyString) : Toolchain :=
  ⟨0,fun _ => (0,unlines (theorems.map (fun t => message t (axiomsOf t))))⟩

def sampleAxioms : PyString → List PyString := fun _ => ["propext","sorryAx"].map points

theorem sample_facts : listed "t" = [points "t"] ∧ (∀ a ∈ sampleAxioms "t", Legal a) ∧
    found cleanAt (message "t" (sampleAxioms "t")) = none ∧
    (message "t" (sampleAxioms "t")).all (fun c => !EvidenceArtifact.isLineBreak c) = true ∧
    (points "t").all (fun c => c != 39) = true ∧ Forbidden baseAxioms (sampleAxioms "t") := by
  unfold Forbidden
  decide +kernel

theorem axiomGate_admitted : Exact (listed "t") (baseAxioms ++ []) sampleAxioms
    (axiomGate "t" "M" [] (sampleToolchain (listed "t") sampleAxioms)).verdict := by
  obtain ⟨single,legal,apart,free,plain,bad⟩ := sample_facts
  have each : ∀ {P : PyString → Prop}, P "t" → ∀ t ∈ listed "t", P t := by
    intro P holds t member
    rw [single, List.mem_singleton] at member
    rw [member]
    exact holds
  have line : LineFree (message "t" (sampleAxioms "t")) := by
    intro c member
    simpa using List.all_eq_true.mp free c member
  apply (axiomGate_exact_iff "t" "M" [] (sampleToolchain (listed "t") sampleAxioms) sampleAxioms
    ⟨rfl,rfl⟩ (each line) (each legal) nofun).1
  refine ⟨?_,each ?_,each (fun _ => apart),fun clean => absurd ?_ (clean "t" ?_)⟩
  · rw [single]
    exact List.cons_ne_nil _ _
  · intro mark
    have known := List.all_eq_true.mp plain 39 mark
    exact absurd known (by decide)
  · simpa using bad
  · rw [single]
    exact List.mem_singleton_self _

theorem sample_verdicts :
    (axiomGate "" "M" [] (sampleToolchain (listed "") sampleAxioms)).verdict = .verified ∧
    listed "" = [] ∧
    (axiomGate "t'" "M" [] (sampleToolchain (listed "t'") sampleAxioms)).verdict = .failed ∧
    listed "t'" = [points "t'"] := by
  decide +kernel

/-- Nothing requested is reported as verified, and a theorem whose name holds an
apostrophe as failed, whatever its axioms are. -/
theorem axiomGate_not_exact :
    ¬ Exact (listed "") (baseAxioms ++ []) sampleAxioms
      (axiomGate "" "M" [] (sampleToolchain (listed "") sampleAxioms)).verdict ∧
    ¬ Exact (listed "t'") (baseAxioms ++ []) sampleAxioms
      (axiomGate "t'" "M" [] (sampleToolchain (listed "t'") sampleAxioms)).verdict := by
  obtain ⟨empty,nothing,quoted_name,single⟩ := sample_verdicts
  rw [empty, quoted_name]
  constructor
  · intro exact_verdict
    exact (exact_verdict.1.mp rfl).1 nothing
  · intro exact_verdict
    have bad : Forbidden (baseAxioms ++ []) (sampleAxioms "t'") :=
      ⟨sorryAxiom,List.mem_cons_of_mem _ List.mem_cons_self,.inl rfl⟩
    have claimed := exact_verdict.2.mpr ⟨points "t'",single ▸ List.mem_singleton_self _,bad⟩
    cases claimed

end AxiomGate

end EvidenceV4
