import EvidenceV4.PanelRun
import EvidenceV4.PromptBlocks
import EvidenceV4.SeparatedFields
import Mathlib.Algebra.GroupWithZero.Nat
import Mathlib.Algebra.Order.BigOperators.Group.List
import Mathlib.Algebra.Order.Group.Nat
import Mathlib.Data.List.Lex
import Mathlib.Data.List.Sort

/-!
# Digests of trees

A directory is digested as the sorted paths of its files with their bytes, and a
working state as the paths that git lists with theirs. A zero byte stands behind
every path and every content, so trees are told apart as long as no content
holds one.
-/

set_option autoImplicit false

namespace EvidenceV4

namespace TreeDigest

open CheckerJson (PyString points)
open EvidenceArtifact (splitlines isLineBreak)
open LineText
open Panel
open PythonData
open ScalarText (encode IsScalar)
open SeparatedFields

section Trees

structure Component (part : PyString) : Prop where
  filled : part ≠ []
  proper : part ≠ points "." ∧ part ≠ points ".."
  single : 47 ∉ part
  terminated : 0 ∉ part
  scalars : ∀ c ∈ part, IsScalar c

/-- A path below a directory. -/
structure RelativePath where
  parts : List PyString
  filled : parts ≠ []
  named : ∀ part ∈ parts, Component part

/-- `path.as_posix()` -/
def RelativePath.text (path : RelativePath) : PyString := joined [47] path.parts

abbrev TreeFile := RelativePath × List UInt8

/-- The regular files below a directory; none of them is also a directory. -/
structure Tree where
  files : List TreeFile
  distinct : (files.map (fun file => file.1.parts)).Nodup
  apart : ∀ a ∈ files, ∀ b ∈ files, a.1.parts <+: b.1.parts → a.1.parts = b.1.parts

/-- The same paths with the same bytes. -/
def Tree.Same (a b : Tree) : Prop := a.files.Perm b.files

def sortedFiles (tree : Tree) : List TreeFile :=
  tree.files.insertionSort (fun a b => a.1.parts ≤ b.1.parts)

def pathBytes (path : RelativePath) : List UInt8 := encode path.text

def fieldOf (file : TreeFile) : List UInt8 × List UInt8 := (pathBytes file.1,file.2)

/-- `_hash_path` of a directory -/
def hashPath (library : Library) (tree : Tree) : PyString :=
  sha256Text library (written 0 ((sortedFiles tree).map fieldOf))

end Trees

section Paths

theorem parts_injective {a b : RelativePath} (same : a.parts = b.parts) : a = b := by
  cases a
  cases b
  cases same
  rfl

theorem text_injective {a b : RelativePath} (same : a.text = b.text) : a = b := by
  apply parts_injective
  have read : ∀ path : RelativePath, (path.text.splitOn 47) = path.parts := fun path =>
    List.splitOn_intercalate 47 (fun part member => (path.named part member).single) path.filled
  rw [← read a, same, read]

theorem text_member {path : RelativePath} {c : ℕ} (member : c ∈ path.text) :
    c = 47 ∨ ∃ part ∈ path.parts, c ∈ part :=
  (joined_mem member).imp_left List.mem_singleton.mp

theorem text_scalar (path : RelativePath) : ∀ c ∈ path.text, IsScalar c := by
  intro c member
  rcases text_member member with rfl | ⟨part,known,inside⟩
  · exact ⟨by decide,by decide⟩
  · exact (path.named part known).scalars c inside

theorem text_terminated (path : RelativePath) : 0 ∉ path.text := by
  intro member
  rcases text_member member with slash | ⟨part,known,inside⟩
  · exact absurd slash (by decide)
  · exact (path.named part known).terminated inside

theorem encode_injective {a b : PyString} (sa : ∀ c ∈ a, IsScalar c) (sb : ∀ c ∈ b, IsScalar c)
    (same : encode a = encode b) : a = b := by
  rw [← ScalarText.decode_encode sa, same, ScalarText.decode_encode sb]

theorem encode_terminated {text : PyString} (scalars : ∀ c ∈ text, IsScalar c) (free : 0 ∉ text) :
    (0 : UInt8) ∉ encode text := by
  intro member
  obtain ⟨b,inside,zeroed⟩ := List.mem_map.mp member
  obtain ⟨c,known,byte⟩ := List.mem_flatMap.mp inside
  have small := ScalarText.encodePoint_byte (scalars c known).1 byte
  have nothing : b = 0 := by
    have value := congrArg UInt8.toNat zeroed
    simpa [Nat.mod_eq_of_lt small] using value
  have positive : c ≠ 0 := fun same => free (same ▸ known)
  subst nothing
  unfold ScalarText.encodePoint at byte
  split at byte
  · simp only [List.mem_singleton] at byte
    omega
  · split at byte
    · simp only [List.mem_cons, List.not_mem_nil, or_false] at byte
      omega
    · split at byte
      · simp only [List.mem_cons, List.not_mem_nil, or_false] at byte
        omega
      · simp only [List.mem_cons, List.not_mem_nil, or_false] at byte
        omega

theorem pathBytes_injective {a b : RelativePath} (same : pathBytes a = pathBytes b) : a = b :=
  text_injective (encode_injective (text_scalar a) (text_scalar b) same)

theorem pathBytes_terminated (path : RelativePath) : (0 : UInt8) ∉ pathBytes path :=
  encode_terminated (text_scalar path) (text_terminated path)

theorem fieldOf_injective : Function.Injective fieldOf := by
  intro a b same
  obtain ⟨path,content⟩ := Prod.mk.inj same
  exact Prod.ext (pathBytes_injective path) content

end Paths

section Directories

variable {library : Library} {tree other : Tree}

theorem sha256Text_injective (injective : Function.Injective library.sha256) {a b : List UInt8}
    (same : sha256Text library a = sha256Text library b) : a = b := by
  have shown : ∀ bytes, sha256Text library bytes = points "sha256:" ++ library.sha256 bytes := by
    intro bytes
    simp [sha256Text, say]
  rw [shown, shown] at same
  exact injective (List.append_cancel_left same)

def treeFields (tree : Tree) : Fields UInt8 := (sortedFiles tree).map fieldOf

theorem sortedFiles_perm (tree : Tree) : (sortedFiles tree).Perm tree.files :=
  List.perm_insertionSort _ _

theorem same_of_fields (same : treeFields tree = treeFields other) : tree.Same other := by
  have files := List.map_injective_iff.mpr fieldOf_injective same
  exact (sortedFiles_perm tree).symm.trans (files ▸ sortedFiles_perm other)

theorem sortedFiles_le (tree : Tree) :
    (sortedFiles tree).Pairwise (fun a b => a.1.parts ≤ b.1.parts) :=
  List.pairwise_insertionSort _ _

/-- Trees whose contents hold no zero byte are told apart. -/
theorem hashPath_free (injective : Function.Injective library.sha256)
    (free : ∀ file ∈ tree.files, (0 : UInt8) ∉ file.2)
    (free' : ∀ file ∈ other.files, (0 : UInt8) ∉ file.2)
    (same : hashPath library tree = hashPath library other) : tree.Same other := by
  have fields_free : ∀ t : Tree, (∀ file ∈ t.files, (0 : UInt8) ∉ file.2) →
      Free 0 (treeFields t) := by
    intro t none_held field member
    obtain ⟨file,inside,rfl⟩ := List.mem_map.mp member
    exact ⟨pathBytes_terminated file.1,none_held file ((sortedFiles_perm t).mem_iff.mp inside)⟩
  apply same_of_fields
  exact written_injective (fields_free tree free) (fields_free other free')
    (sha256Text_injective injective same)

/-- A content in which a later path stands between zero bytes. -/
def Hides (path : RelativePath) (content : List UInt8) : Prop :=
  ∃ first later rest, content = first ++ 0 :: (pathBytes later ++ 0 :: rest) ∧
    path.parts < later.parts ∧ ¬ path.parts <+: later.parts

/-- No other tree has the digest: nothing, or one file that hides no other. -/
def Separate (tree : Tree) : Prop :=
  tree.files = [] ∨ ∃ path content, tree.files = [(path,content)] ∧ ¬ Hides path content

def Tree.single (path : RelativePath) (content : List UInt8) : Tree where
  files := [(path,content)]
  distinct := List.nodup_singleton _
  apart := by
    intro a ha b hb _
    rw [List.mem_singleton.mp ha, List.mem_singleton.mp hb]

def Tree.pair (first later : RelativePath) (a b : List UInt8)
    (order : first.parts < later.parts) (apart : ¬ first.parts <+: later.parts) : Tree where
  files := [(first,a),(later,b)]
  distinct := by
    simpa using ne_of_lt order
  apart := by
    have back : ¬ later.parts <+: first.parts := by
      intro start
      exact start.le order
    intro x hx y hy start
    simp only [List.mem_cons, List.not_mem_nil, or_false] at hx hy
    rcases hx with rfl | rfl <;> rcases hy with rfl | rfl
    · rfl
    · exact absurd start apart
    · exact absurd start back
    · rfl

theorem hashPath_eq (same : written 0 (treeFields tree) = written 0 (treeFields other)) :
    hashPath library tree = hashPath library other := by
  unfold treeFields at same
  rw [hashPath, hashPath, same]

theorem single_unique (injective : Function.Injective library.sha256) {path : RelativePath}
    {content : List UInt8} (single : tree.files = [(path,content)]) (plain : ¬ Hides path content)
    (same : hashPath library other = hashPath library tree) : other.Same tree := by
  have alone : treeFields tree = [fieldOf (path,content)] := by
    rw [treeFields, sortedFiles, single]
    rfl
  have bytes : written 0 (treeFields other) = written 0 (treeFields tree) :=
    sha256Text_injective injective same
  apply same_of_fields
  rw [alone] at bytes ⊢
  cases sorted : sortedFiles other with
  | nil =>
    rw [treeFields, sorted] at bytes
    obtain ⟨body,closed⟩ := @written_closed UInt8 0 [fieldOf (path,content)] (List.cons_ne_nil _ _)
    rw [closed] at bytes
    exact absurd bytes.symm (by simp)
  | cons file files =>
    rw [treeFields, sorted, List.map_cons] at bytes
    obtain ⟨named,rest⟩ := written_single (pathBytes_terminated path) (pathBytes_terminated file.1) bytes
    rcases rest with ⟨none_left,held⟩ | ⟨q,d,rest,e,more,held⟩
    · rw [treeFields, sorted, List.map_cons, none_left, fieldOf, fieldOf, named, held]
    · exfalso
      cases files with
      | nil => cases more
      | cons next files =>
        apply plain
        have order := sortedFiles_le other
        have known : ∀ file ∈ sortedFiles other, file ∈ other.files :=
          fun _ => (sortedFiles_perm other).mem_iff.mp
        have distinct := ((sortedFiles_perm other).map (fun file => file.1.parts)).nodup_iff.mpr
          other.distinct
        rw [sorted] at order known distinct
        have first : file.1 = path := pathBytes_injective named
        have le := (List.pairwise_cons.mp order).1 next List.mem_cons_self
        have ne : file.1.parts ≠ next.1.parts := by
          intro equal
          apply (List.nodup_cons.mp distinct).1
          exact List.mem_map.mpr ⟨next,List.mem_cons_self,equal.symm⟩
        obtain ⟨rfl,_⟩ := Prod.mk.inj (List.cons.inj more).1
        refine ⟨file.2,next.1,e,held,?_,?_⟩
        · rw [← first]
          exact lt_of_le_of_ne le ne
        · rw [← first]
          intro start
          exact ne (other.apart file (known file List.mem_cons_self) next
            (known next (List.mem_cons_of_mem _ List.mem_cons_self)) start)

theorem empty_unique (injective : Function.Injective library.sha256) (empty : tree.files = [])
    (same : hashPath library other = hashPath library tree) : other.Same tree := by
  have nothing : treeFields tree = [] := by
    rw [treeFields, sortedFiles, empty]
    rfl
  have bytes : written 0 (treeFields other) = written 0 (treeFields tree) :=
    sha256Text_injective injective same
  apply same_of_fields
  rw [nothing] at bytes ⊢
  cases fields : treeFields other with
  | nil => rfl
  | cons field rest =>
    obtain ⟨body,closed⟩ := @written_closed UInt8 0 (field :: rest) (List.cons_ne_nil _ _)
    rw [fields, closed] at bytes
    exact absurd bytes (by simp)

/-- A file that hides another is digested as both. -/
theorem hidden_shares {path : RelativePath} {content : List UInt8} (hides : Hides path content)
    (single : tree.files = [(path,content)]) :
    ∃ other : Tree, hashPath library other = hashPath library tree ∧ ¬ other.Same tree := by
  obtain ⟨first,later,rest,rfl,order,apart⟩ := hides
  refine ⟨Tree.pair path later first rest order apart,?_,?_⟩
  · apply hashPath_eq
    have two : sortedFiles (Tree.pair path later first rest order apart) =
        [(path,first),(later,rest)] := by
      unfold sortedFiles Tree.pair
      simp [List.insertionSort, order.le]
    have one : sortedFiles tree = [(path,first ++ 0 :: (pathBytes later ++ 0 :: rest))] := by
      rw [sortedFiles, single]
      rfl
    rw [treeFields, treeFields, two, one]
    simp [fieldOf]
  · intro same
    have lengths := same.length_eq
    rw [single] at lengths
    simp [Tree.pair] at lengths

/-- Two or more files are digested as one. -/
theorem several_share (several : 2 ≤ tree.files.length) :
    ∃ other : Tree, hashPath library other = hashPath library tree ∧ ¬ other.Same tree := by
  have count := (sortedFiles_perm tree).length_eq
  cases sorted : sortedFiles tree with
  | nil =>
    rw [sorted] at count
    simp at count
    omega
  | cons first files =>
    cases files with
    | nil =>
      rw [sorted] at count
      simp at count
      omega
    | cons second files =>
      obtain ⟨path,content⟩ := first
      obtain ⟨later,held⟩ := second
      obtain ⟨e,merged⟩ := @written_merged UInt8 0 (pathBytes path) content (pathBytes later) held
        (files.map fieldOf)
      refine ⟨Tree.single path (content ++ 0 :: (pathBytes later ++ 0 :: e)),?_,?_⟩
      · apply hashPath_eq
        rw [treeFields, treeFields, sorted]
        exact merged.symm
      · intro same
        have lengths := same.length_eq
        simp only [Tree.single, List.length_singleton] at lengths
        omega

/-- A tree is told apart from all others exactly when it is empty or a single
file that hides no other. -/
theorem separate_iff (injective : Function.Injective library.sha256) (tree : Tree) :
    (∀ other : Tree, hashPath library other = hashPath library tree → other.Same tree) ↔
      Separate tree := by
  constructor
  · intro unique
    cases files : tree.files with
    | nil => exact .inl files
    | cons file rest =>
      cases rest with
      | nil =>
        obtain ⟨path,content⟩ := file
        refine .inr ⟨path,content,files,?_⟩
        intro hides
        obtain ⟨other,same,apart⟩ := @hidden_shares library tree path content hides files
        exact apart (unique other same)
      | cons next rest =>
        have several : 2 ≤ tree.files.length := by simp [files]
        obtain ⟨other,same,apart⟩ := @several_share library tree several
        exact absurd (unique other same) apart
  · rintro (empty | ⟨path,content,single,plain⟩) other same
    · exact empty_unique injective empty same
    · exact single_unique injective single plain same

end Directories

section States

/-- What working states at one revision with one tracked diff have in common:
the files that are not untracked can be read, too. -/
structure Checkout where
  head : PyString
  tracked : PyString
  canonical : List PyString
  elsewhere : PyString → Option (List UInt8)

def Printable (name : PyString) : Prop := ∀ c ∈ name, 32 ≤ c ∧ c ≤ 126 ∧ c ≠ 34 ∧ c ≠ 92

/-- How git prints the name of a file: on one line, and plain letters as they are. -/
structure Git where
  quote : PyString → PyString
  lines : ∀ name, LineFree (quote name)
  plain : ∀ name, Printable name → quote name = name

variable (git : Git) (checkout : Checkout) (tree : Tree)

def listing : PyString := unlines (tree.files.map (fun file => git.quote file.1.text))

def readFile (rel : PyString) : Option (List UInt8) :=
  ((tree.files.find? (fun file => file.1.text = rel)).map Prod.snd).or (checkout.elsewhere rel)

/-- The working state with these untracked files. -/
def worktree : Worktree where
  revParse := .replied 0 checkout.head
  diff := .replied 0 checkout.tracked
  others := .replied 0 (listing git tree)
  canonical := checkout.canonical.map (fun rel => (rel,.ok (readFile checkout tree rel)))
  fileBytes := readFile checkout tree

def snapshotDigest (library : Library) : Option PyString :=
  match targetSnapshot library (worktree git checkout tree) with
  | .ok snapshot => snapshot.snapshotSha256
  | .error _ => none

variable {git checkout tree} {library : Library}

def untracked (git : Git) (tree : Tree) : List PyString := untrackedPaths (listing git tree)

def stateFields (git : Git) (checkout : Checkout) (tree : Tree) : Fields UInt8 :=
  (untracked git tree).map (fun rel =>
    (encode rel,(readFile checkout tree rel).getD (encode "<unreadable>")))

theorem snapshotBytes_eq : snapshotBytes (worktree git checkout tree) (strip checkout.head)
    checkout.tracked (untracked git tree) =
      encode (strip checkout.head) ++ [0] ++ encode checkout.tracked ++ [0] ++
        written 0 (stateFields git checkout tree) := by
  unfold snapshotBytes stateFields SeparatedFields.written
  rw [List.flatMap_map]
  simp [worktree]

theorem snapshotDigest_eq : snapshotDigest git checkout tree library =
    some (sha256Text library (encode (strip checkout.head) ++ [0] ++ encode checkout.tracked ++ [0] ++
      written 0 (stateFields git checkout tree))) := by
  obtain ⟨hashes,hashed⟩ : ∃ hashes,
      canonicalHashes library (worktree git checkout tree) = .ok hashes := by
    apply CheckedExcept.mapM_exists
    intro entry member
    obtain ⟨rel,_,rfl⟩ := List.mem_map.mp member
    exact ⟨_,rfl⟩
  have taken : targetSnapshot library (worktree git checkout tree) =
      versioned library (worktree git checkout tree) (strip checkout.head) checkout.tracked
        (untracked git tree) := rfl
  rw [snapshotDigest, taken, versioned, hashed, snapshotBytes_eq]
  rfl

theorem splitlines_listing (tree : Tree) :
    splitlines (listing git tree) = tree.files.map (fun file => git.quote file.1.text) := by
  apply splitlines_unlines
  intro line member
  obtain ⟨file,_,rfl⟩ := List.mem_map.mp member
  exact git.lines file.1.text

theorem readFile_known {file : TreeFile} (member : file ∈ tree.files) :
    readFile checkout tree file.1.text = some file.2 := by
  obtain ⟨hit,found⟩ : ∃ hit, tree.files.find? (fun other => other.1.text = file.1.text) = some hit := by
    rw [← Option.isSome_iff_exists, List.find?_isSome]
    exact ⟨file,member,by simp⟩
  have inside := List.mem_of_find?_eq_some found
  have named : hit.1 = file.1 := text_injective (by simpa using List.find?_some found)
  have same : hit = file :=
    List.inj_on_of_nodup_map tree.distinct inside member (congrArg RelativePath.parts named)
  rw [readFile, found, same]
  rfl

/-- Names that git prints as they are and that the snapshot keeps, and contents
without a zero byte. -/
def PlainState (tree : Tree) : Prop :=
  ∀ file ∈ tree.files, Printable file.1.text ∧ blank file.1.text = false ∧ (0 : UInt8) ∉ file.2

theorem untracked_plain (plain : PlainState tree) :
    (untracked git tree).Perm (tree.files.map (fun file => file.1.text)) := by
  have names : tree.files.map (fun file => git.quote file.1.text) =
      tree.files.map (fun file => file.1.text) :=
    List.map_congr_left (fun file member => git.plain _ (plain file member).1)
  have kept : (tree.files.map (fun file => file.1.text)).filter (fun line => !blank line) =
      tree.files.map (fun file => file.1.text) := by
    rw [List.filter_eq_self]
    intro name member
    obtain ⟨file,inside,rfl⟩ := List.mem_map.mp member
    simp [(plain file inside).2.1]
  rw [untracked, untrackedPaths, splitlines_listing, names, kept]
  exact List.perm_insertionSort _ _

theorem stateFields_plain (plain : PlainState tree) :
    (stateFields git checkout tree).Perm (tree.files.map fieldOf) := by
  have read := (@untracked_plain git tree plain).map (fun rel =>
    (encode rel,(readFile checkout tree rel).getD (encode "<unreadable>")))
  rw [List.map_map] at read
  refine read.trans (List.Perm.of_eq (List.map_congr_left ?_))
  intro file member
  show (encode file.1.text,(readFile checkout tree file.1.text).getD _) = _
  rw [readFile_known member]
  rfl

theorem snapshot_plain (injective : Function.Injective library.sha256) {other : Tree}
    (plain : PlainState tree) (plain' : PlainState other)
    (same : snapshotDigest git checkout tree library = snapshotDigest git checkout other library) :
    tree.Same other := by
  have free : ∀ t : Tree, PlainState t → Free 0 (stateFields git checkout t) := by
    intro t plain field member
    obtain ⟨file,inside,rfl⟩ := List.mem_map.mp ((stateFields_plain plain).mem_iff.mp member)
    exact ⟨pathBytes_terminated file.1,(plain file inside).2.2⟩
  rw [snapshotDigest_eq, snapshotDigest_eq] at same
  have bytes := List.append_cancel_left (sha256Text_injective injective (Option.some.inj same))
  have fields := written_injective (free tree plain) (free other plain') bytes
  have files := (@stateFields_plain git checkout tree plain).symm.trans
    (fields ▸ stateFields_plain plain')
  exact (List.map_perm_map_iff fieldOf_injective).mp files

/-- A name of spaces that is longer than every part of a path of the tree. -/
def spareLength (tree : Tree) : ℕ :=
  (tree.files.map (fun file => (file.1.parts.map List.length).sum)).sum + 1

theorem spare_positive (tree : Tree) : 0 < spareLength tree := Nat.succ_pos _

def sparePath (n : ℕ) (positive : 0 < n) : RelativePath where
  parts := [List.replicate n 32]
  filled := List.cons_ne_nil _ _
  named := by
    intro part member
    rw [List.mem_singleton.mp member]
    have only : ∀ c ∈ List.replicate n 32, c = 32 := fun c inside => List.eq_of_mem_replicate inside
    have some_space : List.replicate n 32 ≠ [] := by simpa using positive.ne'
    have other : ∀ word : PyString, 46 ∈ word → List.replicate n 32 ≠ word := by
      rintro word dot rfl
      exact absurd (only 46 dot) (by decide)
    refine ⟨some_space,⟨other _ (by decide),other _ (by decide)⟩,?_,?_,?_⟩
    · exact fun slash => absurd (only 47 slash) (by decide)
    · exact fun nul => absurd (only 0 nul) (by decide)
    · intro c inside
      rw [only c inside]
      exact ⟨by decide,by decide⟩

theorem sparePath_text (n : ℕ) (positive : 0 < n) :
    (sparePath n positive).text = List.replicate n 32 := by
  simp [RelativePath.text, sparePath, joined, List.intercalate]

theorem spare_absent (tree : Tree) : ∀ file ∈ tree.files, ∀ part ∈ file.1.parts,
    part ≠ List.replicate (spareLength tree) 32 := by
  intro file member part inside same
  have long : part.length = spareLength tree := by rw [same, List.length_replicate]
  have one : part.length ≤ (file.1.parts.map List.length).sum :=
    List.le_sum_of_mem (List.mem_map_of_mem inside)
  have all : (file.1.parts.map List.length).sum ≤
      (tree.files.map (fun file => (file.1.parts.map List.length).sum)).sum :=
    List.le_sum_of_mem (List.mem_map.mpr ⟨file,member,rfl⟩)
  unfold spareLength at long
  omega

def Tree.withSpare (tree : Tree) : Tree where
  files := (sparePath (spareLength tree) (spare_positive tree),[]) :: tree.files
  distinct := by
    rw [List.map_cons, List.nodup_cons]
    refine ⟨?_,tree.distinct⟩
    intro member
    obtain ⟨file,inside,same⟩ := List.mem_map.mp member
    have part : List.replicate (spareLength tree) 32 ∈ file.1.parts := by
      rw [same]
      exact List.mem_singleton_self _
    exact spare_absent tree file inside _ part rfl
  apart := by
    intro a ha b hb start
    rcases List.mem_cons.mp ha with rfl | ha
    · rcases List.mem_cons.mp hb with rfl | hb
      · rfl
      · exact absurd rfl (spare_absent tree b hb _ (start.subset (List.mem_singleton_self _)))
    · rcases List.mem_cons.mp hb with rfl | hb
      · obtain ⟨part,rest,split⟩ := List.exists_cons_of_ne_nil a.1.filled
        have known : part ∈ a.1.parts := split ▸ List.mem_cons_self
        exact absurd (List.mem_singleton.mp (start.subset known)) (spare_absent tree a ha part known)
      · exact tree.apart a ha b hb start

theorem withSpare_untracked (tree : Tree) : untracked git tree.withSpare = untracked git tree := by
  have name := sparePath_text (spareLength tree) (spare_positive tree)
  have printable : Printable (List.replicate (spareLength tree) 32) := by
    intro c inside
    rw [List.eq_of_mem_replicate inside]
    decide
  have spaces : blank (List.replicate (spareLength tree) 32) = true := by
    unfold blank
    rw [List.all_eq_true]
    intro c inside
    rw [List.eq_of_mem_replicate inside]
    decide
  have lines : tree.withSpare.files.map (fun file => git.quote file.1.text) =
      List.replicate (spareLength tree) 32 :: tree.files.map (fun file => git.quote file.1.text) := by
    rw [Tree.withSpare, List.map_cons, name, git.plain _ printable]
  rw [untracked, untracked, untrackedPaths, untrackedPaths, splitlines_listing, splitlines_listing,
    lines, List.filter_cons_of_neg (by simp [spaces])]

/-- A file whose name is white space leaves no trace in the snapshot. -/
theorem withSpare_shares (tree : Tree) :
    snapshotDigest git checkout tree.withSpare library = snapshotDigest git checkout tree library := by
  have read : ∀ rel ∈ untracked git tree,
      readFile checkout tree.withSpare rel = readFile checkout tree rel := by
    intro rel member
    have inked : blank rel = false := by
      rw [untracked, untrackedPaths] at member
      have kept := (List.perm_insertionSort _ _).mem_iff.mp member
      simpa using (List.mem_filter.mp kept).2
    have other : (sparePath (spareLength tree) (spare_positive tree)).text ≠ rel := by
      rintro rfl
      rw [sparePath_text] at inked
      unfold blank at inked
      rw [List.all_eq_false] at inked
      obtain ⟨c,inside,ink⟩ := inked
      rw [List.eq_of_mem_replicate inside] at ink
      exact absurd ink (by decide)
    unfold readFile Tree.withSpare
    rw [List.find?_cons_of_neg (by simpa using other)]
  have fields : stateFields git checkout tree.withSpare = stateFields git checkout tree := by
    unfold stateFields
    rw [withSpare_untracked]
    exact List.map_congr_left (fun rel member => by rw [read rel member])
  rw [snapshotDigest_eq, snapshotDigest_eq, fields]

end States

/-- A library whose digest is the bytes themselves. -/
def sampleLibrary : Library where
  repr := fun _ => []
  loads := fun _ => none
  sha256 := fun bytes => bytes.map UInt8.toNat

theorem sampleLibrary_injective : Function.Injective sampleLibrary.sha256 :=
  List.map_injective_iff.mpr (fun _ _ => UInt8.toNat_inj.mp)

/-- The path of a file that is named by one small letter. -/
def letterPath (c : ℕ) (letter : 97 ≤ c ∧ c ≤ 122) : RelativePath where
  parts := [[c]]
  filled := List.cons_ne_nil _ _
  named := by
    intro part member
    rw [List.mem_singleton.mp member]
    have dot : c ≠ 46 := by omega
    refine ⟨List.cons_ne_nil _ _,⟨?_,?_⟩,?_,?_,?_⟩
    · exact fun same => dot (List.cons.inj same).1
    · exact fun same => dot (List.cons.inj same).1
    · exact fun slash => absurd (List.mem_singleton.mp slash) (by omega)
    · exact fun nul => absurd (List.mem_singleton.mp nul) (by omega)
    · intro d inside
      rw [List.mem_singleton.mp inside]
      refine ⟨by omega,?_⟩
      simp only [JsonText.isSurrogate, Bool.and_eq_false_iff, decide_eq_false_iff_not]
      omega

def pathA : RelativePath := letterPath 97 (by decide)

def pathB : RelativePath := letterPath 98 (by decide)

def emptyTree : Tree := ⟨[],List.nodup_nil,nofun⟩

end TreeDigest

end EvidenceV4
