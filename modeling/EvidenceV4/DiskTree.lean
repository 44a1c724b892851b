import Mathlib.Data.List.Basic
import Mathlib.Data.List.Infix
import Mathlib.Logic.Function.Basic

/-!
# Trees of directories and files

A disk is a list of paths with what is there. The calls are those of a file
system: each is refused where the tree does not allow it, and changes the paths
that it names otherwise. What they do is said in terms of `get`, and the calls on
one path keep the tree well formed.
-/

set_option autoImplicit false

namespace DiskTree

inductive Node (Data : Type)
  | dir
  | file (data : Data)
  deriving DecidableEq

abbrev Path (Name : Type) := List Name

abbrev Disk (Name Data : Type) := List (Path Name × Node Data)

variable {Name Data : Type} [DecidableEq Name]

def get (disk : Disk Name Data) (path : Path Name) : Option (Node Data) :=
  (disk.find? (fun entry => entry.1 = path)).map Prod.snd

def remove (disk : Disk Name Data) (path : Path Name) : Disk Name Data :=
  disk.filter (fun entry => entry.1 ≠ path)

def put (disk : Disk Name Data) (path : Path Name) (node : Node Data) : Disk Name Data :=
  (path,node) :: remove disk path

def childless (disk : Disk Name Data) (path : Path Name) : Bool :=
  disk.all (fun entry => ¬(path <+: entry.1 ∧ entry.1 ≠ path))

section Calls

variable (disk : Disk Name Data)

/-- There is a directory that can hold an entry of this name. -/
def Placed (path : Path Name) : Prop := path ≠ [] ∧ get disk path.dropLast = some .dir

instance [DecidableEq Data] (path : Path Name) : Decidable (Placed disk path) :=
  inferInstanceAs (Decidable (_ ∧ _))

variable [DecidableEq Data]

def mkdir (path : Path Name) : Option (Disk Name Data) :=
  if get disk path = none ∧ Placed disk path then some (put disk path .dir) else none

/-- Create a file, or change the one that is there. -/
def write (path : Path Name) (change : Option Data → Data) : Option (Disk Name Data) :=
  match get disk path with
  | some .dir => none
  | some (.file data) => some (put disk path (.file (change (some data))))
  | none => if Placed disk path then some (put disk path (.file (change none))) else none

/-- Rename a file, which replaces a file of the other name. -/
def replace (source target : Path Name) : Option (Disk Name Data) :=
  match get disk source with
  | some (.file data) =>
    if Placed disk target ∧ get disk target ≠ some .dir then
      some (put (remove disk source) target (.file data))
    else none
  | _ => none

omit [DecidableEq Data] in
def unlink (path : Path Name) : Option (Disk Name Data) :=
  match get disk path with
  | some (.file _) => some (remove disk path)
  | _ => none

def rmdir (path : Path Name) : Option (Disk Name Data) :=
  if path ≠ [] ∧ get disk path = some .dir ∧ childless disk path then some (remove disk path)
  else none

/-- Remove a path and everything below it, apart from what leads to a path that is kept. -/
def rmtree (path : Path Name) (kept : List (Path Name)) : Disk Name Data :=
  disk.filter (fun entry => ¬path <+: entry.1 ∨ ∃ k ∈ kept, entry.1 <+: k)

end Calls

section Lookups

variable {disk : Disk Name Data} {path place : Path Name} {node : Node Data}

theorem get_cons {entry : Path Name × Node Data} : get (entry :: disk) place =
    if entry.1 = place then some entry.2 else get disk place := by
  rw [get, List.find?_cons]
  by_cases same : entry.1 = place
  · simp [same]
  · simp [same, get]

theorem get_filter (keep : Path Name → Bool) : get (disk.filter (fun entry => keep entry.1)) place =
    if keep place then get disk place else none := by
  induction disk with
  | nil => simp [get]
  | cons entry rest ih =>
    rw [List.filter_cons]
    by_cases same : entry.1 = place
    · subst same
      by_cases kept : keep entry.1 = true
      · simp [kept, get_cons]
      · rw [if_neg kept, ih, if_neg kept, if_neg kept]
    · by_cases kept : keep entry.1 = true
      · rw [if_pos kept, get_cons, get_cons, if_neg same, if_neg same, ih]
      · rw [if_neg kept, ih, get_cons, if_neg same]

theorem get_remove : get (remove disk path) = Function.update (get disk) path none := by
  ext1 place
  rw [remove, get_filter (fun p => decide (p ≠ path))]
  by_cases same : place = path
  · simp [same]
  · simp [same]

theorem get_put : get (put disk path node) = Function.update (get disk) path (some node) := by
  ext1 place
  rw [put, get_cons, get_remove]
  by_cases same : path = place
  · simp [same]
  · have other : place ≠ path := fun back => same back.symm
    simp [same, other]

theorem get_rmtree {kept : List (Path Name)} : get (rmtree disk path kept) place =
    if ¬path <+: place ∨ ∃ k ∈ kept, place <+: k then get disk place else none := by
  rw [rmtree, get_filter (fun p => decide (¬path <+: p ∨ ∃ k ∈ kept, p <+: k))]
  simp

theorem get_none_iff : get disk place = none ↔ ∀ entry ∈ disk, entry.1 ≠ place := by
  rw [get, Option.map_eq_none_iff, List.find?_eq_none]
  simp

theorem childless_iff : childless disk path = true ↔
    ∀ place, path <+: place → place ≠ path → get disk place = none := by
  simp only [childless, List.all_eq_true, decide_eq_true_eq, get_none_iff]
  constructor
  · intro free place below other entry member same
    exact free entry member ⟨same ▸ below,same ▸ other⟩
  · intro free entry member inside
    exact free entry.1 inside.1 inside.2 entry member rfl

end Lookups

/-- Whatever exists is in a directory, and there is a root. -/
structure Tree (disk : Disk Name Data) : Prop where
  root : get disk [] = some .dir
  parent : ∀ path name, get disk (path ++ [name]) ≠ none → get disk path = some .dir

theorem tree_iff {disk : Disk Name Data} : Tree disk ↔ get disk [] = some .dir ∧
    ∀ entry ∈ disk, entry.1 = [] ∨ get disk entry.1.dropLast = some .dir := by
  constructor
  · intro tree
    use tree.root
    intro entry member
    cases split : entry.1 using List.reverseRecOn with
    | nil => exact .inl rfl
    | append_singleton init name =>
      rw [List.dropLast_concat]
      apply Or.inr
      apply tree.parent init name
      rw [Ne, get_none_iff]
      exact fun free => free entry member split
  · intro checked
    use checked.1
    intro path name there
    by_contra other
    apply there
    rw [get_none_iff]
    intro entry member same
    cases checked.2 entry member with
    | inl root => simp [root] at same
    | inr parent =>
      rw [same, List.dropLast_concat] at parent
      exact other parent

instance [DecidableEq Data] (disk : Disk Name Data) : Decidable (Tree disk) :=
  decidable_of_iff _ tree_iff.symm

section Trees

variable {disk disk' : Disk Name Data} {path place source target : Path Name} {node : Node Data}
  {change : Option Data → Data}

theorem Tree.above (tree : Tree disk) (below : path <+: place) (other : place ≠ path)
    (there : get disk place ≠ none) : get disk path = some .dir := by
  induction place using List.reverseRecOn with
  | nil => exact absurd (List.prefix_nil.mp below).symm other
  | append_singleton init name ih =>
    have parent := tree.parent init name there
    cases List.prefix_concat_iff.mp below with
    | inl same => exact absurd same.symm other
    | inr inside =>
      by_cases same : init = path
      · exact same ▸ parent
      · exact ih inside same (by simp [parent])

theorem Tree.file_childless (tree : Tree disk) {data : Data} (found : get disk path = some (.file data))
    (below : path <+: place) (other : place ≠ path) : get disk place = none := by
  by_contra there
  rw [tree.above below other there] at found
  cases found

theorem Tree.absent (tree : Tree disk) (missing : get disk path = none) (below : path <+: place) :
    get disk place = none := by
  by_cases same : place = path
  · rw [same, missing]
  · by_contra there
    rw [tree.above below same there] at missing
    cases missing

theorem Tree.placed (tree : Tree disk) (there : get disk path ≠ none) (other : path ≠ []) :
    Placed disk path := by
  use other
  apply tree.above (List.dropLast_prefix path) _ there
  intro same
  have shorter := congrArg List.length same
  rw [List.length_dropLast] at shorter
  have long := List.length_pos_of_ne_nil other
  omega

theorem put_tree (tree : Tree disk) (placed : Placed disk path)
    (kind : get disk path = some .dir → node = .dir) : Tree (put disk path node) where
  root := by
    rw [get_put, Function.update_of_ne placed.1.symm]
    exact tree.root
  parent := by
    intro init name there
    rw [get_put] at there ⊢
    by_cases here : init ++ [name] = path
    · have above : init ≠ path := by
        rintro rfl
        simp at here
      rw [Function.update_of_ne above]
      have placed := placed.2
      rw [← here, List.dropLast_concat] at placed
      exact placed
    · rw [Function.update_of_ne here] at there
      have above := tree.parent init name there
      by_cases same : init = path
      · subst same
        rw [Function.update_self, kind above]
      · rw [Function.update_of_ne same]
        exact above

theorem remove_tree (tree : Tree disk) (other : path ≠ [])
    (free : ∀ place, path <+: place → place ≠ path → get disk place = none) :
    Tree (remove disk path) where
  root := by
    rw [get_remove, Function.update_of_ne other.symm]
    exact tree.root
  parent := by
    intro init name there
    rw [get_remove] at there ⊢
    have elsewhere : init ++ [name] ≠ path := by
      intro same
      rw [same, Function.update_self] at there
      exact there rfl
    rw [Function.update_of_ne elsewhere] at there
    have apart : init ≠ path := by
      rintro rfl
      exact there (free _ (List.prefix_append init [name]) elsewhere)
    rw [Function.update_of_ne apart]
    exact tree.parent init name there

variable [DecidableEq Data]

theorem mkdir_some (made : mkdir disk path = some disk') : get disk path = none ∧ Placed disk path ∧
    get disk' = Function.update (get disk) path (some .dir) := by
  rw [mkdir, Option.ite_none_right_eq_some] at made
  have ⟨ready,same⟩ := made
  cases same
  exact ⟨ready.1,ready.2,get_put⟩

theorem mkdir_tree (tree : Tree disk) (made : mkdir disk path = some disk') : Tree disk' := by
  rw [mkdir, Option.ite_none_right_eq_some] at made
  have ⟨ready,same⟩ := made
  cases same
  exact put_tree tree ready.2 (fun _ => rfl)

theorem write_some (written : write disk path change = some disk') : get disk path ≠ some .dir ∧
    ∃ data, get disk' = Function.update (get disk) path (some (.file (change data))) ∧
      get disk path = data.map .file := by
  rw [write] at written
  split at written
  · cases written
  · cases written
    exact ⟨by simp [*],_,get_put,by simp [*]⟩
  · rw [Option.ite_none_right_eq_some] at written
    have ⟨_,same⟩ := written
    cases same
    exact ⟨by simp [*],none,get_put,by simp [*]⟩

theorem write_tree (tree : Tree disk) (written : write disk path change = some disk') : Tree disk' := by
  rw [write] at written
  split at written
  · cases written
  · rename_i data found
    cases written
    have other : path ≠ [] := by
      rintro rfl
      rw [tree.root] at found
      cases found
    apply put_tree tree (tree.placed (by simp [found]) other)
    rw [found]
    exact nofun
  · rename_i found
    rw [Option.ite_none_right_eq_some] at written
    have ⟨placed,same⟩ := written
    cases same
    apply put_tree tree placed
    rw [found]
    exact nofun

theorem replace_some (moved : replace disk source target = some disk') : ∃ data,
    get disk source = some (.file data) ∧ Placed disk target ∧ get disk target ≠ some .dir ∧
      get disk' = Function.update (Function.update (get disk) source none) target
        (some (.file data)) := by
  rw [replace] at moved
  split at moved
  · rename_i data found
    rw [Option.ite_none_right_eq_some] at moved
    have ⟨ready,same⟩ := moved
    cases same
    use data, found, ready.1, ready.2
    rw [get_put, get_remove]
  · cases moved

theorem replace_ready {data : Data} (found : get disk source = some (.file data))
    (placed : Placed disk target) (kind : get disk target ≠ some .dir) :
    replace disk source target = some (put (remove disk source) target (.file data)) := by
  rw [replace, found]
  exact if_pos ⟨placed,kind⟩

theorem replace_tree (tree : Tree disk) (moved : replace disk source target = some disk') :
    Tree disk' := by
  rw [replace] at moved
  split at moved
  · rename_i data found
    rw [Option.ite_none_right_eq_some] at moved
    have ⟨ready,same⟩ := moved
    cases same
    have other : source ≠ [] := by
      rintro rfl
      rw [tree.root] at found
      cases found
    have removed := remove_tree tree other (fun place below apart =>
      tree.file_childless found below apart)
    apply put_tree removed
    · use ready.1.1
      rw [get_remove]
      have apart : target.dropLast ≠ source := by
        intro same
        rw [← same, ready.1.2] at found
        cases found
      rw [Function.update_of_ne apart]
      exact ready.1.2
    · intro directory
      rw [get_remove] at directory
      by_cases same : target = source
      · rw [same, Function.update_self] at directory
        cases directory
      · rw [Function.update_of_ne same] at directory
        exact absurd directory ready.2
  · cases moved

omit [DecidableEq Data] in
theorem unlink_some (removed : unlink disk path = some disk') :
    (∃ data, get disk path = some (.file data)) ∧
      get disk' = Function.update (get disk) path none := by
  rw [unlink] at removed
  split at removed
  · cases removed
    exact ⟨⟨_,‹_›⟩,get_remove⟩
  · cases removed

omit [DecidableEq Data] in
theorem unlink_tree (tree : Tree disk) (removed : unlink disk path = some disk') : Tree disk' := by
  rw [unlink] at removed
  split at removed
  · rename_i data found
    cases removed
    have other : path ≠ [] := by
      rintro rfl
      rw [tree.root] at found
      cases found
    exact remove_tree tree other (fun place below apart => tree.file_childless found below apart)
  · cases removed

theorem rmdir_some (removed : rmdir disk path = some disk') : path ≠ [] ∧
    get disk path = some .dir ∧ (∀ place, path <+: place → place ≠ path → get disk place = none) ∧
      get disk' = Function.update (get disk) path none := by
  rw [rmdir, Option.ite_none_right_eq_some] at removed
  have ⟨ready,same⟩ := removed
  cases same
  exact ⟨ready.1,ready.2.1,childless_iff.mp ready.2.2,get_remove⟩

theorem rmdir_ready (other : path ≠ []) (found : get disk path = some .dir)
    (free : ∀ place, path <+: place → place ≠ path → get disk place = none) :
    rmdir disk path = some (remove disk path) :=
  if_pos ⟨other,found,childless_iff.mpr free⟩

theorem rmdir_tree (tree : Tree disk) (removed : rmdir disk path = some disk') : Tree disk' := by
  rw [rmdir, Option.ite_none_right_eq_some] at removed
  have ⟨ready,same⟩ := removed
  cases same
  exact remove_tree tree ready.1 (childless_iff.mp ready.2.2)

end Trees

end DiskTree
