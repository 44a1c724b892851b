import EvidenceV4.ProducerArtifact
import EvidenceV4.SeparatedFields
import Mathlib.Data.List.DropRight
import Mathlib.Data.List.Infix

/-!
# Paths of tools

A directory is the list of its names below the root of the file system. Paths
are read lexically: an empty part and a dot are dropped and a double dot leaves
the directory before it. A directory covers what is spelled behind it.
-/

set_option autoImplicit false

namespace EvidenceV4

namespace ToolPaths

open JsonText (CodeUnit charUnits)
open ScalarText (JsString)
open SeparatedFields (splitOn_apart intercalate_append)

section Texts

/-- The characters that `trim` and the class `\s` of a pattern know. -/
def space (c : Char) : Bool :=
  let n := c.toNat
  (9 ≤ n && n ≤ 13) || n == 32 || n == 0xa0 || n == 0x1680 || (0x2000 ≤ n && n ≤ 0x200a) ||
    n == 0x2028 || n == 0x2029 || n == 0x202f || n == 0x205f || n == 0x3000 || n == 0xfeff

def trim (s : List Char) : List Char := (s.dropWhile space).rdropWhile space

def jsUnits (s : List Char) : JsString := s.flatMap charUnits

end Texts

abbrev Directory := List JsString

def slash : CodeUnit := 47

def dot : JsString := [46]

def dotdot : JsString := [46,46]

def enter (parts : Directory) (part : JsString) : Directory :=
  if part = [] ∨ part = dot then parts
  else if part = dotdot then parts.dropLast
  else parts ++ [part]

/-- `path.resolve(name)` in the directory `base`. -/
def resolve (base : Directory) (name : JsString) : Directory :=
  (name.splitOn slash).foldl enter (if name.head? = some slash then [] else base)

def render (parts : Directory) : JsString := slash :: [slash].intercalate parts

def inside (root value : JsString) : Bool := value == root || (root ++ [slash]).isPrefixOf value

def basename (name : JsString) : JsString :=
  ((name.splitOn slash).filter (· ≠ [])).getLastD []

/-- A name of a directory within another one. -/
def IsName (part : JsString) : Prop := part ≠ [] ∧ slash ∉ part ∧ part ≠ dot ∧ part ≠ dotdot

structure Folder where
  names : Directory
  named : ∀ part ∈ names, IsName part

section Spelling

variable {p c base : Directory} {name : JsString}

theorem splitOn_path {parts : List JsString} (nonempty : parts ≠ [])
    (whole : ∀ part ∈ parts, slash ∉ part) :
    (slash :: [slash].intercalate parts).splitOn slash = [] :: parts := by
  have first : ([] ++ slash :: [slash].intercalate parts).splitOn slash =
      [] :: ([slash].intercalate parts).splitOn slash :=
    List.splitOn_append_cons_self_of_not_mem (by simp) _
  rw [List.nil_append] at first
  rw [first, List.splitOn_intercalate slash whole nonempty]

theorem enter_name {part : JsString} (named : IsName part) : enter p part = p ++ [part] := by
  have ⟨full,_,apart,below⟩ := named
  simp [enter, full, apart, below]

theorem enter_named {part : JsString} (whole : slash ∉ part) (named : ∀ x ∈ p, IsName x) :
    ∀ x ∈ enter p part, IsName x := by
  intro x member
  by_cases empty : part = [] ∨ part = dot
  · rw [enter, if_pos empty] at member
    exact named x member
  · rw [enter, if_neg empty] at member
    by_cases up : part = dotdot
    · rw [if_pos up] at member
      exact named x (List.mem_of_mem_dropLast member)
    · rw [if_neg up] at member
      rcases List.mem_append.mp member with member | member
      · exact named x member
      · rw [List.mem_singleton.mp member]
        exact ⟨fun e => empty (.inl e),whole,fun e => empty (.inr e),up⟩

theorem resolve_named (named : ∀ x ∈ base, IsName x) : ∀ x ∈ resolve base name, IsName x := by
  have run : ∀ (parts : List JsString) (start : Directory), (∀ part ∈ parts, slash ∉ part) →
      (∀ x ∈ start, IsName x) → ∀ x ∈ parts.foldl enter start, IsName x := by
    intro parts
    induction parts with
    | nil => exact fun _ _ named => named
    | cons part rest ih =>
      intro start whole named
      exact ih _ (fun q member => whole q (List.mem_cons_of_mem _ member))
        (enter_named (whole part List.mem_cons_self) named)
  refine run _ _ (splitOn_apart slash name) ?_
  by_cases absolute : name.head? = some slash
  · simp [absolute]
  · rwa [if_neg absolute]

theorem foldl_enter_named {tail : Directory} (named : ∀ x ∈ tail, IsName x) (start : Directory) :
    tail.foldl enter start = start ++ tail := by
  induction tail generalizing start with
  | nil => simp
  | cons part rest ih =>
    rw [List.foldl_cons, enter_name (named part List.mem_cons_self),
      ih (fun x member => named x (List.mem_cons_of_mem _ member)), List.append_assoc,
      List.singleton_append]

theorem resolve_render (named : ∀ x ∈ p, IsName x) : resolve base (render p) = p := by
  rw [resolve, render, List.head?_cons, if_pos rfl]
  by_cases root : p = []
  · subst root
    rfl
  · rw [splitOn_path root (fun x member => (named x member).2.1), List.foldl_cons, enter,
      if_pos (.inl rfl), foldl_enter_named named, List.nil_append]

/-- A path within a directory is read from the directory. -/
theorem resolve_within (named : ∀ x ∈ p, IsName x) (plain : name.head? ≠ some slash) :
    resolve base (render p ++ slash :: name) = resolve p name := by
  have front : (render p ++ slash :: name).head? = some slash := rfl
  have first := @resolve_render p base named
  rw [resolve, render, List.head?_cons, if_pos rfl, ← render] at first
  rw [resolve, resolve, if_pos front, if_neg plain, List.splitOn_append_cons_self,
    List.foldl_append, first]

theorem render_injective (names : ∀ x ∈ p, IsName x) (others : ∀ x ∈ c, IsName x)
    (same : render p = render c) : p = c := by
  have tails : [slash].intercalate p = [slash].intercalate c := List.cons.inj same |>.2
  have blank : ∀ {d : Directory}, (∀ x ∈ d, IsName x) → [slash].intercalate d = [] → d = [] := by
    intro d named empty
    cases d with
    | nil => rfl
    | cons first rest =>
      have full := (named first List.mem_cons_self).1
      cases rest with
      | nil => exact absurd (by simpa using empty) full
      | cons second rest => simp [List.intercalate_cons_cons] at empty
  by_cases none : p = []
  · subst none
    exact (blank others (by simpa using tails.symm)).symm
  · by_cases other : c = []
    · subst other
      exact absurd (blank names (by simpa using tails)) none
    · rw [← List.splitOn_intercalate slash (fun x member => (names x member).2.1) none, tails,
        List.splitOn_intercalate slash (fun x member => (others x member).2.1) other]

/-- The root of the file system covers itself alone. -/
def Covers (p c : Directory) : Prop := p = c ∨ (p ≠ [] ∧ p <+: c)

theorem inside_render (names : ∀ x ∈ p, IsName x) (others : ∀ x ∈ c, IsName x) :
    inside (render p) (render c) = true ↔ Covers p c := by
  rw [inside, Bool.or_eq_true, beq_iff_eq, List.isPrefixOf_iff_prefix]
  constructor
  · rintro (same | ⟨tail,split⟩)
    · exact .inl (render_injective names others same.symm)
    · have tails : [slash].intercalate p ++ slash :: tail = [slash].intercalate c := by
        simpa [render] using split
      by_cases none : p = []
      · subst none
        have lead : slash :: tail = [slash].intercalate c := by simpa using tails
        cases c with
        | nil => simp at lead
        | cons first rest =>
          have ⟨full,whole,_⟩ := others first List.mem_cons_self
          cases first with
          | nil => exact absurd rfl full
          | cons u more =>
            have head : slash = u := by
              cases rest with
              | nil => exact (List.cons.inj (by simpa using lead)).1
              | cons second rest =>
                rw [List.intercalate_cons_cons] at lead
                exact (List.cons.inj lead).1
            exact absurd (head ▸ List.mem_cons_self) whole
      · have other : c ≠ [] := by
          intro empty
          rw [empty] at tails
          simp at tails
        rw [← @List.intercalate_splitOn _ tail _ _ slash, intercalate_append none
          (List.splitOn_ne_nil _ _)] at tails
        have parts := congrArg (List.splitOn slash) tails
        rw [List.splitOn_intercalate slash (fun x member => (others x member).2.1) other,
          List.splitOn_intercalate slash ?whole (by simp [none])] at parts
        · exact .inr ⟨none,⟨_,parts⟩⟩
        · intro x member
          rcases List.mem_append.mp member with member | member
          · exact (names x member).2.1
          · exact splitOn_apart slash tail x member
  · rintro (same | ⟨full,tail,split⟩)
    · exact .inl (same ▸ rfl)
    · by_cases none : tail = []
      · subst none
        rw [List.append_nil] at split
        exact .inl (split ▸ rfl)
      · refine .inr ⟨[slash].intercalate tail,?_⟩
        rw [render, render, ← split, ← intercalate_append full none]
        simp

end Spelling

end ToolPaths

end EvidenceV4
