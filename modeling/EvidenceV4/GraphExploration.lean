import Mathlib.Data.List.Basic
import Mathlib.Data.List.Perm.Subperm
import Mathlib.Data.List.Permutation
import Mathlib.Data.List.Sublists
import Mathlib.Logic.Relation

/-!
# Explorations that remember their places

An exploration marks a place before it visits what follows, so a place that it
meets again, also on the way there, is skipped. It collects what the places
emit. However the visits are ordered, what it has collected in the end is what
the reachable places emit. Nothing here depends on what places are.
-/

set_option autoImplicit false

namespace GraphExploration

open Relation (ReflTransGen)

variable {κ ω : Type}

structure Memory (κ ω : Type) where
  visited : List κ
  found : List ω

/-- The edges of a graph, what its places emit, and what is checked of them. -/
structure Graph (κ ω : Type) where
  follows : κ → κ → Prop
  emits : κ → ω → Prop
  passes : κ → Prop

variable {graph : Graph κ ω} {a b c : Memory κ ω} {s t k : κ}

/-- The place has passed, what follows it is visited, and what it emits is found. -/
structure Settled (graph : Graph κ ω) (memory : Memory κ ω) (k : κ) : Prop where
  passes : graph.passes k
  follows : ∀ t, graph.follows k t → t ∈ memory.visited
  emits : ∀ o, graph.emits k o → o ∈ memory.found

/-- A part of the exploration from `s`: what is new is reached, and is settled. -/
structure Extends (graph : Graph κ ω) (s : κ) (before after : Memory κ ω) : Prop where
  visited : before.visited ⊆ after.visited
  kept : before.found <+: after.found
  settled : ∀ k ∈ after.visited, k ∉ before.visited → Settled graph after k
  reached : ∀ k ∈ after.visited, k ∉ before.visited → ReflTransGen graph.follows s k
  emitted : ∀ o ∈ after.found, o ∉ before.found →
    ∃ k, ReflTransGen graph.follows s k ∧ graph.emits k o

section Rules

theorem Settled.mono (settled : Settled graph a k) (visited : a.visited ⊆ b.visited)
    (found : a.found ⊆ b.found) : Settled graph b k :=
  ⟨settled.passes,fun t edge => visited (settled.follows t edge),
    fun o emits => found (settled.emits o emits)⟩

theorem Extends.found (part : Extends graph s a b) : a.found ⊆ b.found := part.kept.subset

theorem Extends.refl : Extends graph s a a where
  visited := List.Subset.refl _
  kept := List.prefix_rfl
  settled _ known fresh := absurd known fresh
  reached _ known fresh := absurd known fresh
  emitted _ known fresh := absurd known fresh

theorem Extends.trans (first : Extends graph s a b) (second : Extends graph s b c) :
    Extends graph s a c where
  visited := List.Subset.trans first.visited second.visited
  kept := first.kept.trans second.kept
  settled k known fresh := by
    by_cases early : k ∈ b.visited
    · exact (first.settled k early fresh).mono second.visited second.found
    · exact second.settled k known early
  reached k known fresh := by
    by_cases early : k ∈ b.visited
    · exact first.reached k early fresh
    · exact second.reached k known early
  emitted o known fresh := by
    by_cases early : o ∈ b.found
    · exact first.emitted o early fresh
    · exact second.emitted o known early

/-- What is explored from a reachable place is explored. -/
theorem Extends.below (way : ReflTransGen graph.follows s t) (part : Extends graph t a b) :
    Extends graph s a b where
  visited := part.visited
  kept := part.kept
  settled := part.settled
  reached k known fresh := way.trans (part.reached k known fresh)
  emitted o known fresh := by
    have ⟨k,behind,emits⟩ := part.emitted o known fresh
    exact ⟨k,way.trans behind,emits⟩

/-- A place is marked before what follows is explored. -/
theorem Extends.mark (way : ReflTransGen graph.follows s k)
    (part : Extends graph s ⟨k :: a.visited,a.found⟩ b) (settled : Settled graph b k) :
    Extends graph s a b where
  visited := fun _ known => part.visited (List.mem_cons_of_mem _ known)
  kept := part.kept
  settled t known fresh := by
    by_cases same : t = k
    · exact same ▸ settled
    · exact part.settled t known (List.not_mem_cons_of_ne_of_not_mem same fresh)
  reached t known fresh := by
    by_cases same : t = k
    · exact same ▸ way
    · exact part.reached t known (List.not_mem_cons_of_ne_of_not_mem same fresh)
  emitted := part.emitted

theorem Extends.emit {more : List ω} (way : ReflTransGen graph.follows s k)
    (emits : ∀ o ∈ more, graph.emits k o) : Extends graph s a ⟨a.visited,a.found ++ more⟩ where
  visited := List.Subset.refl _
  kept := List.prefix_append _ _
  settled _ known fresh := absurd known fresh
  reached _ known fresh := absurd known fresh
  emitted o known fresh := by
    rcases List.mem_append.mp known with known | new
    · exact absurd known fresh
    · exact ⟨k,way,emits o new⟩

end Rules

section Closure

/-- Every visited place is settled. -/
def Closed (graph : Graph κ ω) (memory : Memory κ ω) : Prop :=
  ∀ k ∈ memory.visited, Settled graph memory k

theorem Extends.closed (closed : Closed graph a) (part : Extends graph s a b) :
    Closed graph b := by
  intro k known
  by_cases early : k ∈ a.visited
  · exact (closed k early).mono part.visited part.found
  · exact part.settled k known early

theorem Closed.reaches (closed : Closed graph a) (start : s ∈ a.visited)
    (way : ReflTransGen graph.follows s k) : k ∈ a.visited := by
  induction way with
  | refl => exact start
  | tail _ edge ih => exact (closed _ ih).follows _ edge

end Closure

section Measure

variable [DecidableEq κ]

/-- The places of a finite graph that are still to be visited. -/
def missing (places : List κ) (visited : List κ) : ℕ :=
  (places.filter (· ∉ visited)).length

theorem missing_mono (places : List κ) {old new : List κ} (grows : old ⊆ new) :
    missing places new ≤ missing places old := by
  refine List.Sublist.length_le (List.monotone_filter_right _ fun k fresh => ?_)
  simp only [decide_eq_true_eq] at fresh ⊢
  exact fun known => fresh (grows known)

theorem missing_mark {places visited : List κ} (known : k ∈ places) (fresh : k ∉ visited) :
    missing places (k :: visited) < missing places visited := by
  have split : places.filter (· ∉ k :: visited) =
      (places.filter (· ∉ visited)).filter (· ≠ k) := by
    rw [List.filter_filter]
    congr 1
    funext t
    simp
  rw [missing, missing, split]
  refine lt_of_le_of_ne (List.length_filter_le _ _) fun same => ?_
  have all := List.filter_eq_self.mp (List.filter_sublist.eq_of_length same)
  simpa using all k (List.mem_filter.mpr ⟨known,by simpa using fresh⟩)

/-- The lists of distinct elements. -/
def orderings (elements : List κ) : List (List κ) :=
  elements.sublists.flatMap List.permutations

omit [DecidableEq κ] in
theorem mem_orderings {elements l : List κ} (distinct : l.Nodup) (within : l ⊆ elements) :
    l ∈ orderings elements := by
  have ⟨part,same,sub⟩ := distinct.subperm within
  exact List.mem_flatMap.mpr ⟨part,List.mem_sublists.mpr sub,List.mem_permutations.mpr same.symm⟩

end Measure

theorem nodup_eraseDups {α : Type} [BEq α] [LawfulBEq α] (l : List α) : l.eraseDups.Nodup := by
  induction n : l.length using Nat.strong_induction_on generalizing l with
  | _ n ih =>
    cases l with
    | nil => simp
    | cons x rest =>
      rw [List.eraseDups_cons, List.nodup_cons]
      constructor
      · simp [List.mem_eraseDups]
      · refine ih _ ?_ _ rfl
        rw [← n, List.length_cons]
        exact Nat.lt_succ_of_le (List.length_filter_le _ _)

end GraphExploration
