import Mathlib.Data.List.Basic
import Mathlib.Data.List.Nodup
import Mathlib.Data.List.Infix

/-!
# Blocks of a sequence in the order of a key list

Two loops that nest keys and entries in opposite orders list the same entries:
one in arrival order, the other in blocks, one block for each key. The blocks
keep arrival order inside a key, so the two lists agree exactly when arrival
order never steps back in the key list.
-/

set_option autoImplicit false

namespace StableGrouping

variable {α β κ : Type*} [DecidableEq κ]

/-- The entries of `xs` in blocks, one for each key in turn. -/
def grouped (key : α → κ) (keys : List κ) (xs : List α) : List α :=
  keys.flatMap (fun k => xs.filter (fun x => key x = k))

/-- Arrival order never steps back in the key list. -/
def InKeyOrder (key : α → κ) (keys : List κ) (xs : List α) : Prop :=
  xs.Pairwise (fun a b => keys.idxOf (key a) ≤ keys.idxOf (key b))

variable {key : α → κ} {keys : List κ} {xs : List α}

theorem mem_grouped {x : α} : x ∈ grouped key keys xs ↔ x ∈ xs ∧ key x ∈ keys := by
  simp [grouped, and_comm]

theorem grouped_map (f : α → β) (key' : β → κ) (h : ∀ x, key' (f x) = key x) :
    grouped key' keys (xs.map f) = (grouped key keys xs).map f := by
  simp only [grouped, List.map_flatMap, List.filter_map, Function.comp_def, h]

/-- Blocks stand in the order of their keys. -/
theorem grouped_inKeyOrder (key : α → κ) (xs : List α) (hk : keys.Nodup) :
    InKeyOrder key keys (grouped key keys xs) := by
  refine List.pairwise_flatMap.mpr ⟨?_,?_⟩
  · intro k _
    refine List.pairwise_of_forall_mem_list ?_
    intro a ha b hb
    simp only [List.mem_filter, decide_eq_true_eq] at ha hb
    rw [ha.2, hb.2]
  · rw [List.pairwise_iff_getElem]
    intro i j hi hj hij a ha b hb
    simp only [List.mem_filter, decide_eq_true_eq] at ha hb
    rw [ha.2, hb.2, hk.idxOf_getElem i hi, hk.idxOf_getElem j hj]
    omega

/-- In key order the entries of the first key come first. -/
theorem InKeyOrder.split_head {k : κ} (h : InKeyOrder key (k :: keys) xs) :
    xs = xs.filter (fun x => key x = k) ++ xs.filter (fun x => key x ≠ k) := by
  induction xs with
  | nil => rfl
  | cons x xs ih =>
    obtain ⟨hx,hxs⟩ := List.pairwise_cons.mp h
    by_cases e : key x = k
    · simp only [List.filter_cons, e, decide_true, ite_true, ne_eq, not_true, decide_false,
        Bool.false_eq_true, ite_false, List.cons_append]
      simpa using ih hxs
    · have later : ∀ y ∈ xs, key y ≠ k := by
        intro y hy hk
        have hle := hx y hy
        rw [hk, List.idxOf_cons_self, List.idxOf_cons_ne _ (Ne.symm e)] at hle
        omega
      have none : xs.filter (fun y => key y = k) = [] := by
        simpa [List.filter_eq_nil_iff] using later
      have all : xs.filter (fun y => key y ≠ k) = xs := by
        simpa [List.filter_eq_self] using later
      simp only [List.filter_cons, e, decide_false, Bool.false_eq_true, ite_false, none, ne_eq,
        not_false_eq_true, decide_true, ite_true, List.nil_append]
      simpa using all.symm

theorem InKeyOrder.tail_filter {k : κ} (h : InKeyOrder key (k :: keys) xs) :
    InKeyOrder key keys (xs.filter (fun x => key x ≠ k)) := by
  refine (List.Pairwise.filter _ h).imp_of_mem ?_
  intro a b ha hb hab
  simp only [List.mem_filter, ne_eq, decide_not, Bool.not_eq_true', decide_eq_false_iff_not] at ha hb
  rw [List.idxOf_cons_ne _ (Ne.symm ha.2), List.idxOf_cons_ne _ (Ne.symm hb.2)] at hab
  omega

/-- The blocks give back arrival order when it never steps back. -/
theorem grouped_of_inKeyOrder (hk : keys.Nodup) (cover : ∀ x ∈ xs, key x ∈ keys)
    (h : InKeyOrder key keys xs) : grouped key keys xs = xs := by
  induction keys generalizing xs with
  | nil =>
    have e : xs = [] := List.eq_nil_iff_forall_not_mem.mpr (fun x hx => by simpa using cover x hx)
    subst e
    rfl
  | cons k keys ih =>
    obtain ⟨fresh,hk'⟩ := List.nodup_cons.mp hk
    have rest : grouped key keys (xs.filter (fun x => key x ≠ k))
        = xs.filter (fun x => key x ≠ k) := by
      refine ih hk' ?_ h.tail_filter
      intro x hx
      simp only [List.mem_filter, ne_eq, decide_not, Bool.not_eq_true',
        decide_eq_false_iff_not] at hx
      exact (List.mem_cons.mp (cover x hx.1)).resolve_left hx.2
    have same : grouped key keys (xs.filter (fun x => key x ≠ k)) = grouped key keys xs := by
      refine List.flatMap_congr ?_
      intro k' hk''
      rw [List.filter_filter]
      refine List.filter_congr ?_
      intro x _
      have hne : k' ≠ k := fun e => fresh (e ▸ hk'')
      by_cases e : key x = k' <;> simp [e, hne]
    calc grouped key (k :: keys) xs
        = xs.filter (fun x => key x = k) ++ grouped key keys xs := rfl
      _ = xs.filter (fun x => key x = k) ++ xs.filter (fun x => key x ≠ k) := by rw [← same, rest]
      _ = xs := h.split_head.symm

/-- Blocks and arrival order agree exactly when arrival order never steps back. -/
theorem grouped_eq_self_iff (hk : keys.Nodup) (cover : ∀ x ∈ xs, key x ∈ keys) :
    grouped key keys xs = xs ↔ InKeyOrder key keys xs :=
  ⟨fun e => e ▸ grouped_inKeyOrder key xs hk,grouped_of_inKeyOrder hk cover⟩

end StableGrouping
