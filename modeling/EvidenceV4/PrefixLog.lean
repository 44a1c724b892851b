import Mathlib.Data.List.Basic
import Mathlib.Data.List.Infix
import Mathlib.Order.Basic

/-!
# Append-only logs judged entry by entry

An entry of a log is judged against the entries before it. A log is accepted
when every entry passes, so acceptance survives truncation and is decided at an
append by the new entry alone. A numbered log carries in each entry its own
one-based position, and every scan for a last match is then a maximum.
-/

set_option autoImplicit false

namespace PrefixLog

variable {α : Type*}

/-- Every entry satisfies `P` against the entries that precede it. -/
def Prefixwise (P : List α → α → Prop) (log : List α) : Prop :=
  ∀ before x after, log = before ++ x :: after → P before x

theorem prefixwise_nil (P : List α → α → Prop) : Prefixwise P [] := by
  intro before x after h
  simp at h

theorem prefixwise_cons (P : List α → α → Prop) (x : α) (log : List α) :
    Prefixwise P (x :: log) ↔ P [] x ∧ Prefixwise (fun before y => P (x :: before) y) log := by
  constructor
  · intro h
    exact ⟨h [] x log rfl,fun before y after e => h (x :: before) y after (by simp [e])⟩
  · rintro ⟨hx,h⟩ before y after e
    cases before with
    | nil =>
      obtain ⟨rfl,rfl⟩ := List.cons.inj e
      exact hx
    | cons b before =>
      obtain ⟨rfl,e'⟩ := List.cons.inj e
      exact h before y after e'

theorem prefixwise_append_left {P : List α → α → Prop} {log rest : List α}
    (h : Prefixwise P (log ++ rest)) : Prefixwise P log := by
  intro before x after e
  exact h before x (after ++ rest) (by simp [e])

/-- An append is judged by its new entry alone. -/
theorem prefixwise_concat (P : List α → α → Prop) (log : List α) (x : α) :
    Prefixwise P (log ++ [x]) ↔ Prefixwise P log ∧ P log x := by
  constructor
  · intro h
    exact ⟨prefixwise_append_left h,h log x [] (by simp)⟩
  · rintro ⟨h,hx⟩ before y after e
    rcases List.eq_nil_or_concat after with rfl | ⟨init,z,rfl⟩
    · obtain ⟨hb,hy⟩ := List.append_inj' e rfl
      simp only [List.cons.injEq, and_true] at hy
      exact hb ▸ hy ▸ hx
    · have e' : log ++ [x] = (before ++ y :: init) ++ [z] := by simpa using e
      exact h before y init (List.append_inj' e' rfl).1

theorem prefixwise_mono {P Q : List α → α → Prop} (hPQ : ∀ before x, P before x → Q before x)
    {log : List α} (h : Prefixwise P log) : Prefixwise Q log :=
  fun before x after e => hPQ before x (h before x after e)

theorem prefixwise_and (P Q : List α → α → Prop) (log : List α) :
    Prefixwise (fun before x => P before x ∧ Q before x) log ↔
      Prefixwise P log ∧ Prefixwise Q log :=
  ⟨fun h => ⟨fun b x a e => (h b x a e).1,fun b x a e => (h b x a e).2⟩,
    fun h b x a e => ⟨h.1 b x a e,h.2 b x a e⟩⟩

/-- Each member has its own list of predecessors. -/
theorem prefixwise_mem {P : List α → α → Prop} {log : List α} (h : Prefixwise P log)
    {x : α} (hx : x ∈ log) : ∃ before after, log = before ++ x :: after ∧ P before x := by
  obtain ⟨before,after,e⟩ := List.append_of_mem hx
  exact ⟨before,after,e,h before x after e⟩

section Numbered

variable (seq : α → ℕ)

/-- The entry at position `i` is numbered `i+1`. -/
def Numbered (log : List α) : Prop :=
  Prefixwise (fun before x => seq x = before.length+1) log

variable {seq} {log : List α}

theorem numbered_concat (log : List α) (x : α) :
    Numbered seq (log ++ [x]) ↔ Numbered seq log ∧ seq x = log.length+1 :=
  prefixwise_concat _ log x

theorem numbered_getElem (h : Numbered seq log) (i : ℕ) (hi : i < log.length) :
    seq log[i] = i+1 := by
  have e : log = log.take i ++ log[i] :: log.drop (i+1) := by simp
  have hs := h (log.take i) log[i] (log.drop (i+1)) e
  simpa [List.length_take, Nat.min_eq_left (Nat.le_of_lt hi)] using hs

theorem numbered_pos (h : Numbered seq log) {x : α} (hx : x ∈ log) : 0 < seq x := by
  obtain ⟨before,_,_,hs⟩ := prefixwise_mem h hx
  omega

theorem numbered_le_length (h : Numbered seq log) {x : α} (hx : x ∈ log) :
    seq x ≤ log.length := by
  obtain ⟨before,after,e,hs⟩ := prefixwise_mem h hx
  have hl := congrArg List.length e
  simp only [List.length_append, List.length_cons] at hl
  omega

theorem numbered_pairwise (h : Numbered seq log) : log.Pairwise (fun a b => seq a < seq b) := by
  rw [List.pairwise_iff_getElem]
  intro i j hi hj hij
  rw [numbered_getElem h i hi, numbered_getElem h j hj]
  omega

theorem numbered_injective (h : Numbered seq log) {x y : α} (hx : x ∈ log) (hy : y ∈ log)
    (e : seq x = seq y) : x = y := by
  obtain ⟨i,hi,rfl⟩ := List.getElem_of_mem hx
  obtain ⟨j,hj,rfl⟩ := List.getElem_of_mem hy
  have hij : i = j := by
    have := numbered_getElem h i hi
    have := numbered_getElem h j hj
    omega
  subst hij
  rfl

/-- The number of a member is the index that finds it. -/
theorem numbered_getElem? (h : Numbered seq log) {x : α} (hx : x ∈ log) :
    log[seq x-1]? = some x := by
  obtain ⟨i,hi,rfl⟩ := List.getElem_of_mem hx
  rw [numbered_getElem h i hi]
  simp

/-- A scan whose matches are all one entry finds that entry once. -/
theorem numbered_filter_singleton (h : Numbered seq log) {p : α → Bool} {x : α} (hx : x ∈ log)
    (hp : p x = true) (only : ∀ y ∈ log, p y = true → y = x) : log.filter p = [x] := by
  have sorted := (numbered_pairwise h).sublist (List.filter_sublist (p := p))
  have all : ∀ y ∈ log.filter p, y = x := by
    intro y hy
    obtain ⟨hm,hpy⟩ := List.mem_filter.mp hy
    exact only y hm hpy
  have mem : x ∈ log.filter p := List.mem_filter.mpr ⟨hx,hp⟩
  generalize log.filter p = found at sorted all mem ⊢
  cases found with
  | nil => simp at mem
  | cons a rest =>
    obtain rfl := all a List.mem_cons_self
    cases rest with
    | nil => rfl
    | cons b rest =>
      have lt := (List.pairwise_cons.mp sorted).1 b List.mem_cons_self
      rw [all b (by simp)] at lt
      exact absurd lt (lt_irrefl _)

theorem numbered_of_before (h : Numbered seq log) {before after : List α} {x y : α}
    (e : log = before ++ x :: after) (hy : y ∈ log) : y ∈ before ↔ seq y < seq x := by
  have hx : seq x = before.length+1 := h before x after e
  have hb : Numbered seq before := by
    rw [e] at h
    exact prefixwise_append_left h
  constructor
  · intro hm
    have := numbered_le_length hb hm
    omega
  · intro hlt
    obtain ⟨i,hi,rfl⟩ := List.getElem_of_mem hy
    have hs := numbered_getElem h i hi
    have hib : i < before.length := by omega
    subst e
    rw [List.getElem_append_left hib]
    exact List.getElem_mem hib

end Numbered

section Latest

variable (seq : α → ℕ) (p : α → Bool)

/-- The last entry of the log that satisfies `p`. -/
def latest (log : List α) : Option α := (log.filter p).getLast?

/-- The number of the last entry that satisfies `p`, and zero when none does. -/
def cutoff (log : List α) : ℕ := ((latest p log).map seq).getD 0

variable {seq} {p} {log : List α}

theorem latest_eq_none : latest p log = none ↔ ∀ x ∈ log, p x = false := by
  simp [latest]

theorem latest_mem {x : α} (h : latest p log = some x) : x ∈ log ∧ p x = true :=
  List.mem_filter.mp (List.mem_of_getLast? h)

/-- In a log of increasing numbers the last match has the greatest number. -/
theorem latest_greatest (hs : log.Pairwise (fun a b => seq a < seq b)) {x : α}
    (h : latest p log = some x) {y : α} (hy : y ∈ log) (hp : p y = true) : seq y ≤ seq x := by
  obtain ⟨init,hi⟩ := List.getLast?_eq_some_iff.mp h
  have hsorted := hs.sublist (List.filter_sublist (p := p))
  rw [hi, List.pairwise_append] at hsorted
  have hm : y ∈ init ++ [x] := hi ▸ List.mem_filter.mpr ⟨hy,hp⟩
  rcases List.mem_append.mp hm with hm | hm
  · exact Nat.le_of_lt (hsorted.2.2 y hm x (by simp))
  · simp_all

theorem latest_isSome : (latest p log).isSome ↔ ∃ x ∈ log, p x = true := by
  rw [← not_iff_not]
  simp [latest_eq_none]

theorem latest_of_greatest (h : Numbered seq log) {x : α} (hx : x ∈ log) (hp : p x = true)
    (hg : ∀ y ∈ log, p y = true → seq y ≤ seq x) : latest p log = some x := by
  obtain ⟨y,hy⟩ := Option.isSome_iff_exists.mp (latest_isSome.mpr ⟨x,hx,hp⟩)
  obtain ⟨hm,hpy⟩ := latest_mem hy
  have hle := latest_greatest (numbered_pairwise h) hy hx hp
  have hge := hg y hm hpy
  rw [hy, numbered_injective h hm hx (by omega)]

/-- A positive number passes the cutoff exactly when it exceeds every match. -/
theorem cutoff_lt_iff (hs : log.Pairwise (fun a b => seq a < seq b)) {n : ℕ} (hn : 0 < n) :
    cutoff seq p log < n ↔ ∀ x ∈ log, p x = true → seq x < n := by
  unfold cutoff
  cases h : latest p log with
  | none =>
    have hf := latest_eq_none.mp h
    simp only [Option.map_none, Option.getD_none, hn, true_iff]
    intro x hx hp
    simp [hf x hx] at hp
  | some x =>
    obtain ⟨hm,hp⟩ := latest_mem h
    simp only [Option.map_some, Option.getD_some]
    exact ⟨fun hlt y hy hpy => Nat.lt_of_le_of_lt (latest_greatest hs h hy hpy) hlt,
      fun hall => hall x hm hp⟩

theorem cutoff_eq_zero (h : Numbered seq log) :
    cutoff seq p log = 0 ↔ ∀ x ∈ log, p x = false := by
  unfold cutoff
  cases hl : latest p log with
  | none => simpa using latest_eq_none.mp hl
  | some x =>
    obtain ⟨hm,hp⟩ := latest_mem hl
    have := numbered_pos h hm
    simp only [Option.map_some, Option.getD_some]
    constructor
    · omega
    · intro hf
      simp [hf x hm] at hp

/-- Later entries leave a scan unchanged when none of them matches. -/
theorem filter_append_of_none {more : List α} (h : ∀ x ∈ more, p x = false) :
    (log ++ more).filter p = log.filter p := by
  have hn : more.filter p = [] := List.filter_eq_nil_iff.mpr (by simpa using h)
  rw [List.filter_append, hn, List.append_nil]

end Latest

/-- A loop that keeps the last success returns the last element that succeeds. -/
theorem foldl_last {β : Type*} (f : α → Option β) (xs : List α) (init : Option β) :
    xs.foldl (fun acc x => (f x).or acc) init = (xs.filterMap f).getLast?.or init := by
  induction xs generalizing init with
  | nil => simp
  | cons x xs ih =>
    rw [List.foldl_cons, ih]
    cases hx : f x with
    | none => simp [hx]
    | some b =>
      rw [List.filterMap_cons_some hx, List.getLast?_cons]
      cases (xs.filterMap f).getLast? <;> simp

end PrefixLog
