import EvidenceV4.PrefixLog

/-!
# Successes, confirmations and barriers in a numbered log

Some entries of a log are successes, some confirm an earlier success, and some
are barriers that cut off every success before them. A success is eligible when
it stands after every barrier and a later entry confirms it. The last eligible
success supersedes the others.
-/

set_option autoImplicit false

namespace Supersession

open PrefixLog

variable {α ι : Type*}

structure Rules (α : Type*) where
  seq : α → ℕ
  success : α → Bool
  barrier : α → Bool
  confirms : α → α → Bool

/-- The success stands after every barrier and is confirmed later. -/
structure Eligible (R : Rules α) (log : List α) (e : α) : Prop where
  mem : e ∈ log
  success : R.success e
  clear : ∀ b ∈ log, R.barrier b → R.seq b < R.seq e
  confirmed : ∃ o ∈ log, R.confirms e o ∧ R.seq e < R.seq o

/-- The last entry that confirms the success. -/
def confirmation (R : Rules α) (log : List α) (e : α) : Option α :=
  latest (fun o => R.confirms e o && decide (R.seq e < R.seq o)) log

/-- What one success offers to the selection. -/
def offer (R : Rules α) (log : List α) (e : α) : Option α :=
  if R.seq e ≤ cutoff R.seq R.barrier log then none else confirmation R log e

/-- The loop over items that stand for successes; a later offer replaces an earlier one. -/
def selectItem (R : Rules α) (log : List α) (entry : ι → α) (items : List ι) : Option (ι × α) :=
  items.foldl (fun acc item => ((offer R log (entry item)).map (fun o => (item,o))).or acc) none

/-- The last eligible success with its last confirmation. -/
def select (R : Rules α) (log : List α) : Option (α × α) :=
  (latest (fun e => R.success e && (offer R log e).isSome) log).bind
    (fun e => (offer R log e).map (fun o => (e,o)))

variable {R : Rules α} {log : List α} {e o : α}

theorem confirmation_some (h : confirmation R log e = some o) :
    o ∈ log ∧ R.confirms e o ∧ R.seq e < R.seq o := by
  obtain ⟨hm,hp⟩ := latest_mem h
  simp only [Bool.and_eq_true, decide_eq_true_eq] at hp
  exact ⟨hm,hp⟩

theorem confirmation_isSome :
    (confirmation R log e).isSome ↔ ∃ o ∈ log, R.confirms e o ∧ R.seq e < R.seq o := by
  simp [confirmation, latest_isSome]

/-- The last confirmation has the greatest number. -/
theorem confirmation_greatest (hn : Numbered R.seq log) (h : confirmation R log e = some o)
    {o' : α} (hm : o' ∈ log) (hc : R.confirms e o') (hs : R.seq e < R.seq o') :
    R.seq o' ≤ R.seq o :=
  latest_greatest (numbered_pairwise hn) h hm (by simp [hc, hs])

theorem offer_isSome (hn : Numbered R.seq log) (hm : e ∈ log) (hs : R.success e) :
    (offer R log e).isSome ↔ Eligible R log e := by
  have clear := cutoff_lt_iff (p := R.barrier) (numbered_pairwise hn) (numbered_pos hn hm)
  unfold offer
  split
  · next le =>
    refine iff_of_false (by simp) (fun eligible => ?_)
    have := clear.mpr eligible.clear
    omega
  · next gt =>
    rw [confirmation_isSome]
    exact ⟨fun confirmed => ⟨hm,hs,clear.mp (by omega),confirmed⟩,fun eligible => eligible.confirmed⟩

theorem offer_eq (hn : Numbered R.seq log) (h : Eligible R log e) :
    offer R log e = confirmation R log e := by
  have clear := (cutoff_lt_iff (p := R.barrier) (numbered_pairwise hn)
    (numbered_pos hn h.mem)).mpr h.clear
  rw [offer, if_neg (by omega)]

theorem select_isSome (hn : Numbered R.seq log) :
    (select R log).isSome ↔ ∃ e, Eligible R log e := by
  constructor
  · intro h
    obtain ⟨p,hp⟩ := Option.isSome_iff_exists.mp h
    obtain ⟨e,he,_⟩ := Option.bind_eq_some_iff.mp hp
    obtain ⟨hm,hs⟩ := latest_mem he
    simp only [Bool.and_eq_true] at hs
    exact ⟨e,(offer_isSome hn hm hs.1).mp hs.2⟩
  · rintro ⟨e,he⟩
    have hm : (latest (fun e => R.success e && (offer R log e).isSome) log).isSome := by
      refine latest_isSome.mpr ⟨e,he.mem,?_⟩
      rw [he.success, (offer_isSome hn he.mem he.success).mpr he]
      rfl
    obtain ⟨e',he'⟩ := Option.isSome_iff_exists.mp hm
    have hs := (latest_mem he').2
    simp only [Bool.and_eq_true] at hs
    simp [select, he', hs.2]

/-- The selected success is the greatest eligible one, with its last confirmation. -/
theorem select_some (hn : Numbered R.seq log) (h : select R log = some (e,o)) :
    Eligible R log e ∧ (∀ e', Eligible R log e' → R.seq e' ≤ R.seq e) ∧
      confirmation R log e = some o := by
  obtain ⟨e',he,hp⟩ := Option.bind_eq_some_iff.mp h
  obtain ⟨o',ho,hp⟩ := Option.map_eq_some_iff.mp hp
  obtain ⟨rfl,rfl⟩ := Prod.mk.inj hp
  obtain ⟨hm,hs⟩ := latest_mem he
  simp only [Bool.and_eq_true] at hs
  have eligible := (offer_isSome hn hm hs.1).mp hs.2
  refine ⟨eligible,?_,(offer_eq hn eligible).symm.trans ho⟩
  intro e'' he''
  refine latest_greatest (numbered_pairwise hn) he he''.mem ?_
  rw [he''.success, (offer_isSome hn he''.mem he''.success).mpr he'']
  rfl

theorem getLast?_filterMap_of_isSome {β γ : Type*} {f : β → Option γ} {xs : List β}
    (h : ∀ x ∈ xs, (f x).isSome) : (xs.filterMap f).getLast? = xs.getLast?.bind f := by
  rcases List.eq_nil_or_concat xs with rfl | ⟨init,x,rfl⟩
  · rfl
  · obtain ⟨y,hy⟩ := Option.isSome_iff_exists.mp (h x (by simp))
    simp [List.filterMap_append, List.filterMap_cons_some hy, hy]

/-- The loop over items selects the item of the selected success. -/
theorem selectItem_entry {entry : ι → α} {items : List ι}
    (h : items.map entry = log.filter R.success) :
    (selectItem R log entry items).map (fun p => (entry p.1,p.2)) = select R log := by
  have f_some : ∀ e : α, ((offer R log e).map (fun o => (e,o))).isSome = (offer R log e).isSome :=
    fun e => by simp
  have loop : (selectItem R log entry items).map (fun p => (entry p.1,p.2)) =
      ((log.filter R.success).filterMap (fun e => (offer R log e).map (fun o => (e,o)))).getLast? := by
    rw [selectItem, foldl_last, Option.or_none, ← List.getLast?_map, List.map_filterMap, ← h,
      List.filterMap_map]
    simp only [Option.map_map, Function.comp_def]
  have offers : (log.filter R.success).filterMap (fun e => (offer R log e).map (fun o => (e,o))) =
      (log.filter (fun e => R.success e && (offer R log e).isSome)).filterMap
        (fun e => (offer R log e).map (fun o => (e,o))) := by
    have split : log.filter (fun e => R.success e && (offer R log e).isSome) =
        (log.filter R.success).filter (fun e => (offer R log e).isSome) := by
      rw [List.filter_filter]
      simp only [Bool.and_comm]
    rw [split]
    generalize log.filter R.success = successes
    rw [List.filterMap_filter]
    refine List.filterMap_congr ?_
    intro e _
    cases offer R log e <;> simp
  rw [loop, offers, getLast?_filterMap_of_isSome, select, latest]
  intro e he
  rw [f_some]
  simp only [List.mem_filter, Bool.and_eq_true] at he
  exact he.2.2

theorem selectItem_mem {entry : ι → α} {items : List ι} {item : ι}
    (h : selectItem R log entry items = some (item,o)) : item ∈ items := by
  rw [selectItem, foldl_last, Option.or_none] at h
  obtain ⟨item',hm,h⟩ := List.mem_filterMap.mp (List.mem_of_getLast? h)
  obtain ⟨_,_,h⟩ := Option.map_eq_some_iff.mp h
  exact (Prod.mk.inj h).1 ▸ hm

end Supersession
