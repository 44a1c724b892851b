import Mathlib.Data.List.Dedup
import Mathlib.Data.List.Nodup

/-!
# Records in insertion order

A record keeps its entries in the order in which their keys first came. An
assignment to a known key replaces the value in place. Nothing here depends on
what the keys and values are.
-/

set_option autoImplicit false

namespace OrderedRecord

variable {κ ν : Type} [DecidableEq κ]

abbrev Entries (κ ν : Type) := List (κ × ν)

def get (entries : Entries κ ν) (key : κ) : Option ν :=
  (entries.find? (fun entry => entry.1 = key)).map Prod.snd

def assign : Entries κ ν → κ → ν → Entries κ ν
  | [], key, value => [(key,value)]
  | entry :: rest, key, value =>
    if entry.1 = key then (key,value) :: rest else entry :: assign rest key value

def assignAll (entries updates : Entries κ ν) : Entries κ ν :=
  updates.foldl (fun record update => assign record update.1 update.2) entries

section Lookup

variable {entries updates : Entries κ ν} {key other : κ} {value : ν}

@[simp] theorem get_nil : get ([] : Entries κ ν) key = none := rfl

@[simp] theorem get_cons {entry : κ × ν} :
    get (entry :: entries) key = if entry.1 = key then some entry.2 else get entries key := by
  unfold get
  by_cases same : entry.1 = key
  · simp [same]
  · simp [same]

theorem get_assign : get (assign entries key value) other =
    if key = other then some value else get entries other := by
  induction entries with
  | nil => simp [assign]
  | cons entry rest ih =>
    rw [assign]
    by_cases same : entry.1 = key
    · rw [if_pos same, get_cons, get_cons, same]
      by_cases here : key = other
      · simp [here]
      · simp [here]
    · rw [if_neg same, get_cons, get_cons, ih]
      by_cases here : entry.1 = other
      · have apart : key ≠ other := fun e => same (here.trans e.symm)
        simp [here, apart]
      · simp [here]

theorem get_append : get (entries ++ updates) key = (get entries key).or (get updates key) := by
  induction entries with
  | nil => simp
  | cons entry rest ih =>
    rw [List.cons_append, get_cons, get_cons, ih]
    by_cases same : entry.1 = key
    · simp [same]
    · simp [same]

/-- Of several updates of a key the last one holds. -/
theorem get_assignAll :
    get (assignAll entries updates) key = (get updates.reverse key).or (get entries key) := by
  induction updates generalizing entries with
  | nil => simp [assignAll]
  | cons update rest ih =>
    have step : assignAll entries (update :: rest) =
        assignAll (assign entries update.1 update.2) rest := rfl
    rw [step, ih, get_assign, List.reverse_cons, get_append, get_cons, get_nil, Option.or_assoc]
    by_cases same : update.1 = key
    · simp [same]
    · simp [same]

theorem get_isSome : (get entries key).isSome ↔ key ∈ entries.map Prod.fst := by
  simp [get]

end Lookup

section Keys

variable {entries updates : Entries κ ν} {key : κ} {value : ν}

theorem mem_keys_assign {other : κ} :
    other ∈ (assign entries key value).map Prod.fst ↔ other = key ∨ other ∈ entries.map Prod.fst := by
  rw [← get_isSome, ← get_isSome, get_assign]
  by_cases same : key = other
  · simp [same]
  · simp [same, Ne.symm same]

theorem nodup_assign (distinct : (entries.map Prod.fst).Nodup) :
    ((assign entries key value).map Prod.fst).Nodup := by
  induction entries with
  | nil => simp [assign]
  | cons entry rest ih =>
    rw [List.map_cons, List.nodup_cons] at distinct
    rw [assign]
    by_cases same : entry.1 = key
    · rw [if_pos same, List.map_cons, List.nodup_cons]
      exact same ▸ distinct
    · rw [if_neg same, List.map_cons, List.nodup_cons, mem_keys_assign]
      exact ⟨not_or.mpr ⟨same,distinct.1⟩,ih distinct.2⟩

theorem nodup_assignAll (distinct : (entries.map Prod.fst).Nodup) :
    ((assignAll entries updates).map Prod.fst).Nodup := by
  induction updates generalizing entries with
  | nil => exact distinct
  | cons update rest ih => exact ih (nodup_assign distinct)

theorem assign_fresh (fresh : key ∉ entries.map Prod.fst) :
    assign entries key value = entries ++ [(key,value)] := by
  induction entries with
  | nil => rfl
  | cons entry rest ih =>
    rw [List.map_cons, List.mem_cons, not_or] at fresh
    rw [assign, if_neg (Ne.symm fresh.1), ih fresh.2]
    rfl

/-- Updates of new keys stand behind the entries, in order. -/
theorem assignAll_fresh (distinct : ((entries ++ updates).map Prod.fst).Nodup) :
    assignAll entries updates = entries ++ updates := by
  induction updates generalizing entries with
  | nil => rw [List.append_nil]; rfl
  | cons update rest ih =>
    have step : assignAll entries (update :: rest) =
        assignAll (assign entries update.1 update.2) rest := rfl
    have fresh : update.1 ∉ entries.map Prod.fst := by
      rw [List.map_append, List.map_cons] at distinct
      exact fun known => (List.nodup_append.mp distinct).2.2 _ known _ List.mem_cons_self rfl
    rw [step, assign_fresh fresh, ih]
    · simp
    · simpa using distinct

theorem mem_iff_get (distinct : (entries.map Prod.fst).Nodup) :
    (key,value) ∈ entries ↔ get entries key = some value := by
  induction entries with
  | nil => simp
  | cons entry rest ih =>
    rw [List.map_cons, List.nodup_cons] at distinct
    rw [List.mem_cons, get_cons, ih distinct.2]
    by_cases same : entry.1 = key
    · have absent : get rest key = none := by
        rw [← Option.not_isSome_iff_eq_none, get_isSome, ← same]
        exact distinct.1
      simp [same, absent, Prod.ext_iff, eq_comm]
    · simp [same, Prod.ext_iff, Ne.symm same]

/-- Records with the same value at every key have the same entries. -/
theorem perm_of_get {a b : Entries κ ν} (da : (a.map Prod.fst).Nodup)
    (db : (b.map Prod.fst).Nodup) (same : ∀ key, get a key = get b key) : a.Perm b := by
  apply (List.perm_ext_iff_of_nodup (List.Nodup.of_map _ da) (List.Nodup.of_map _ db)).mpr
  rintro ⟨key,value⟩
  rw [mem_iff_get da, mem_iff_get db, same]

end Keys

section Filter

variable {keep : κ → Bool} {entries updates : Entries κ ν} {key : κ} {value : ν}

def kept (keep : κ → Bool) (entries : Entries κ ν) : Entries κ ν :=
  entries.filter (fun entry => keep entry.1)

theorem kept_assign_out (drop : keep key = false) :
    kept keep (assign entries key value) = kept keep entries := by
  induction entries with
  | nil => simp [kept, assign, drop]
  | cons entry rest ih =>
    rw [assign]
    by_cases same : entry.1 = key
    · simp [kept, same, drop]
    · rw [if_neg same]
      unfold kept at ih ⊢
      rw [List.filter_cons, List.filter_cons, ih]

theorem kept_assign_in (stay : keep key = true) :
    kept keep (assign entries key value) = assign (kept keep entries) key value := by
  induction entries with
  | nil => simp [kept, assign, stay]
  | cons entry rest ih =>
    rw [assign]
    unfold kept at ih ⊢
    by_cases same : entry.1 = key
    · have here : keep entry.1 = true := same.symm ▸ stay
      simp [same, stay, assign]
    · rw [if_neg same, List.filter_cons, List.filter_cons, ih]
      by_cases here : keep entry.1 = true
      · rw [if_pos here, if_pos here, assign, if_neg same]
      · rw [if_neg here, if_neg here]

/-- What is kept of a record depends on the updates that are kept. -/
theorem kept_assignAll :
    kept keep (assignAll entries updates) = assignAll (kept keep entries) (kept keep updates) := by
  induction updates generalizing entries with
  | nil => rfl
  | cons update rest ih =>
    have step : assignAll entries (update :: rest) =
        assignAll (assign entries update.1 update.2) rest := rfl
    rw [step, ih]
    by_cases stay : keep update.1 = true
    · have front : kept keep (update :: rest) = update :: kept keep rest :=
        List.filter_cons_of_pos stay
      rw [kept_assign_in stay, front]
      rfl
    · have front : kept keep (update :: rest) = kept keep rest := List.filter_cons_of_neg stay
      rw [kept_assign_out (by simpa using stay), front]

end Filter

end OrderedRecord
