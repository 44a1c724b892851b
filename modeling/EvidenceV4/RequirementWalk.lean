import EvidenceV4.CheckedExcept
import Mathlib.Data.List.Basic
import Mathlib.Data.List.Perm.Subperm
import Mathlib.Logic.Relation

/-!
# Depth-first walks over a requirement graph

A walk enters a name, visits what it requires, and remembers it as visited. It
fails on a name that is already on the path from the root, so on a finite graph
its depth is bounded by the number of declared names.
-/

set_option autoImplicit false

namespace RequirementWalk

open CheckedExcept

universe u v
variable {ν ε : Type u}

/-- How a walk looks up requirements and what it reports. -/
structure Rules (ν ε : Type u) where
  requires : ν → Option (List ν)
  enter : ν → Except ε PUnit.{u+1}
  leave : ν → Except ε PUnit.{u+1}
  cycle : ν → ε
  missing : ν → ε

section Walk

variable [DecidableEq ν]

/-- The path from the root is `active`, and the result is what has been visited so far. -/
def visit (rules : Rules ν ε) : ℕ → List ν → List ν → ν → Except ε (List ν)
  | 0, _, _, name => throw (rules.cycle name)
  | fuel+1, active, visited, name => do
    rules.enter name
    check (name ∉ active) (rules.cycle name)
    if name ∈ visited then pure visited
    else match rules.requires name with
      | none => throw (rules.missing name)
      | some below => do
        let visited ← below.foldlM (visit rules fuel (name :: active)) visited
        rules.leave name
        pure (name :: visited)

/-- The walk never runs out: its path holds distinct declared names. -/
theorem visit_fuel (rules : Rules ν ε) (names : List ν)
    (declared : ∀ name, (rules.requires name).isSome → name ∈ names)
    (fuel : ℕ) (active visited : List ν) (name : ν)
    (distinct : active.Nodup) (path : ∀ a ∈ active, a ∈ names)
    (enough : names.length < fuel+active.length) :
    visit rules (fuel+1) active visited name = visit rules fuel active visited name := by
  induction fuel generalizing active visited name with
  | zero =>
    have short := (List.Nodup.subperm distinct path).length_le
    omega
  | succ fuel ih =>
    rw [visit, visit]
    by_cases fresh : name ∈ active
    · have stop : ∀ next : PUnit → Except ε (List ν),
          (check (name ∉ active) (rules.cycle name) >>= next) = .error (rules.cycle name) := by
        intro next
        simp [check, fresh, bind, Except.bind]
      simp only [stop]
    · cases found : rules.requires name with
      | none => rfl
      | some below =>
        have known : name ∈ names := declared name (found ▸ rfl)
        have same : visit rules (fuel+1) (name :: active) = visit rules fuel (name :: active) := by
          funext visited below
          refine ih (name :: active) visited below (List.nodup_cons.mpr ⟨fresh,distinct⟩) ?_ ?_
          · intro a ha
            rcases List.mem_cons.mp ha with rfl | ha
            · exact known
            · exact path a ha
          · simp only [List.length_cons]
            omega
        rw [same]

/-- With one step for each declared name, more fuel changes nothing. -/
theorem visit_enough (rules : Rules ν ε) (names : List ν)
    (declared : ∀ name, (rules.requires name).isSome → name ∈ names)
    (more : ℕ) (visited : List ν) (name : ν) :
    visit rules (names.length+1+more) [] visited name =
      visit rules (names.length+1) [] visited name := by
  induction more with
  | zero => rfl
  | succ more ih =>
    rw [← ih]
    have enough : names.length < names.length+1+more+([] : List ν).length := by
      simp only [List.length_nil]
      omega
    exact visit_fuel rules names declared _ [] visited name List.nodup_nil (by simp) enough

end Walk

section Acceptance

open Relation (ReflTransGen TransGen)

variable {rules : Rules ν ε}

def Requires (rules : Rules ν ε) (a b : ν) : Prop := ∃ below, rules.requires a = some below ∧ b ∈ below

def Acyclic (rules : Rules ν ε) : Prop := ∀ a, ¬ TransGen (Requires rules) a a

/-- Every visited name passed its checks behind what it requires. -/
inductive Settled (rules : Rules ν ε) : List ν → Prop where
  | nil : Settled rules []
  | cons {name : ν} {below visited : List ν} (known : rules.requires name = some below)
      (behind : ∀ b ∈ below, b ∈ visited) (entered : rules.enter name = .ok ⟨⟩)
      (left : rules.leave name = .ok ⟨⟩) (rest : Settled rules visited) :
      Settled rules (name :: visited)

theorem Settled.passes {visited : List ν} (settled : Settled rules visited) :
    ∀ name ∈ visited, rules.enter name = .ok ⟨⟩ ∧ rules.leave name = .ok ⟨⟩ := by
  induction settled with
  | nil => exact fun _ none => absurd none List.not_mem_nil
  | cons known behind entered left rest ih => exact List.forall_mem_cons.mpr ⟨⟨entered,left⟩,ih⟩

theorem Settled.closed {visited : List ν} (settled : Settled rules visited) {a b : ν}
    (inside : a ∈ visited) (required : Requires rules a b) : b ∈ visited := by
  obtain ⟨below',found,member⟩ := required
  induction settled with
  | nil => exact absurd inside List.not_mem_nil
  | cons known behind entered left rest ih =>
    rcases List.mem_cons.mp inside with rfl | inside
    · rw [known] at found
      obtain rfl := Option.some.inj found
      exact List.mem_cons_of_mem _ (behind b member)
    · exact List.mem_cons_of_mem _ (ih inside)

theorem Settled.reaches {visited : List ν} (settled : Settled rules visited) {a b : ν}
    (inside : a ∈ visited) (path : ReflTransGen (Requires rules) a b) : b ∈ visited := by
  induction path with
  | refl => exact inside
  | tail _ required ih => exact settled.closed ih required

/-- What has been visited lies on no cycle. -/
theorem Settled.acyclic {visited : List ν} (settled : Settled rules visited) :
    ∀ a ∈ visited, ¬ TransGen (Requires rules) a a := by
  induction settled with
  | nil => exact fun _ none => absurd none List.not_mem_nil
  | @cons name below visited known behind entered left rest ih =>
    intro a inside path
    by_cases earlier : a ∈ visited
    · exact ih a earlier path
    · obtain ⟨b,required,onward⟩ := TransGen.head'_iff.mp path
      rcases List.mem_cons.mp inside with rfl | inside
      · obtain ⟨below',found,member⟩ := required
        rw [known] at found
        obtain rfl := Option.some.inj found
        exact earlier (rest.reaches (behind b member) onward)
      · exact earlier inside

/-- A walk that starts from settled names leaves settled names, the given ones among them. -/
def Settles (rules : Rules ν ε) (visited found visited' : List ν) : Prop :=
  Settled rules visited → Settled rules visited' ∧ visited ⊆ visited' ∧ found ⊆ visited'

theorem loop_settles {f : List ν → ν → Except ε (List ν)}
    (each : ∀ s b s', f s b = .ok s' → Settles rules s [b] s') {below s s' : List ν}
    (looped : below.foldlM f s = .ok s') : Settles rules s below s' := by
  induction below generalizing s with
  | nil =>
    obtain rfl := (pure_ok _ _).mp looped
    exact fun settled => ⟨settled,List.Subset.refl _,List.nil_subset _⟩
  | cons b below ih =>
    rw [List.foldlM_cons] at looped
    obtain ⟨next,first,looped⟩ := (bind_ok _ _ _).mp looped
    intro settled
    obtain ⟨settled',kept,found⟩ := each s b next first settled
    obtain ⟨settled'',kept',behind⟩ := ih looped settled'
    exact ⟨settled'',List.Subset.trans kept kept',
      List.cons_subset.mpr ⟨kept' (found List.mem_cons_self),behind⟩⟩

theorem loop_accepts {f : List ν → ν → Except ε (List ν)} {below : List ν}
    (each : ∀ b ∈ below, ∀ s, ∃ s', f s b = .ok s') (s : List ν) : ∃ s', below.foldlM f s = .ok s' := by
  induction below generalizing s with
  | nil => exact ⟨s,rfl⟩
  | cons b below ih =>
    obtain ⟨now,later⟩ := List.forall_mem_cons.mp each
    obtain ⟨next,first⟩ := now s
    obtain ⟨s',rest⟩ := ih later next
    refine ⟨s',?_⟩
    rw [List.foldlM_cons]
    exact (bind_ok _ _ _).mpr ⟨next,first,rest⟩

variable [DecidableEq ν]

theorem visit_settles {fuel : ℕ} {active visited visited' : List ν} {name : ν}
    (walked : visit rules fuel active visited name = .ok visited') :
    Settles rules visited [name] visited' := by
  induction fuel generalizing active visited visited' name with
  | zero => cases walked
  | succ fuel ih =>
    rw [visit] at walked
    obtain ⟨_,entered,walked⟩ := (bind_ok _ _ _).mp walked
    obtain ⟨_,_,walked⟩ := (bind_ok _ _ _).mp walked
    intro settled
    by_cases before : name ∈ visited
    · rw [if_pos before] at walked
      obtain rfl := (pure_ok _ _).mp walked
      exact ⟨settled,List.Subset.refl _,List.cons_subset.mpr ⟨before,List.nil_subset _⟩⟩
    · rw [if_neg before] at walked
      cases known : rules.requires name with
      | none =>
        rw [known] at walked
        cases walked
      | some below =>
        rw [known] at walked
        obtain ⟨inner,looped,walked⟩ := (bind_ok _ _ _).mp walked
        obtain ⟨_,left,walked⟩ := (bind_ok _ _ _).mp walked
        obtain rfl := (pure_ok _ _).mp walked
        obtain ⟨settled',kept,behind⟩ := loop_settles (fun _ _ _ step => ih step) looped settled
        exact ⟨.cons known behind entered left settled',fun a inside => List.mem_cons_of_mem _ (kept inside),
          List.cons_subset.mpr ⟨List.mem_cons_self,List.nil_subset _⟩⟩

/-- Names that pass their checks and require names among themselves. -/
structure Passing (rules : Rules ν ε) (names : List ν) : Prop where
  enter : ∀ name ∈ names, rules.enter name = .ok ⟨⟩
  leave : ∀ name ∈ names, rules.leave name = .ok ⟨⟩
  closed : ∀ name ∈ names, ∃ below, rules.requires name = some below ∧ below ⊆ names

/-- On an acyclic graph a walk with enough fuel succeeds. -/
theorem visit_accepts {names : List ν} (passing : Passing rules names) (acyclic : Acyclic rules)
    {fuel : ℕ} {active visited : List ν} {name : ν} (known : name ∈ names)
    (distinct : active.Nodup) (path : ∀ a ∈ active, a ∈ names ∧ TransGen (Requires rules) a name)
    (enough : names.length < fuel+active.length) :
    ∃ visited', visit rules fuel active visited name = .ok visited' := by
  induction fuel generalizing active visited name with
  | zero =>
    have short := (List.Nodup.subperm distinct (fun a inside => (path a inside).1)).length_le
    omega
  | succ fuel ih =>
    have fresh : name ∉ active := fun inside => acyclic name (path name inside).2
    obtain ⟨below,required,inside⟩ := passing.closed name known
    rw [visit, passing.enter name known, check_of _ _ fresh, required]
    by_cases before : name ∈ visited
    · exact ⟨visited,by simp only [if_pos before]; rfl⟩
    · have each : ∀ b ∈ below, ∀ s, ∃ s', visit rules fuel (name :: active) s b = .ok s' := by
        intro b member s
        have step : Requires rules name b := ⟨below,required,member⟩
        apply ih (inside member) (List.nodup_cons.mpr ⟨fresh,distinct⟩)
        · exact List.forall_mem_cons.mpr ⟨⟨known,.single step⟩,
            fun a above => ⟨(path a above).1,(path a above).2.tail step⟩⟩
        · simp only [List.length_cons]
          omega
      obtain ⟨inner,looped⟩ := loop_accepts each visited
      refine ⟨name :: inner,?_⟩
      simp only [if_neg before]
      show (below.foldlM (visit rules fuel (name :: active)) visited >>= fun visited =>
        rules.leave name >>= fun _ => pure (name :: visited)) = _
      rw [looped, (bind_ok _ _ _)]
      exact ⟨inner,rfl,(bind_ok _ _ _).mpr ⟨⟨⟩,passing.leave name known,rfl⟩⟩

/-- Walking from every name of a closed graph succeeds exactly when every name passes its checks and
the graph is acyclic. -/
theorem visit_iff {names : List ν}
    (closed : ∀ name ∈ names, ∃ below, rules.requires name = some below ∧ below ⊆ names)
    (declared : ∀ name, (rules.requires name).isSome → name ∈ names) {fuel : ℕ}
    (enough : names.length < fuel) :
    (∃ visited, names.foldlM (visit rules fuel []) [] = .ok visited) ↔
      (∀ name ∈ names, rules.enter name = .ok ⟨⟩ ∧ rules.leave name = .ok ⟨⟩) ∧ Acyclic rules := by
  constructor
  · rintro ⟨visited,walked⟩
    obtain ⟨settled,_,all⟩ := loop_settles (fun _ _ _ step => visit_settles step) walked .nil
    refine ⟨fun name inside => settled.passes name (all inside),fun a path => ?_⟩
    obtain ⟨b,⟨below,required,_⟩,_⟩ := TransGen.head'_iff.mp path
    exact settled.acyclic a (all (declared a (required ▸ rfl))) path
  · rintro ⟨passes,acyclic⟩
    apply loop_accepts
    intro name known s
    apply visit_accepts ⟨fun a inside => (passes a inside).1,fun a inside => (passes a inside).2,closed⟩
      acyclic known List.nodup_nil
    · exact fun _ none => absurd none List.not_mem_nil
    · exact enough

/-- The steps of a walk over a name that is visited for the first time. -/
theorem visit_fresh {fuel : ℕ} {active visited below : List ν} {name : ν}
    (entered : rules.enter name = .ok ⟨⟩) (out : name ∉ visited)
    (required : rules.requires name = some below) {visited' : List ν} :
    visit rules (fuel+1) active visited name = .ok visited' ↔ name ∉ active ∧
      ∃ inner, below.foldlM (visit rules fuel (name :: active)) visited = .ok inner ∧
        rules.leave name = .ok ⟨⟩ ∧ name :: inner = visited' := by
  rw [visit, if_neg out, required]
  constructor
  · intro walked
    obtain ⟨_,_,walked⟩ := (bind_ok _ _ _).mp walked
    obtain ⟨_,fresh,walked⟩ := (bind_ok _ _ _).mp walked
    obtain ⟨inner,looped,walked⟩ := (bind_ok _ _ _).mp walked
    obtain ⟨_,left,walked⟩ := (bind_ok _ _ _).mp walked
    exact ⟨(check_ok _ _ _).mp fresh,inner,looped,left,(pure_ok _ _).mp walked⟩
  · rintro ⟨fresh,inner,looped,left,rfl⟩
    exact (bind_ok _ _ _).mpr ⟨⟨⟩,entered,(bind_ok _ _ _).mpr ⟨⟨⟩,check_of _ _ fresh,
      (bind_ok _ _ _).mpr ⟨inner,looped,(bind_ok _ _ _).mpr ⟨⟨⟩,left,rfl⟩⟩⟩⟩

theorem visit_done {fuel : ℕ} {active visited : List ν} {name : ν}
    (entered : rules.enter name = .ok ⟨⟩) (fresh : name ∉ active) (before : name ∈ visited) :
    visit rules (fuel+1) active visited name = .ok visited := by
  rw [visit, if_pos before, bind_ok]
  exact ⟨⟨⟩,entered,(bind_ok _ _ _).mpr ⟨⟨⟩,check_of _ _ fresh,rfl⟩⟩

end Acceptance

end RequirementWalk
