import EvidenceV4.PythonData

/-!
# Adjudication of a milestone

The verdict of each required criterion comes from the status of its evidence.
What the panel says about a criterion can lower a pass and nothing else, so the
fold over the criteria takes its failures from the evidence alone.
-/

set_option autoImplicit false

namespace EvidenceV4

namespace Panel

open CheckerJson (PyString points)
open PolicyDocument (mapGet mapGet_mem mapGet_isSome)
open PythonData

inductive Verdict where
  | pass
  | fail
  | incomplete
  | contested
  deriving DecidableEq

def Verdict.text : Verdict → PyString
  | .pass => "PASS"
  | .fail => "FAIL"
  | .incomplete => "INCOMPLETE"
  | .contested => "CONTESTED"

def modelDispute : List PyString :=
  ["FAIL","CONTESTED","INCOMPLETE","insufficient-evidence"].map points

/-- `value in names` for a tuple of names. -/
def oneOf (names : List PyString) (value : PyData) : Bool :=
  names.any (fun name => equal value (.str name))

def g1Pass : List PyString := ["PASS","PASS-waived"].map points

/-- `_g1_to_verdict` -/
def g1ToVerdict (status : PyData) : Verdict :=
  if oneOf g1Pass status then .pass
  else if equal status (.str "FAIL") then .fail
  else .incomplete

section Guard

/-- The criteria that the synthesis names, each with the verdict it gives. -/
def modelEntries (data : PyData) : List (PyString × PyData) :=
  ((entriesOf (lookup data "criteria")).getD []).filterMap (fun entry =>
    (textOf (lookup entry "id")).map (fun id => (id,lookup entry "verdict")))

/-- The names that occur again behind themselves. -/
def repeated : List PyString → List PyString
  | [] => []
  | name :: rest => if name ∈ rest then name :: repeated rest else repeated rest

structure Criterion where
  id : PyString
  g1Status : PyData
  modelVerdict : PyData
  verdict : Verdict

variable (library : Library) (status : PyFields) (entries : List (PyString × PyData))

def g1Status (id : PyString) : PyData := (mapGet status id).getD (.str "missing-record")

def covered (id : PyString) : Bool := (mapGet entries id).isSome

def modelVerdict (id : PyString) : PyData := (mapGet entries id).getD .none

def disputed (id : PyString) : Bool := oneOf modelDispute (modelVerdict entries id)

/-- The verdict of one criterion: evidence first, then coverage, then a dispute. -/
def criterionVerdict (id : PyString) : Verdict :=
  let base := g1ToVerdict (g1Status status id)
  if base = .fail then .fail
  else if covered entries id = false then .incomplete
  else if base = .pass ∧ disputed entries id = true then .contested
  else base

def perCriterion (id : PyString) : Criterion :=
  ⟨id,g1Status status id,modelVerdict entries id,criterionVerdict status entries id⟩

/-- What the criteria together amount to. -/
def foldVerdict (required duplicates : List PyString) : Verdict :=
  let verdicts := required.map (criterionVerdict status entries)
  if required = [] then .incomplete
  else if .fail ∈ verdicts then .fail
  else if duplicates ≠ [] then .incomplete
  else if .incomplete ∈ verdicts then .incomplete
  else if .contested ∈ verdicts then .contested
  else .pass

structure Adjudication where
  verdict : Verdict
  proposed : PyData
  required : List PyString
  evidenceStatus : PyFields
  perCriterion : List Criterion
  uncovered : List PyString
  duplicates : List PyString
  disputes : List PyString
  unsupportedPassClaims : List PyString
  reasons : List PyString

def uncoveredIds (required : List PyString) : List PyString :=
  required.filter (fun id => g1ToVerdict (g1Status status id) ≠ .fail ∧ covered entries id = false)

def disputedIds (required : List PyString) : List PyString :=
  required.filter (fun id => criterionVerdict status entries id = .contested)

def unsupportedIds (required : List PyString) : List PyString :=
  required.filter (fun id => equal (modelVerdict entries id) (.str "PASS") = true ∧
    g1ToVerdict (g1Status status id) ≠ .pass)

def listed (names : List PyString) : PyString := library.repr (.list (names.map .str))

def naming (text : PyString) (names : List PyString) : List PyString :=
  if names = [] then [] else [say [text,listed library names]]

def guardReasons (required duplicates : List PyString) (proposed : PyData) : List PyString :=
  let verdict := foldVerdict status entries required duplicates
  let failed := Verdict.fail ∈ required.map (criterionVerdict status entries)
  (if required = [] then [points "no machine-readable acceptance criteria in the trusted task"]
    else if failed then []
    else naming library "panel returned duplicate criterion ids: " duplicates) ++
  naming library "panel did not evaluate required criteria: "
    (uncoveredIds status entries required) ++
  naming library "grounded panel dispute downgraded G1 PASS to CONTESTED: "
    (disputedIds status entries required) ++
  naming library "model claimed PASS without a Gate B PASS record: "
    (unsupportedIds status entries required) ++
  (if equal proposed (.str "PASS") = true ∧ verdict ≠ .pass then
    [say ["model proposed PASS but evidence adjudicates ",verdict.text," (fail-closed)"]] else [])

/-- `milestone_verdict_guard(required_ids, evidence_status)(data)` -/
def milestoneVerdictGuard (requiredIds : List PyString) (data : PyData) : Adjudication :=
  let required := requiredIds.eraseDups
  let entries := modelEntries data
  let duplicates := sortedNames (repeated (entries.map Prod.fst))
  let proposed := lookup data "verdict"
  { verdict := foldVerdict status entries required duplicates
    proposed := proposed
    required := required
    evidenceStatus := status
    perCriterion := required.map (perCriterion status entries)
    uncovered := uncoveredIds status entries required
    duplicates := duplicates
    disputes := disputedIds status entries required
    unsupportedPassClaims := unsupportedIds status entries required
    reasons := guardReasons library status entries required duplicates proposed }

end Guard

section Facts

variable {library : Library} {status : PyFields} {entries : List (PyString × PyData)}
  {required requiredIds duplicates : List PyString} {id : PyString} {data : PyData}

/-- The status that Gate B reports for a criterion is a failure. -/
def Fails (status : PyFields) (id : PyString) : Prop := g1Status status id = .str "FAIL"

/-- The status that Gate B reports for a criterion is a pass, waived or not. -/
def Passes (status : PyFields) (id : PyString) : Prop :=
  g1Status status id = .str "PASS" ∨ g1Status status id = .str "PASS-waived"

/-- The synthesis evaluates a criterion once and does not dispute it. -/
def EvaluatedOnce (data : PyData) (id : PyString) : Prop :=
  ∃ verdict, (modelEntries data).filter (fun entry => entry.1 = id) = [(id,verdict)] ∧
    ∀ name ∈ modelDispute, verdict ≠ .str name

theorem oneOf_iff {names : List PyString} {value : PyData} :
    oneOf names value = true ↔ ∃ name ∈ names, value = .str name := by
  rw [oneOf, List.any_eq_true]
  exact exists_congr (fun name => and_congr_right (fun _ => equal_str))

theorem g1ToVerdict_pass : g1ToVerdict (g1Status status id) = .pass ↔ Passes status id := by
  have known : oneOf g1Pass (g1Status status id) = true ↔ Passes status id := by
    rw [oneOf_iff]
    simp [g1Pass, Passes]
  unfold g1ToVerdict
  split
  · rename_i passes
    exact iff_of_true rfl (known.mp passes)
  · rename_i other
    rw [known] at other
    split
    · exact iff_of_false (by simp) other
    · exact iff_of_false (by simp) other

theorem g1ToVerdict_fail : g1ToVerdict (g1Status status id) = .fail ↔ Fails status id := by
  unfold g1ToVerdict Fails
  split
  · rename_i passes
    apply iff_of_false (by simp)
    intro fails
    rw [fails] at passes
    exact absurd passes (by decide +kernel)
  · rw [← equal_str]
    split
    · rename_i fails
      exact iff_of_true rfl fails
    · rename_i other
      exact iff_of_false (by simp) other

theorem criterionVerdict_fail : criterionVerdict status entries id = .fail ↔ Fails status id := by
  rw [← g1ToVerdict_fail]
  unfold criterionVerdict
  dsimp only
  split
  · rename_i fails
    exact iff_of_true rfl fails
  · rename_i other
    split
    · exact iff_of_false (by simp) other
    · split
      · exact iff_of_false (by simp) other
      · rfl

theorem criterionVerdict_pass (h : criterionVerdict status entries id = .pass) :
    Passes status id ∧ covered entries id = true ∧ disputed entries id = false := by
  unfold criterionVerdict at h
  dsimp only at h
  split at h
  · exact absurd h (by simp)
  · split at h
    · exact absurd h (by simp)
    · rename_i known
      split at h
      · exact absurd h (by simp)
      · rename_i clear
        refine ⟨g1ToVerdict_pass.mp h,by simpa using known,?_⟩
        by_contra bad
        exact clear ⟨h,by simpa using bad⟩

theorem foldVerdict_fail (h : foldVerdict status entries required duplicates = .fail) :
    ∃ id ∈ required, Fails status id := by
  unfold foldVerdict at h
  dsimp only at h
  split at h
  · exact absurd h (by simp)
  · split at h
    · rename_i failed
      obtain ⟨id,known,fails⟩ := List.mem_map.mp failed
      exact ⟨id,known,criterionVerdict_fail.mp fails⟩
    · split at h
      · exact absurd h (by simp)
      · split at h
        · exact absurd h (by simp)
        · split at h
          · exact absurd h (by simp)
          · exact absurd h (by simp)

/-- A failure of the evidence is the verdict, whatever the panel returned. -/
theorem foldVerdict_of_fail (known : id ∈ required) (fails : Fails status id) :
    foldVerdict status entries required duplicates = .fail := by
  unfold foldVerdict
  dsimp only
  rw [if_neg (List.ne_nil_of_mem known),
    if_pos (List.mem_map.mpr ⟨id,known,criterionVerdict_fail.mpr fails⟩)]

theorem foldVerdict_pass (h : foldVerdict status entries required duplicates = .pass) :
    duplicates = [] ∧ ∀ id ∈ required, criterionVerdict status entries id = .pass := by
  unfold foldVerdict at h
  dsimp only at h
  split at h
  · exact absurd h (by simp)
  · split at h
    · exact absurd h (by simp)
    · rename_i unfailed
      split at h
      · exact absurd h (by simp)
      · rename_i single
        split at h
        · exact absurd h (by simp)
        · rename_i complete
          split at h
          · exact absurd h (by simp)
          · rename_i uncontested
            refine ⟨by simpa using single,fun id known => ?_⟩
            have listed : criterionVerdict status entries id ∈
                required.map (criterionVerdict status entries) := List.mem_map_of_mem known
            cases verdict : criterionVerdict status entries id with
            | pass => rfl
            | fail => exact absurd (verdict ▸ listed) unfailed
            | incomplete => exact absurd (verdict ▸ listed) complete
            | contested => exact absurd (verdict ▸ listed) uncontested

theorem mem_repeated {names : List PyString} {name : PyString} :
    name ∈ repeated names ↔ 2 ≤ names.count name := by
  induction names with
  | nil => simp [repeated]
  | cons first rest ih =>
    rw [repeated, List.count_cons]
    by_cases same : first = name
    · subst same
      rw [beq_self_eq_true, if_pos rfl]
      have again : 2 ≤ rest.count first + 1 ↔ first ∈ rest := by
        rw [← List.count_pos_iff]
        omega
      rw [again]
      split
      · rename_i known
        exact iff_of_true List.mem_cons_self known
      · rename_i single
        rw [ih]
        apply iff_of_false
        · rw [List.count_eq_zero_of_not_mem single]
          omega
        · exact single
    · have other : (first == name) = false := beq_eq_false_iff_ne.mpr same
      rw [other, if_neg Bool.false_ne_true, Nat.add_zero, ← ih]
      split
      · rw [List.mem_cons, or_iff_right (fun e => same e.symm)]
      · rfl

/-- Without repeated names, the verdict of a covered criterion is its only one. -/
theorem entries_single (single : repeated (entries.map Prod.fst) = [])
    (known : covered entries id = true) :
    entries.filter (fun entry => entry.1 = id) = [(id,modelVerdict entries id)] := by
  obtain ⟨verdict,found⟩ := Option.isSome_iff_exists.mp known
  have member := mapGet_mem found
  have once : (entries.map Prod.fst).count id < 2 := by
    rw [← not_le, ← mem_repeated, single]
    exact List.not_mem_nil
  have kept : (id,verdict) ∈ entries.filter (fun entry => entry.1 = id) := by
    simp [member]
  have long : (entries.filter (fun entry => entry.1 = id)).length = (entries.map Prod.fst).count id := by
    rw [List.count, List.countP_map, List.countP_eq_length_filter]
    apply congrArg List.length
    apply List.filter_congr
    intro entry _
    rw [Bool.eq_iff_iff, decide_eq_true_eq, Function.comp_apply, beq_iff_eq]
  have value : modelVerdict entries id = verdict := by
    rw [modelVerdict, found]
    rfl
  rw [value]
  cases shape : entries.filter (fun entry => entry.1 = id) with
  | nil =>
    rw [shape] at kept
    exact absurd kept List.not_mem_nil
  | cons first rest =>
    rw [shape] at kept long
    have nothing : rest = [] := by
      rw [← List.length_eq_zero_iff]
      rw [List.length_cons] at long
      omega
    rw [nothing] at kept ⊢
    rw [List.mem_singleton.mp kept]

theorem guard_fail : (milestoneVerdictGuard library status requiredIds data).verdict = .fail ↔
    ∃ id ∈ requiredIds, Fails status id := by
  constructor
  · intro h
    obtain ⟨id,known,fails⟩ := foldVerdict_fail h
    exact ⟨id,List.mem_eraseDups.mp known,fails⟩
  · rintro ⟨id,known,fails⟩
    exact foldVerdict_of_fail (List.mem_eraseDups.mpr known) fails

/-- A pass rests on passing evidence and one undisputed evaluation for each criterion. -/
theorem guard_pass (h : (milestoneVerdictGuard library status requiredIds data).verdict = .pass)
    (known : id ∈ requiredIds) : Passes status id ∧ EvaluatedOnce data id := by
  obtain ⟨single,each⟩ := foldVerdict_pass h
  obtain ⟨passes,isCovered,clear⟩ := criterionVerdict_pass (each id (List.mem_eraseDups.mpr known))
  refine ⟨passes,modelVerdict (modelEntries data) id,
    entries_single (sortedNames_nil.mp single) isCovered,?_⟩
  intro name listed same
  have bad : disputed (modelEntries data) id = true := oneOf_iff.mpr ⟨name,listed,same⟩
  rw [clear] at bad
  exact absurd bad (by decide)

end Facts

end Panel

end EvidenceV4
