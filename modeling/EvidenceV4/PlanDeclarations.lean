import EvidenceV4.PyramidPlan

/-!
# What an accepted plan declares

Acceptance of a document is turned into a relation between its declarations and
the layers of the plan: each declared execution is the argument vector, the
resolved directory, the timeout and the environment that the document gives.
-/

set_option autoImplicit false

namespace EvidenceV4

namespace PyramidPlan

open CheckedExcept
open CheckerJson (PyString points)
open PolicyDocument (mapGet)
open PythonData
open RepositoryTree (parsePath parent)

section Lists

variable {α β γ : Type}

theorem forall₂_comp {R : α → β → Prop} {S : β → γ → Prop} {xs : List α} {ys : List β}
    {zs : List γ} (first : List.Forall₂ R xs ys) (second : List.Forall₂ S ys zs) :
    List.Forall₂ (fun x z => ∃ y, R x y ∧ S y z) xs zs := by
  induction first generalizing zs with
  | nil =>
    cases second
    exact .nil
  | cons now _ ih =>
    cases second with
    | cons here later => exact .cons ⟨_,now,here⟩ (ih later)

/-- The position of an element may be counted in either list. -/
theorem forall₂_zipIdx {P : α × ℕ → β → Prop} {xs : List α} {ys : List β} (n : ℕ)
    (h : List.Forall₂ P (xs.zipIdx n) ys) :
    List.Forall₂ (fun x y => P (x,y.2) y.1) xs (ys.zipIdx n) := by
  induction xs generalizing n ys with
  | nil =>
    cases h
    exact .nil
  | cons x xs ih =>
    cases h with
    | cons now later => exact .cons now (ih (n + 1) later)

theorem forall₂_left {P : α × ℕ → β → Prop} {Q : α → β → Prop} {xs : List α} {ys : List β}
    (h : List.Forall₂ P xs.zipIdx ys) (imp : ∀ x i y, P (x,i) y → Q x y) :
    List.Forall₂ Q xs ys := by
  have whole : List.Forall₂ (fun entry y => Q entry.1 y) xs.zipIdx ys :=
    h.imp (fun entry y now => imp entry.1 entry.2 y now)
  have same := List.forall₂_map_left_iff.mpr whole
  rwa [List.zipIdx_map_fst] at same

end Lists

section Readings

theorem textOf_some {value : PyData} {text : PyString} : textOf value = some text ↔
    value = .str text := by
  cases value <;> simp [textOf]

theorem fieldsOf_some {value : PyData} {fields : PyFields} : fieldsOf value = some fields ↔
    value = .dict fields := by
  cases value <;> simp [fieldsOf]

theorem entriesOf_some {value : PyData} {entries : List PyData} :
    entriesOf value = some entries ↔ value = .list entries := by
  cases value <;> simp [entriesOf]

@[simp] theorem reading_ok {α : Type} {x : Except PyError α} {a : α} :
    reading x = .ok a ↔ x = .ok a := by
  cases x <;> simp [reading]

@[simp] theorem refuse_ok {α : Type} {parts : List PyString} {a : α} :
    (refuse parts : Except Refusal α) = .ok a ↔ False := throw_ok _ _

end Readings

variable {library : Library} {crate : Directories} {source place : PyString}

section Executions

/-- The environment that a declaration merges over the runner's own. -/
def DeclaresEnv (raw : PyData) (env : List (PyString × PyString)) : Prop :=
  (raw = .none ∧ env = []) ∨
    raw = .dict (env.map (fun entry => (entry.1,.str entry.2)))

/-- A declared working directory and the directory of the crate that it resolves to. -/
def DeclaresCwd (crate : Directories) (raw : PyData) (path : List PyString) : Prop :=
  ∃ text, raw = .str text ∧ crate.resolve (crate.root ++ (parsePath text).parts) = .ok path ∧
    crate.root <+: path ∧ crate.isDir path = .ok true

/-- What a declared execution says about the command that is started for it. -/
structure Declares (crate : Directories) (fields : PyFields) (argv : List PyString)
    (path : List PyString) (timeout : ℤ) (env : List (PyString × PyString)) : Prop where
  argv : PythonData.get fields "argv" = .list (argv.map .str)
  cwd : DeclaresCwd crate (PythonData.get fields "cwd") path
  timeout : PythonData.get fields "timeout_seconds" = .int timeout
  env : DeclaresEnv (PythonData.get fields "env") env

theorem planArgv_ok {raw : PyData} {argv : List PyString}
    (h : planArgv library raw place = .ok argv) : raw = .list (argv.map .str) := by
  unfold planArgv at h
  split at h
  · exact absurd h (by simp)
  · rename_i entries found
    have read := entriesOf_some.mp (Option.filter_eq_some_iff.mp found).1
    subst read
    have each := forall₂_left ((mapM_ok _ _ _).mp h)
      (Q := fun value word => value = PyData.str word) (by
        intro value i word now
        unfold argvWord at now
        split at now
        · rename_i found
          rw [pure_ok] at now
          subst now
          exact textOf_some.mp (Option.filter_eq_some_iff.mp found).1
        · exact absurd now (by simp))
    have same : List.Forall₂ (· = ·) entries (argv.map .str) :=
      List.forall₂_map_right_iff.mpr each
    rw [List.forall₂_eq_eq_eq] at same
    rw [same]

theorem planEnv_ok {raw : PyData} {env : List (PyString × PyString)}
    (h : planEnv library raw place = .ok env) : DeclaresEnv raw env := by
  unfold planEnv at h
  split at h
  · rw [pure_ok] at h
    exact .inl ⟨rfl,h.symm⟩
  · rename_i fields
    right
    have each : List.Forall₂ (fun (field : PyString × PyData) (entry : PyString × PyString) =>
        field = (entry.1,PyData.str entry.2)) fields env := by
      apply ((mapM_ok _ _ _).mp h).imp
      intro field entry now
      unfold envEntry at now
      split at now
      · exact absurd now (by simp)
      · split at now
        · exact absurd now (by simp)
        · rename_i found
          rw [pure_ok] at now
          subst now
          rw [← textOf_some.mp (Option.filter_eq_some_iff.mp found).1]
    have same : List.Forall₂ (· = ·) fields
        (env.map (fun entry => (entry.1,PyData.str entry.2))) :=
      List.forall₂_map_right_iff.mpr each
    rw [List.forall₂_eq_eq_eq] at same
    rw [same]
  · exact absurd h (by simp)

theorem planTimeout_ok {raw : PyData} {timeout : ℤ}
    (h : planTimeout library raw place = .ok timeout) : raw = .int timeout := by
  cases raw with
  | int seconds =>
    simp only [planTimeout] at h
    split at h
    · exact absurd h (by simp)
    · rw [pure_ok] at h
      rw [h]
  | _ => simp [planTimeout] at h

theorem planCwd_ok {raw : PyData} {cwd : List PyString}
    (h : planCwd library crate raw place = .ok cwd) : DeclaresCwd crate raw (crate.root ++ cwd) := by
  unfold planCwd at h
  split at h
  · exact absurd h (by simp)
  · rename_i text found
    dsimp only at h
    split at h
    · exact absurd h (by simp)
    · split at h
      · exact absurd h (by simp)
      · simp only [bind_ok, reading_ok, containedCwd, check_ok, exists_unit, pure_ok] at h
        obtain ⟨path,resolved,inside,listed,isDir,known,rest⟩ := h
        subst known
        obtain ⟨below,rfl⟩ := inside
        rw [List.drop_left] at rest
        subst rest
        exact ⟨text,textOf_some.mp (Option.filter_eq_some_iff.mp found).1,resolved,List.prefix_append _ _,isDir⟩

theorem planExecution_ok {raw : PyData} {execution : Execution}
    (h : planExecution library crate raw place = .ok execution) :
    ∃ fields, raw = .dict fields ∧ Declares crate fields execution.argv
      (crate.root ++ execution.cwd) execution.timeoutSeconds execution.env := by
  unfold planExecution at h
  split at h
  · exact absurd h (by simp)
  · rename_i fields found
    simp only [bind_ok, check_ok, exists_unit, pure_ok] at h
    obtain ⟨-,argv,isArgv,timeout,isTimeout,tool,-,cwd,isCwd,env,isEnv,rfl⟩ := h
    exact ⟨fields,fieldsOf_some.mp found,planArgv_ok isArgv,planCwd_ok isCwd,
      planTimeout_ok isTimeout,planEnv_ok isEnv⟩

end Executions

section Layers

theorem requiredFlag_ok {raw : PyData} {required : Bool}
    (h : requiredFlag library raw place = .ok required) : raw = .bool required := by
  cases raw with
  | bool value =>
    simp only [requiredFlag, pure_ok] at h
    rw [h]
  | _ => simp [requiredFlag] at h

/-- A layer of the plan is what the fields of its declaration say. -/
structure Describes (crate : Directories) (spec : PyData) (layer : Layer) : Prop where
  required : lookup spec "required" = .bool layer.required
  executions : ∃ raws, lookup spec "executions" = .list raws ∧
    List.Forall₂ (fun raw (execution : Execution) => ∃ fields, raw = PyData.dict fields ∧
      Declares crate fields execution.argv (crate.root ++ execution.cwd)
        execution.timeoutSeconds execution.env) raws layer.executions

theorem parseLayer_ok {name : PyString} {spec : PyData} {layer : Layer}
    (h : parseLayer library crate source name spec = .ok layer) : Describes crate spec layer := by
  unfold parseLayer at h
  dsimp only at h
  split at h
  · exact absurd h (by simp)
  · rename_i fields found
    rw [fieldsOf_some.mp found]
    simp only [bind_ok, check_ok, exists_unit, pure_ok] at h
    obtain ⟨-,required,flag,executions,listed,rfl⟩ := h
    unfold declaredExecutions at listed
    split at listed
    · exact absurd listed (by simp)
    · rename_i raws read
      have each := forall₂_left ((mapM_ok _ _ _).mp listed)
        (fun raw i execution now => planExecution_ok now)
      exact ⟨requiredFlag_ok flag,raws,entriesOf_some.mp (Option.filter_eq_some_iff.mp read).1,each⟩

theorem addLayers_ok {declared : PyFields} {names : List PyString} {s s' : Parsing}
    (h : names.foldlM (addLayer library crate source declared) s = .ok s') :
    ∃ added, s'.layers = s.layers ++ added ∧ List.Forall₂ (fun name (entry : PyString × Layer) =>
      entry.1 = name ∧ Describes crate (PythonData.get declared name) entry.2) names added := by
  induction names generalizing s with
  | nil =>
    rw [List.foldlM_nil, pure_ok] at h
    exact ⟨[],by rw [h, List.append_nil],.nil⟩
  | cons name names ih =>
    simp only [List.foldlM_cons, bind_ok] at h
    obtain ⟨m,now,later⟩ := h
    simp only [addLayer, bind_ok, pure_ok] at now
    obtain ⟨layer,parsed,origins,-,rfl⟩ := now
    obtain ⟨added,same,each⟩ := ih later
    refine ⟨(name,layer) :: added,?_,.cons ⟨rfl,parseLayer_ok parsed⟩ each⟩
    rw [same, List.append_assoc, List.singleton_append]

theorem mem_planLayerOrder {names : List PyString} {name : PyString} :
    name ∈ planLayerOrder names ↔ name ∈ names := by
  rw [planLayerOrder, List.mem_append, List.mem_filter, mem_sortedNames, List.mem_filter]
  by_cases known : name ∈ layerOrder <;> simp [known]

theorem nameAllowed_ok {name : PyString} {u : Unit} (h : nameAllowed library source name = .ok u) :
    name ∉ planReservedLayers := by
  unfold nameAllowed at h
  split at h
  · rename_i known
    exact of_decide_eq_true (List.mem_filter.mp known).2
  · split at h
    · exact absurd h (by simp)
    · assumption

/-- The declarations of a document, by the name of the layer. -/
def declaredLayers (document : PyData) : PyFields :=
  (fieldsOf (lookup document "layers")).getD []

/-- The layers of an accepted plan are exactly the declared ones. -/
structure Accepted (crate : Directories) (document : PyData) (layers : List (PyString × Layer)) :
    Prop where
  describes : ∀ name layer, mapGet layers name = some layer →
    Describes crate (PythonData.get (declaredLayers document) name) layer
  declared : ∀ name, (mapGet layers name).isSome = true ↔
    name ∈ (declaredLayers document).map Prod.fst
  unreserved : ∀ name ∈ (declaredLayers document).map Prod.fst, name ∉ planReservedLayers

theorem parsePlan_ok {document : PyData} {plan : Plan}
    (h : parsePlan library crate source document = .ok plan) :
    Accepted crate document plan.layers := by
  unfold parsePlan at h
  split at h
  · exact absurd h (by simp)
  · rename_i fields found
    simp only [bind_ok, check_ok, exists_unit] at h
    obtain ⟨-,-,h⟩ := h
    split at h
    · exact absurd h (by simp)
    · rename_i declared read
      have isDeclared : declaredLayers document = declared := by
        rw [fieldsOf_some.mp found]
        show (fieldsOf (PythonData.get fields "layers")).getD [] = declared
        rw [(Option.filter_eq_some_iff.mp read).1]
        rfl
      simp only [parseLayers, bind_ok, exists_unit, forM_ok, pure_ok] at h
      obtain ⟨allowed,parsing,folded,rfl⟩ := h
      obtain ⟨added,same,each⟩ := addLayers_ok folded
      rw [List.nil_append] at same
      refine ⟨?_,?_,?_⟩
      · intro name layer got
        dsimp only at got
        rw [same] at got
        obtain ⟨declaredName,-,isName,described⟩ :=
          forall₂_mem_right each (PolicyDocument.mapGet_mem got)
        subst isName
        rw [isDeclared]
        exact described
      · intro name
        have names : added.map Prod.fst = planLayerOrder (declared.map Prod.fst) := by
          have both : List.Forall₂ (· = ·) (planLayerOrder (declared.map Prod.fst))
              (added.map Prod.fst) :=
            List.forall₂_map_right_iff.mpr (each.imp (fun _ _ now => now.1.symm))
          rw [List.forall₂_eq_eq_eq] at both
          exact both.symm
        rw [PolicyDocument.mapGet_isSome, same, names, mem_planLayerOrder, isDeclared]
      · intro name member
        rw [isDeclared] at member
        exact nameAllowed_ok (allowed name member)

end Layers

end PyramidPlan

end EvidenceV4
