import EvidenceV4.GateVerdict

/-!
# Records on which the gate raises

The record check is meant to answer every record with a list of defects. A class
or a result is looked up in a set of names before its type is tested, and an array
or an object cannot be looked up. A path is handed to the file system, which may
refuse it. Everything else that a record can hold is answered.
-/

set_option autoImplicit false

namespace EvidenceV4

namespace GateTotality

open CheckedExcept Findings
open CheckerJson (PyString points)
open GateManifest (evidenceToolId)
open GateRecord GateValidation
open PolicyDocument (mapGet)
open PythonData
open RepositoryTree

section Answers

universe u v
variable {ε : Type u} {α β δ σ : Type v}

/-- A computation that does not raise. -/
def Answers (x : Except ε α) : Prop := ∃ a, x = .ok a

theorem answers_pure (a : α) : Answers (pure a : Except ε α) := ⟨a,rfl⟩

theorem answers_bind (x : Except ε α) (f : α → Except ε β) :
    Answers (x >>= f) ↔ ∃ a, x = .ok a ∧ Answers (f a) := by
  unfold Answers
  simp only [bind_ok]
  constructor
  · rintro ⟨b,a,first,later⟩
    exact ⟨a,first,b,later⟩
  · rintro ⟨a,first,b,later⟩
    exact ⟨b,a,first,later⟩

/-- What only computes with the result of a step raises when the step does. -/
theorem answers_map (x : Except ε α) (f : α → β) :
    Answers (x >>= fun a => pure (f a)) ↔ Answers x := by
  rw [answers_bind]
  exact ⟨fun ⟨a,first,_⟩ => ⟨a,first⟩,fun ⟨a,first⟩ => ⟨a,first,answers_pure _⟩⟩

theorem answers_settle (found : List δ) (x : Except ε (List δ)) :
    Answers (settle found x) ↔ (found = [] → Answers x) := by
  cases found with
  | nil => exact ⟨fun answer _ => answer,fun answer => answer rfl⟩
  | cons d ds => exact ⟨fun _ => nofun,fun _ => ⟨d :: ds,rfl⟩⟩

/-- A loop answers when each step does in the state that the steps before leave. -/
theorem answers_gather {step : σ → α → Except ε (List δ × σ)} (next : σ → α → σ)
    (leaves : ∀ s x r, step s x = .ok r → r.2 = next s x) (s : σ) (xs : List α) :
    Answers (gather step s xs) ↔ ∀ before x after, xs = before ++ x :: after →
      Answers (step (before.foldl next s) x) := by
  induction xs generalizing s with
  | nil => exact ⟨fun _ before x after whole => by simp at whole,fun _ => ⟨_,rfl⟩⟩
  | cons y ys ih =>
    have unfolded : Answers (gather step s (y :: ys)) ↔
        Answers (step s y) ∧ Answers (gather step (next s y) ys) := by
      rw [gather, answers_bind]
      constructor
      · rintro ⟨r,first,rest⟩
        have later := (answers_map _ _).mp rest
        rw [leaves s y r first] at later
        exact ⟨⟨r,first⟩,later⟩
      · rintro ⟨⟨r,first⟩,later⟩
        rw [← leaves s y r first] at later
        exact ⟨r,first,(answers_map _ _).mpr later⟩
    rw [unfolded, ih]
    constructor
    · rintro ⟨first,rest⟩ before x after whole
      cases before with
      | nil =>
        cases whole
        exact first
      | cons b before =>
        cases whole
        exact rest before x after rfl
    · intro each
      exact ⟨each [] y ys rfl,fun before x after whole => each (y :: before) x after (by
        rw [whole]
        rfl)⟩

end Answers

section Values

/-- A value that can be looked up in a set. -/
def hashable : PyData → Bool
  | .list _ => false
  | .dict _ => false
  | _ => true

theorem answers_member (known : List PyString) (value : PyData) :
    Answers (member known value) ↔ hashable value = true := by
  cases value <;> simp [Answers, member, hashable, throw, throwThe, MonadExceptOf.throw, pure,
    Except.pure]

variable (library : Library) (tree : Tree)

/-- The file system resolves the path when the check asks for it. -/
def Located (value : PyData) : Prop :=
  ∀ text, textOf value = some text → blank text = false → (parsePath text).absolute = false →
    parent ∉ (parsePath text).parts → Answers (tree.resolve (tree.join (parsePath text)))

theorem answers_contained (value : PyData) (field label : PyString) :
    Answers (containedPathDefect library tree value field label) ↔ Located tree value := by
  unfold containedPathDefect Located
  cases shown : (textOf value).filter (fun text => !blank text) with
  | none =>
    refine ⟨fun _ text known written => ?_,fun _ => answers_pure _⟩
    rw [known] at shown
    simp [written] at shown
  | some text =>
    obtain ⟨known,written⟩ := Option.filter_eq_some_iff.mp shown
    have filled : blank text = false := by simpa using written
    dsimp only
    by_cases outside : (parsePath text).absolute = true ∨ parent ∈ (parsePath text).parts
    · rw [if_pos outside]
      refine ⟨fun _ other same _ relative stays => ?_,fun _ => answers_pure _⟩
      rw [known] at same
      cases same
      exact absurd outside (not_or.mpr ⟨by simp [relative],stays⟩)
    · rw [if_neg outside, answers_map]
      obtain ⟨relative,stays⟩ := not_or.mp outside
      constructor
      · intro answer other same _ _ _
        rw [known] at same
        cases same
        exact answer
      · exact fun located => located text known filled (by simpa using relative) stays

/-- The file system answers what the check asks about an artifact. -/
def Readable (value : PyData) : Prop :=
  ∀ text, textOf value = some text → blank text = false →
    ∃ path, tree.resolve (tree.join (parsePath text)) = .ok path ∧
      ((parsePath text).absolute = false → tree.inside path = true →
        ∃ found, tree.isFile path = .ok found ∧ (found = true → Answers (tree.readBytes path)))

theorem answers_found {expected : PyData} {label text : PyString} {path : List PyString}
    {found : Bool} :
    Answers (match found with
      | false => (pure ([say [label,"unresolvable raw artifact: ",text]],none) :
          Except PyError (List PyString × Option PyString))
      | true => do
        let raw ← tree.readBytes path
        pure (committed library expected label raw)) ↔
      (found = true → Answers (tree.readBytes path)) := by
  cases found with
  | false => exact ⟨fun _ => by rintro ⟨⟩,fun _ => answers_pure _⟩
  | true =>
    show Answers (_ >>= _) ↔ _
    rw [answers_map]
    exact ⟨fun answer _ => answer,fun answer => answer rfl⟩

theorem answers_artifact (value expected : PyData) (label : PyString) :
    Answers (readArtifact library tree value expected label) ↔ Readable tree value := by
  unfold readArtifact Readable
  cases shown : (textOf value).filter (fun text => !blank text) with
  | none =>
    refine ⟨fun _ text known written => ?_,fun _ => answers_pure _⟩
    rw [known] at shown
    simp [written] at shown
  | some text =>
    obtain ⟨known,written⟩ := Option.filter_eq_some_iff.mp shown
    have filled : blank text = false := by simpa using written
    have only : ∀ other, textOf value = some other → other = text := fun other same => by
      rw [known] at same
      exact (Option.some.inj same).symm
    have step : ∀ path, Answers (if (parsePath text).absolute = true ∨ tree.inside path = false then
          (pure ([say [label,"unresolvable raw artifact: path escapes repository root"]],none) :
            Except PyError (List PyString × Option PyString))
        else readResolved library tree text expected label path) ↔
          ((parsePath text).absolute = false → tree.inside path = true →
            ∃ found, tree.isFile path = .ok found ∧ (found = true → Answers (tree.readBytes path))) := by
      intro path
      by_cases outside : (parsePath text).absolute = true ∨ tree.inside path = false
      · rw [if_pos outside]
        refine ⟨fun _ relative within => ?_,fun _ => answers_pure _⟩
        exact absurd outside (by simp [relative, within])
      · rw [if_neg outside, readResolved, answers_bind]
        obtain ⟨relative,within⟩ := not_or.mp outside
        constructor
        · rintro ⟨found,asked,rest⟩ _ _
          exact ⟨found,asked,(answers_found library tree).mp rest⟩
        · intro answers
          obtain ⟨found,asked,rest⟩ := answers (by simpa using relative) (by simpa using within)
          exact ⟨found,asked,(answers_found library tree).mpr rest⟩
    show Answers (_ >>= _) ↔ _
    rw [answers_bind]
    constructor
    · rintro ⟨path,resolved,rest⟩ other same _
      rw [only other same]
      exact ⟨path,resolved,(step path).mp rest⟩
    · intro readable
      obtain ⟨path,resolved,rest⟩ := readable text known filled
      exact ⟨path,resolved,(step path).mpr rest⟩

end Values

section Entries

variable (library : Library) (tree : Tree) (recordPass : Bool) (cohort : Cohort)

/-- A path that the check finds inside the repository. -/
def Contained (value : PyData) : Prop :=
  ∃ text, textOf value = some text ∧ blank text = false ∧ (parsePath text).absolute = false ∧
    parent ∉ (parsePath text).parts ∧
    ∃ path, tree.resolve (tree.join (parsePath text)) = .ok path ∧ tree.inside path = true

theorem contained_iff (value : PyData) (field label : PyString) :
    containedPathDefect library tree value field label = .ok [] ↔ Contained tree value := by
  unfold containedPathDefect Contained
  cases shown : (textOf value).filter (fun text => !blank text) with
  | none =>
    refine ⟨fun clean => absurd clean (by simp),?_⟩
    rintro ⟨text,known,written,-⟩
    rw [known] at shown
    simp [written] at shown
  | some text =>
    obtain ⟨known,written⟩ := Option.filter_eq_some_iff.mp shown
    have filled : blank text = false := by simpa using written
    dsimp only
    by_cases outside : (parsePath text).absolute = true ∨ parent ∈ (parsePath text).parts
    · rw [if_pos outside]
      refine ⟨fun clean => absurd clean (by simp),?_⟩
      rintro ⟨other,same,-,relative,stays,-⟩
      rw [known] at same
      cases same
      exact absurd outside (not_or.mpr ⟨by simp [relative],stays⟩)
    · rw [if_neg outside]
      obtain ⟨relative,stays⟩ := not_or.mp outside
      simp only [bind_ok, pure_ok]
      constructor
      · rintro ⟨path,resolved,within⟩
        have kept : tree.inside path = true := by
          by_contra escapes
          rw [if_neg escapes] at within
          cases within
        exact ⟨text,known,filled,by simpa using relative,stays,path,resolved,kept⟩
      · rintro ⟨other,same,-,-,-,path,resolved,within⟩
        rw [known] at same
        cases same
        exact ⟨path,resolved,if_pos within⟩

/-- An execution whose text shows no defect, so that its artifact is read. -/
structure Presentable (index : ℕ) (seen : Seen) (execution : PyFields) : Prop where
  tool : ∃ name, get execution "tool" = .str name ∧ evidenceToolId name = true ∧ name ∉ seen.tools
  evidenceClass : ∃ name ∈ evidenceClasses, get execution "evidence_class" = .str name ∧
    ∀ kind ∈ cohort.obligationKind, name ∈ compatibility kind
  command : argv (get execution "command") = true
  cwd : Contained tree (get execution "cwd")
  toolchain : validToolchain (get execution "toolchain_digests") = true
  outcome : ∃ name ∈ results, get execution "result" = .str name ∧
    (recordPass = true → name = ("PASS" : PyString))
  run : written (get execution "run_id") = true
  path : ∀ path, textOf (get execution "raw_output_path") = some path → path ≠ [] →
    firstUse seen index path = index ∧ ∀ run, textOf (get execution "run_id") = some run →
      cohort.producer = true → path = producerArtifact cohort.claimId run
  marker : has execution "pass_marker" = true → nonemptyText (get execution "pass_marker") = true

variable {library tree recordPass cohort}

theorem pathDefects_free {index : ℕ} {rawRelative runId : PyData} {label : PyString} {seen : Seen} :
    (pathDefects library cohort index rawRelative runId label seen).1 = [] ↔
      ∀ path, textOf rawRelative = some path → path ≠ [] → firstUse seen index path = index ∧
        ∀ run, textOf runId = some run → cohort.producer = true →
          path = producerArtifact cohort.claimId run := by
  unfold pathDefects
  cases shown : (textOf rawRelative).filter (fun path => !path.isEmpty) with
  | none =>
    refine ⟨fun _ path known named => ?_,fun _ => rfl⟩
    rw [known] at shown
    simp [named] at shown
  | some path =>
    obtain ⟨known,filled⟩ := Option.filter_eq_some_iff.mp shown
    have named : path ≠ [] := by
      rintro rfl
      exact absurd filled (by decide)
    simp only [List.append_eq_nil_iff, finding_nil, artifactNameDefects]
    constructor
    · rintro ⟨first,produced⟩ other same _
      rw [known] at same
      cases same
      refine ⟨first,fun run shownRun => ?_⟩
      rw [shownRun] at produced
      simpa using produced
    · intro each
      obtain ⟨first,produced⟩ := each path known named
      refine ⟨first,?_⟩
      cases shownRun : textOf runId with
      | none => rfl
      | some run => simpa using produced run shownRun

theorem toolDefects_paths {tool : PyData} {label : PyString} {seen : Seen} :
    (toolDefects library tool label seen).2.paths = seen.paths := by
  unfold toolDefects
  split
  · rfl
  · split_ifs <;> rfl

/-- The tools and artifacts after an execution, whatever is found in it. -/
def remember (library : Library) (cohort : Cohort) (seen : Seen) (entry : PyData × ℕ) : Seen :=
  match readableEntry library entry.1 (entryLabel entry.2) with
  | .inl _ => seen
  | .inr execution => (pathDefects library cohort entry.2 (get execution "raw_output_path")
      (get execution "run_id") (entryLabel entry.2)
      (toolDefects library (get execution "tool") (entryLabel entry.2) seen).2).2

theorem presentable_iff {index : ℕ} {seen : Seen} {execution : PyFields} :
    (∃ m, entryDefects library (containedCwd library tree) (beneathPass library recordPass) cohort
      index seen execution = .ok ([],m)) ↔
        Presentable tree recordPass cohort index seen execution := by
  simp only [entryDefects_clean]
  have fresh : ∀ path, firstUse (toolDefects library (get execution "tool") (entryLabel index)
      seen).2 index path = firstUse seen index path := by
    intro path
    rw [firstUse, toolDefects_paths, firstUse]
  have rule : ∀ name, beneathPass library recordPass (entryLabel index) name = [] ↔
      (recordPass = true → name = ("PASS" : PyString)) := fun name => finding_nil
  constructor
  · rintro ⟨m,tool,classed,command,stayed,identity,resulted,run,path,marker⟩
    obtain ⟨name,isName,spelled,new,-⟩ := toolDefects_clean.mp tool
    obtain ⟨r,among,isResult,passes⟩ := resultDefects_clean.mp resulted
    have free := pathDefects_free.mp (congrArg Prod.fst path)
    simp only [fresh] at free
    exact ⟨⟨name,isName,spelled,new⟩,classDefects_clean.mp classed,command,
      (contained_iff library tree _ _ _).mp stayed,identity,⟨r,among,isResult,(rule r).mp passes⟩,
      run,free,marker⟩
  · intro fine
    obtain ⟨name,isName,spelled,new⟩ := fine.tool
    obtain ⟨r,among,isResult,passes⟩ := fine.outcome
    have tool : (toolDefects library (get execution "tool") (entryLabel index) seen).1 = [] := by
      rw [isName, toolDefects]
      have kept : (textOf (.str name)).filter evidenceToolId = some name := by
        simp [textOf, Option.filter, spelled]
      simp only [kept]
      rw [if_neg new]
    have free : (pathDefects library cohort index (get execution "raw_output_path")
        (get execution "run_id") (entryLabel index)
        (toolDefects library (get execution "tool") (entryLabel index) seen).2).1 = [] := by
      rw [pathDefects_free]
      simp only [fresh]
      exact fine.path
    exact ⟨_,tool,classDefects_clean.mpr fine.evidenceClass,fine.command,
      (contained_iff library tree _ _ _).mpr fine.cwd,fine.toolchain,
      resultDefects_clean.mpr ⟨r,among,isResult,(rule r).mpr passes⟩,fine.run,
      Prod.ext free rfl,fine.marker⟩

/-- What the check asks about an execution is answered. -/
structure ExecutionAnswers (tree : Tree) (recordPass : Bool) (cohort : Cohort) (index : ℕ)
    (seen : Seen) (execution : PyFields) : Prop where
  evidenceClass : hashable (get execution "evidence_class") = true
  result : hashable (get execution "result") = true
  cwd : Located tree (get execution "cwd")
  artifact : Presentable tree recordPass cohort index seen execution →
    Readable tree (get execution "raw_output_path")

/-- An entry that is no object or lacks a field is not looked into. -/
def EntryAnswers (tree : Tree) (recordPass : Bool) (cohort : Cohort) (seen : Seen)
    (entry : PyData × ℕ) : Prop :=
  ∀ execution, entry.1 = .dict execution → (∀ field ∈ executionFields, has execution field = true) →
    ExecutionAnswers tree recordPass cohort entry.2 seen execution

theorem answers_entryDefects {index : ℕ} {seen : Seen} {execution : PyFields} :
    Answers (entryDefects library (containedCwd library tree) (beneathPass library recordPass)
      cohort index seen execution) ↔
        hashable (get execution "evidence_class") = true ∧
        hashable (get execution "result") = true ∧ Located tree (get execution "cwd") := by
  have classes : Answers (classDefects library cohort (get execution "evidence_class")
      (entryLabel index)) ↔ hashable (get execution "evidence_class") = true := by
    rw [classDefects, answers_map, answers_member]
  have outcomes : Answers (resultDefects library (beneathPass library recordPass (entryLabel index))
      (get execution "result") (entryLabel index)) ↔ hashable (get execution "result") = true := by
    rw [resultDefects, answers_map, answers_member]
  have cwds := answers_contained library tree (get execution "cwd") "cwd" (entryLabel index)
  rw [← classes, ← outcomes, ← cwds]
  unfold entryDefects
  simp only [answers_bind]
  constructor
  · rintro ⟨c,classed,d,stayed,r,resulted,-⟩
    exact ⟨⟨c,classed⟩,⟨r,resulted⟩,⟨d,stayed⟩⟩
  · rintro ⟨⟨c,classed⟩,⟨r,resulted⟩,⟨d,stayed⟩⟩
    exact ⟨c,classed,d,stayed,r,resulted,answers_pure _⟩

theorem entryDefects_leaves {index : ℕ} {seen : Seen} {execution : PyFields}
    {r : List PyString × Seen}
    (judged : entryDefects library (containedCwd library tree) (beneathPass library recordPass)
      cohort index seen execution = .ok r) :
    r.2 = (pathDefects library cohort index (get execution "raw_output_path")
      (get execution "run_id") (entryLabel index)
      (toolDefects library (get execution "tool") (entryLabel index) seen).2).2 := by
  unfold entryDefects at judged
  simp only [bind_ok, pure_ok] at judged
  obtain ⟨c,-,d,-,o,-,rfl⟩ := judged
  rfl

theorem executionDefects_leaves (seen : Seen) (entry : PyData × ℕ) (r : List PyString × Seen)
    (judged : executionDefects library tree recordPass cohort seen entry = .ok r) :
    r.2 = remember library cohort seen entry := by
  unfold executionDefects at judged
  unfold remember
  cases reads : readableEntry library entry.1 (entryLabel entry.2) with
  | inl unreadable =>
    rw [reads] at judged
    cases (pure_ok _ _).mp judged
    rfl
  | inr execution =>
    rw [reads] at judged
    simp only [bind_ok, pure_ok] at judged
    obtain ⟨found,texts,defects,-,rfl⟩ := judged
    have left := entryDefects_leaves texts
    exact left

theorem answers_execution (seen : Seen) (entry : PyData × ℕ) :
    Answers (executionDefects library tree recordPass cohort seen entry) ↔
      EntryAnswers tree recordPass cohort seen entry := by
  unfold executionDefects EntryAnswers
  cases reads : readableEntry library entry.1 (entryLabel entry.2) with
  | inl unreadable =>
    refine ⟨fun _ execution same present => ?_,fun _ => answers_pure _⟩
    rw [readableEntry_fields.mpr ⟨same,present⟩] at reads
    cases reads
  | inr execution =>
    obtain ⟨same,present⟩ := readableEntry_fields.mp reads
    have artifact : Answers (artifactDefects library tree execution (entryLabel entry.2)) ↔
        Readable tree (get execution "raw_output_path") := by
      rw [artifactDefects, answers_map, answers_artifact]
    have texts : Answers (entryDefects library (containedCwd library tree)
        (beneathPass library recordPass) cohort entry.2 seen execution) ↔ _ := answers_entryDefects
    dsimp only
    rw [answers_bind]
    constructor
    · rintro ⟨judged,ok,rest⟩ other equal _
      rw [same] at equal
      cases equal
      obtain ⟨classed,resulted,stayed⟩ := texts.mp ⟨judged,ok⟩
      refine ⟨classed,resulted,stayed,fun fine => artifact.mp ?_⟩
      obtain ⟨m,clean⟩ := presentable_iff.mpr fine
      rw [ok] at clean
      cases clean
      exact (answers_settle [] _).mp ((answers_map _ _).mp rest) rfl
    · intro each
      have sound := each execution same present
      obtain ⟨judged,ok⟩ := texts.mpr ⟨sound.evidenceClass,sound.result,sound.cwd⟩
      refine ⟨judged,ok,(answers_map _ _).mpr ((answers_settle _ _).mpr fun clean => ?_)⟩
      have faultless : entryDefects library (containedCwd library tree)
          (beneathPass library recordPass) cohort entry.2 seen execution = .ok ([],judged.2) := by
        rw [ok]
        exact congrArg Except.ok (Prod.ext clean rfl)
      exact artifact.mpr (sound.artifact (presentable_iff.mp ⟨judged.2,faultless⟩))

end Entries

section Records

variable (library : Library) (tree : Tree)

/-- The record shows no defect before its bindings are compared with anything. -/
structure WellShaped (fields bindings : PyFields) : Prop where
  claim : nonemptyText (get fields "claim_id") = true
  required : isBool (get fields "required") = true
  evidenceClass : ∃ name ∈ evidenceClasses, get fields "evidence_class" = .str name
  result : ∃ name ∈ results, get fields "result" = .str name
  scope : written (get fields "scope") = true
  shape : shapeDefects library fields bindings = []

/-- Each execution is answered in the state that the entries before it leave. -/
def CohortAnswers (fields bindings : PyFields) (kind : Option ObligationKind) : Prop :=
  ∀ executions, get bindings "executions" = .list executions → ∀ before entry after,
    executions.zipIdx = before ++ entry :: after →
      EntryAnswers tree (isPass (get fields "result")) (cohortOf fields bindings kind)
        (before.foldl (remember library (cohortOf fields bindings kind)) ⟨[],[]⟩) entry

/-- The file system and the sets of names answer what the check asks of a record. -/
structure RecordAnswers (fields : PyFields) (kind : Option ObligationKind) : Prop where
  evidenceClass : hashable (get fields "evidence_class") = true
  result : hashable (get fields "result") = true
  intentPath : ∀ bindings, get fields "bindings" = .dict bindings →
    WellShaped library fields bindings → cohortSchema bindings = true →
      Located tree (get bindings "intent_path")
  cohort : ∀ bindings, get fields "bindings" = .dict bindings →
    WellShaped library fields bindings → cohortSchema bindings = true →
      CohortAnswers library tree fields bindings kind
  artifact : ∀ bindings, get fields "bindings" = .dict bindings →
    WellShaped library fields bindings → cohortSchema bindings = false →
      isPass (get fields "result") = true → Readable tree (get bindings "raw_output_path")

variable {library tree} {fields bindings : PyFields} {expect : Expectations}
  {kind : Option ObligationKind} {evidence : Option (List PyString)}

theorem answers_topDefects : Answers (topDefects library fields) ↔
    hashable (get fields "evidence_class") = true ∧ hashable (get fields "result") = true := by
  rw [← answers_member evidenceClasses, ← answers_member results]
  unfold topDefects
  simp only [answers_bind]
  constructor
  · rintro ⟨c,classed,r,resulted,-⟩
    exact ⟨⟨c,classed⟩,⟨r,resulted⟩⟩
  · rintro ⟨⟨c,classed⟩,⟨r,resulted⟩⟩
    exact ⟨c,classed,r,resulted,answers_pure _⟩

theorem answers_intentPath : Answers (intentPathDefects library tree bindings expect) ↔
    Located tree (get bindings "intent_path") := by
  rw [intentPathDefects, answers_bind, ← answers_contained library tree _ "intent_path" []]
  constructor
  · rintro ⟨found,contained,-⟩
    exact ⟨found,contained⟩
  · rintro ⟨found,contained⟩
    exact ⟨found,contained,(answers_settle _ _).mpr (fun _ => answers_pure _)⟩

theorem answers_cohort : Answers (cohortDefects library tree fields bindings kind) ↔
    CohortAnswers library tree fields bindings kind := by
  unfold cohortDefects CohortAnswers
  cases held : get bindings "executions" with
  | list executions =>
    cases executions with
    | nil =>
      refine ⟨fun _ executions same before entry after whole => ?_,fun _ => answers_pure _⟩
      cases same
      simp at whole
    | cons primary rest =>
      have leaves : ∀ s x r, executionDefects library tree (isPass (get fields "result"))
          (cohortOf fields bindings kind) s x = .ok r →
          r.2 = remember library (cohortOf fields bindings kind) s x := executionDefects_leaves
      have loop := answers_gather (remember library (cohortOf fields bindings kind)) leaves ⟨[],[]⟩
        (primary :: rest).zipIdx
      simp only [answers_execution] at loop
      show Answers (_ >>= _) ↔ _
      rw [answers_bind]
      constructor
      · rintro ⟨found,gathered,-⟩ executions same
        cases same
        exact loop.mp ⟨found,gathered⟩
      · intro each
        obtain ⟨found,gathered⟩ := loop.mpr (each (primary :: rest) rfl)
        exact ⟨found,gathered,(answers_settle _ _).mpr (fun _ => answers_pure _)⟩
  | _ => exact ⟨fun _ => nofun,fun _ => answers_pure _⟩

theorem answers_single : Answers (rawArtifactDefects library tree fields bindings) ↔
    Readable tree (get bindings "raw_output_path") := by
  rw [rawArtifactDefects, answers_map, answers_artifact]

theorem wellShaped_iff : (topDefects library fields = .ok [] ∧
    shapeDefects library fields bindings = []) ↔ WellShaped library fields bindings := by
  rw [topDefects_clean]
  exact ⟨fun ⟨⟨claim,required,classed,resulted,scope⟩,shape⟩ =>
      ⟨claim,required,classed,resulted,scope,shape⟩,
    fun shaped => ⟨⟨shaped.claim,shaped.required,shaped.evidenceClass,shaped.result,shaped.scope⟩,
      shaped.shape⟩⟩

theorem answers_bound : Answers (boundDefects library tree fields bindings expect kind evidence) ↔
    (cohortSchema bindings = true → Located tree (get bindings "intent_path") ∧
      CohortAnswers library tree fields bindings kind) ∧
    (cohortSchema bindings = false → isPass (get fields "result") = true →
      Readable tree (get bindings "raw_output_path")) := by
  rw [boundDefects, answers_map, treeDefects]
  cases schema : cohortSchema bindings with
  | true =>
    rw [if_pos rfl, answers_bind, ← answers_cohort]
    constructor
    · rintro ⟨target,located,rest⟩
      exact ⟨fun _ => ⟨answers_intentPath.mp ⟨target,located⟩,(answers_map _ _).mp rest⟩,by rintro ⟨⟩⟩
    · rintro ⟨both,-⟩
      obtain ⟨located,cohort⟩ := both rfl
      have asked : Answers (intentPathDefects library tree bindings expect) :=
        answers_intentPath.mpr located
      obtain ⟨target,found⟩ := asked
      exact ⟨target,found,(answers_map _ _).mpr cohort⟩
  | false =>
    rw [if_neg Bool.false_ne_true]
    by_cases passed : isPass (get fields "result") = true
    · rw [if_pos passed, answers_single]
      exact ⟨fun readable => ⟨by rintro ⟨⟩,fun _ _ => readable⟩,fun both => both.2 rfl passed⟩
    · rw [if_neg passed]
      exact ⟨fun _ => ⟨by rintro ⟨⟩,fun _ holds => absurd holds passed⟩,fun _ => answers_pure _⟩

/-- The check answers a record exactly when the class and the result of the record and
of each execution it looks into can be hashed, and the file system answers for the
paths that it asks about. -/
theorem validates_iff (library : Library) (tree : Tree) (record : PyData) (expect : Expectations)
    (kind : Option ObligationKind) (evidence : Option (List PyString)) :
    (∃ defects, validateRecord library tree record expect kind evidence = .ok defects) ↔
      ∀ fields, record = .dict fields → (∀ field ∈ topFields, has fields field = true) →
        RecordAnswers library tree fields kind := by
  show Answers _ ↔ _
  unfold validateRecord
  cases record with
  | dict fields =>
    have present : missingFields library fields = [] ↔
        ∀ field ∈ topFields, has fields field = true := by
      rw [missingFields, List.map_eq_nil_iff, List.filter_eq_nil_iff]
      exact forall₂_congr (fun field _ => by simp)
    dsimp only
    rw [answers_settle, present, recordDefects, answers_bind]
    constructor
    · rintro answer other same whole
      cases same
      obtain ⟨top,topped,rest⟩ := answer whole
      obtain ⟨classed,resulted⟩ := answers_topDefects.mp ⟨top,topped⟩
      have later : ∀ bindings, get fields "bindings" = .dict bindings →
          WellShaped library fields bindings →
          Answers (boundDefects library tree fields bindings expect kind evidence) := by
        intro bindings bound shaped
        obtain ⟨clean,shape⟩ := wellShaped_iff.mpr shaped
        rw [topped] at clean
        cases clean
        rw [bound] at rest
        exact (answers_settle _ _).mp rest (by rw [shape]; rfl)
      constructor
      · exact classed
      · exact resulted
      · exact fun bindings bound shaped schema =>
          ((answers_bound.mp (later bindings bound shaped)).1 schema).1
      · exact fun bindings bound shaped schema =>
          ((answers_bound.mp (later bindings bound shaped)).1 schema).2
      · exact fun bindings bound shaped schema =>
          (answers_bound.mp (later bindings bound shaped)).2 schema
    · intro each whole
      have sound := each fields rfl whole
      have looked : Answers (topDefects library fields) :=
        answers_topDefects.mpr ⟨sound.evidenceClass,sound.result⟩
      obtain ⟨top,topped⟩ := looked
      refine ⟨top,topped,?_⟩
      cases bound : get fields "bindings" with
      | dict bindings =>
        refine (answers_settle _ _).mpr (fun clean => ?_)
        obtain ⟨none,shape⟩ := List.append_eq_nil_iff.mp clean
        rw [none] at topped
        have shaped := wellShaped_iff.mp ⟨topped,shape⟩
        exact answers_bound.mpr ⟨fun schema => ⟨sound.intentPath bindings bound shaped schema,
          sound.cohort bindings bound shaped schema⟩,sound.artifact bindings bound shaped⟩
      | _ => exact answers_pure _
  | _ => exact ⟨fun _ => by rintro _ ⟨⟩,fun _ => answers_pure _⟩

/-- A record with an array for its class. -/
def listedClass : PyData := .dict
  [("claim_id",.str "c"),("required",.bool true),("evidence_class",.list []),("result",.str "PASS"),
    ("scope",.str "s"),("bindings",.dict []),("waiver",.none)]

/-- The check raises on it, and no verdict is given. -/
theorem listed_class_raises : (¬ ∃ defects, validateRecord GateVerdict.sampleLibrary
      GateVerdict.sampleTree listedClass GateVerdict.sampleExpectations none none = .ok defects) ∧
    ¬ ∃ report, GateRun.main GateVerdict.sampleLibrary (GateVerdict.sampleArguments [listedClass])
      GateVerdict.sampleProject = .ok report := by
  have raised : validateRecord GateVerdict.sampleLibrary GateVerdict.sampleTree listedClass
      GateVerdict.sampleExpectations none none =
        .error (.typeError "unhashable type: 'list'") := by decide +kernel
  have crashed : (GateRun.main GateVerdict.sampleLibrary
      (GateVerdict.sampleArguments [listedClass]) GateVerdict.sampleProject).isOk = false := by
    decide +kernel
  constructor
  · rintro ⟨defects,answered⟩
    rw [raised] at answered
    cases answered
  · rintro ⟨report,answered⟩
    rw [answered] at crashed
    cases crashed

end Records

end GateTotality

end EvidenceV4
