import EvidenceV4.ObligationCheck

/-!
# What an acceptance rests on

A check accepts exactly when every obligation is met, where any failure of a
verification counts as a witness. Each part of the check is met on its own, and
an exception anywhere leaves nothing to accept.
-/

set_option autoImplicit false

namespace EvidenceV4

namespace Obligation

open CheckedExcept
open CheckerJson (PyString points)
open EvidenceArtifact (splitlines)
open PolicyDocument (mapGet)
open PythonData

section Loops

universe u v
variable {ε : Type u} {α β : Type v} {f : α → Except ε β} {P : β → Prop} {xs : List α}

/-- A mapped loop gives good elements exactly when each element maps to a good one. -/
theorem mapM_each : (∃ ys, xs.mapM f = .ok ys ∧ ∀ y ∈ ys, P y) ↔ ∀ x ∈ xs, ∃ y, f x = .ok y ∧ P y := by
  induction xs with
  | nil => simp
  | cons x xs ih =>
    rw [List.forall_mem_cons, ← ih]
    simp only [List.mapM_cons, bind_ok, pure_ok]
    constructor
    · rintro ⟨_,⟨y,first,ys,later,rfl⟩,good⟩
      obtain ⟨now,rest⟩ := List.forall_mem_cons.mp good
      exact ⟨⟨y,first,now⟩,ys,later,rest⟩
    · rintro ⟨⟨y,first,now⟩,ys,later,rest⟩
      exact ⟨y :: ys,⟨y,first,ys,later,rfl⟩,List.forall_mem_cons.mpr ⟨now,rest⟩⟩

end Loops

section Statements

variable (python : Interpreter) (tool : Tool) (directory : Directory)

/-- The call can be made, and its outcome is of a kind. -/
def Calls (site : Site) (call : Raising Invocation) (kind : Outcome → Prop) : Prop :=
  ∃ invocation, call = .ok invocation ∧ ∃ outcome, tool site invocation = .ok outcome ∧ kind outcome

def Reports (outcome : Outcome) : Prop := outcome.violation = true

/-- The run reports a violation, or else the verification has an outcome that counts. -/
def Witnessed (counts : Outcome → Prop) (runSite verifySite : Site) (run verify : Raising Invocation) :
    Prop :=
  Calls tool runSite run Reports ∨
    Calls tool runSite run (fun outcome => ¬ Reports outcome) ∧ Calls tool verifySite verify counts

variable (subject : Subject)

/-- An invariant is defined, as it was pinned, about the state, and verified. -/
def InvariantMet (index : ℕ) (entry : PyData) : Prop :=
  ∃ fields name definition, entry = .dict fields ∧ mapGet fields (points "name") = some (.str name) ∧
    extractDefinition python.word subject.specText name = some definition ∧
    (truthy (PythonData.get fields "definition_sha256") = true →
      PythonData.get fields "definition_sha256" = .str (python.textSha256 definition)) ∧
    ReferencesState python.word subject.specText name definition ∧
    Calls tool (.safety index) (inCopy python subject "verify" [invariantOption name] false)
      (fun outcome => outcome.returncode = 0)

variable (counts : Outcome → Prop)

def WitnessReached (index : ℕ) (name : PyString) : Prop :=
  Witnessed tool counts (.witnessRun index) (.witnessVerify index)
    (inCopy python subject "run" [invariantOption name] true)
    (inCopy python subject "verify" [invariantOption name] false)

def WitnessMet (index : ℕ) (entry : PyData) : Prop :=
  ∃ fields name, entry = .dict fields ∧ mapGet fields (points "name") = some (.str name) ∧
    (∃ definition, extractDefinition python.word subject.specText name = some definition) ∧
    WitnessReached python tool subject counts index name

def TransitionMet (probes : Probes) (index : ℕ) (transition : PyData) : Prop :=
  Witnessed tool counts (.probeRun index) (.probeVerify index)
    (probeCall python subject probes (python.str transition) "run" true)
    (probeCall python subject probes (python.str transition) "verify" false)

/-- Each entry of a list of the manifest meets its obligation. -/
def EachMet (manifest : PyFields) (key : PyString) (met : ℕ → PyData → Prop) : Prop :=
  ∃ entries, members (getOr manifest key (.list [])) = .ok entries ∧
    ∀ entry ∈ entries.zipIdx, met entry.2 entry.1

/-- The obligations of a manifest over a specification. -/
structure Obligations (manifest : PyFields) (mainFile : PyString) : Prop where
  typechecked : ∃ outcome, tool .typecheck ⟨[points "typecheck",subject.mainName],none⟩ = .ok outcome ∧
    outcome.returncode = 0
  invariants : EachMet manifest "invariants" (InvariantMet python tool subject)
  witnesses : EachMet manifest "witnesses" (WitnessMet python tool subject counts)
  transitions : ∃ probes, probesOf python manifest mainFile = .ok probes ∧
    EachMet manifest "transitions" (TransitionMet python tool subject counts probes)

/-- The intent is the text that the manifest was frozen with. -/
def IntentKept (manifest : PyFields) (path : PyString) : Prop :=
  truthy (PythonData.get manifest "intent_sha256") = true → ∃ text, directory.intent path = .ok text ∧
    PythonData.get manifest "intent_sha256" = .str (python.textSha256 text)

/-- The manifest that a check reads, and the specification that it names. -/
structure Reads (text : PyString) (manifest : PyFields) (mainFile : PyString) (specs : List PyString) :
    Prop where
  loads : python.loads text = some (.dict manifest)
  spec : ∃ specDir, textItem manifest "spec_dir" = .ok specDir ∧ directory.inTree specDir = true ∧
    directory.specs specDir = .ok specs
  intent : ∃ path, textItem manifest "intent_path" = .ok path ∧ IntentKept python directory manifest path
  mainFile : textItem manifest "main_file" = .ok mainFile
  version : ∃ outcome, tool .version ⟨[points "--version"],none⟩ = .ok outcome

def subjectOf (manifest : PyFields) (mainFile : PyString) (specs : List PyString) : Subject :=
  ⟨joined "\n" specs,fileName mainFile,getOr manifest "bounds" (.dict [])⟩

/-- Every obligation of the manifest in a text is met. -/
def Fulfilled (text : PyString) : Prop :=
  ∃ manifest mainFile specs, Reads python tool directory text manifest mainFile specs ∧
    Obligations python tool (subjectOf manifest mainFile specs) counts manifest mainFile

end Statements

section Parts

variable {python : Interpreter} {tool : Tool} {subject : Subject} {index : ℕ} {entry : PyData}
  {fields : PyFields} {name definition : PyString}

theorem calls_iff {site : Site} {call : Raising Invocation} {kind : Outcome → Prop} :
    Calls tool site call kind ↔ ∃ outcome, (call >>= tool site) = .ok outcome ∧ kind outcome := by
  simp only [Calls, bind_ok]
  constructor
  · rintro ⟨invocation,made,outcome,answered,good⟩
    exact ⟨outcome,⟨invocation,made,answered⟩,good⟩
  · rintro ⟨outcome,⟨invocation,made,answered⟩,good⟩
    exact ⟨invocation,made,outcome,answered,good⟩

theorem frozen_ok {actual : PyString} {pin : PyData} :
    (∀ result ∈ frozen name actual pin, result.ok = true) ↔ (truthy pin = true → pin = .str actual) := by
  unfold frozen
  split
  · rename_i pinned
    simp [pinned, equal_str]
  · rename_i unpinned
    simp [unpinned]

theorem frozenDiffs_nil {actual : PyString} {pin : PyData} (h : truthy pin = true → pin = .str actual) :
    frozenDiffs name actual definition pin = [] := by
  unfold frozenDiffs
  split
  · rename_i differs
    rw [h differs.1] at differs
    simp [equal] at differs
  · rfl

theorem item_ok {key : PyString} {value : PyData} :
    item fields key = .ok value ↔ mapGet fields key = some value := by
  unfold item
  split <;> rename_i found <;> simp [found]

theorem definitionOf_some {value : PyData} : definitionOf python subject value = .ok (some (name,definition)) ↔
    value = .str name ∧ extractDefinition python.word subject.specText name = some definition := by
  unfold definitionOf
  split
  · rename_i text
    simp only [pure_ok, Option.map_eq_some_iff, Prod.mk.injEq, PyData.str.injEq]
    constructor
    · rintro ⟨d,found,rfl,rfl⟩
      exact ⟨rfl,found⟩
    · rintro ⟨rfl,found⟩
      exact ⟨definition,found,rfl,rfl⟩
  · rename_i other
    split
    · simp only [pure_ok, reduceCtorEq, false_iff, not_and]
      intro text
      exact absurd text (other name)
    · simp only [throw_ok, false_iff, not_and]
      intro text
      exact absurd text (other name)

theorem checkDefinition_met : (∃ part, checkDefinition python tool subject index fields name definition = .ok part ∧
      ∀ result ∈ part.results, result.ok = true) ↔
    (truthy (PythonData.get fields "definition_sha256") = true →
      PythonData.get fields "definition_sha256" = .str (python.textSha256 definition)) ∧
    ReferencesState python.word subject.specText name definition ∧
    Calls tool (.safety index) (inCopy python subject "verify" [invariantOption name] false)
      (fun outcome => outcome.returncode = 0) := by
  rw [calls_iff, ← @frozen_ok name, ← vacuous_false python.space]
  simp only [checkDefinition, bind_ok, pure_ok]
  constructor
  · rintro ⟨_,⟨call,made,outcome,answered,rfl⟩,good⟩
    simp only [List.cons_append, List.mem_cons, List.mem_append, List.not_mem_nil, or_false] at good
    refine ⟨fun result listed => good result (.inr (.inl listed)),?_,outcome,⟨call,made,answered⟩,?_⟩
    · have fine := good _ (.inr (.inr (.inl rfl)))
      simpa [vacuity] using fine
    · have fine := good _ (.inr (.inr (.inr rfl)))
      simpa [safety] using fine
  · rintro ⟨same,state,outcome,⟨call,made,answered⟩,passed⟩
    refine ⟨_,⟨call,made,outcome,answered,rfl⟩,?_⟩
    intro result listed
    simp only [List.cons_append, List.mem_cons, List.mem_append, List.not_mem_nil, or_false] at listed
    rcases listed with rfl | known | rfl | rfl
    · rfl
    · exact same result known
    · simp [vacuity, state]
    · simp [safety, passed]

theorem checkInvariant_met : (∃ part, checkInvariant python tool subject index entry = .ok part ∧
      ∀ result ∈ part.results, result.ok = true) ↔ InvariantMet python tool subject index entry := by
  constructor
  · rintro ⟨part,checked,good⟩
    cases entry with
    | dict fields =>
      simp only [checkInvariant, bind_ok, item_ok] at checked
      obtain ⟨value,known,found,read,checked⟩ := checked
      cases found with
      | none =>
        simp only [pure_ok] at checked
        subst checked
        simp [presence] at good
      | some pair =>
        obtain ⟨name,definition⟩ := pair
        obtain ⟨rfl,defined⟩ := definitionOf_some.mp read
        have met := checkDefinition_met.mp ⟨part,checked,good⟩
        exact ⟨fields,name,definition,rfl,known,defined,met⟩
    | _ => simp [checkInvariant] at checked
  · rintro ⟨fields,name,definition,rfl,known,defined,met⟩
    obtain ⟨part,checked,good⟩ := checkDefinition_met.mpr met
    refine ⟨part,?_,good⟩
    simp only [checkInvariant, bind_ok, item_ok]
    exact ⟨_,known,_,definitionOf_some.mpr ⟨rfl,defined⟩,checked⟩

/-- The checker takes any failure of a verification for a witness. -/
theorem reach_met {obligation detail : PyString} {target : PyData} {runSite verifySite : Site}
    {run verify : Raising Invocation} :
    (∃ result, reach python tool subject obligation target detail runSite verifySite run verify =
      .ok result ∧ result.ok = true) ↔
    Witnessed tool (fun outcome => outcome.returncode ≠ 0) runSite verifySite run verify := by
  simp only [reach, Witnessed, Calls, bind_ok, Reports]
  constructor
  · rintro ⟨result,⟨call,made,tried,answered,rest⟩,good⟩
    split at rest
    · rename_i reported
      exact .inl ⟨call,made,tried,answered,reported⟩
    · rename_i quiet
      simp only [bind_ok] at rest
      obtain ⟨again,remade,verified,replied,rest⟩ := rest
      split at rest
      · simp only [pure_ok] at rest
        rw [← rest] at good
        exact absurd good (by simp)
      · rename_i failed
        exact .inr ⟨⟨call,made,tried,answered,quiet⟩,again,remade,verified,replied,failed⟩
  · rintro (⟨call,made,tried,answered,reported⟩ |
      ⟨⟨call,made,tried,answered,quiet⟩,again,remade,verified,replied,failed⟩)
    · refine ⟨⟨obligation,target,true,"witnessed (run trace)",[]⟩,⟨call,made,tried,answered,?_⟩,rfl⟩
      rw [if_pos reported]
      rfl
    · refine ⟨⟨obligation,target,true,"witnessed (verify counterexample)",[]⟩,
        ⟨call,made,tried,answered,?_⟩,rfl⟩
      rw [if_neg quiet]
      simp only [bind_ok]
      refine ⟨again,remade,verified,replied,?_⟩
      rw [if_neg failed]
      rfl

theorem checkWitness_met : (∃ results, checkWitness python tool subject index entry = .ok results ∧
      ∀ result ∈ results, result.ok = true) ↔
    WitnessMet python tool subject (fun outcome => outcome.returncode ≠ 0) index entry := by
  constructor
  · rintro ⟨results,checked,good⟩
    cases entry with
    | dict fields =>
      simp only [checkWitness, bind_ok, item_ok] at checked
      obtain ⟨value,known,found,read,checked⟩ := checked
      cases found with
      | none =>
        simp only [pure_ok] at checked
        subst checked
        simp [presence] at good
      | some pair =>
        obtain ⟨name,definition⟩ := pair
        obtain ⟨rfl,defined⟩ := definitionOf_some.mp read
        simp only [bind_ok, pure_ok] at checked
        obtain ⟨reached,ran,rfl⟩ := checked
        have fine : reached.ok = true := good reached (by simp)
        exact ⟨fields,name,rfl,known,⟨definition,defined⟩,reach_met.mp ⟨reached,ran,fine⟩⟩
    | _ => simp [checkWitness] at checked
  · rintro ⟨fields,name,rfl,known,⟨definition,defined⟩,met⟩
    obtain ⟨reached,ran,fine⟩ := reach_met.mpr met
    refine ⟨[presence (.str name) true undefinedWitness,reached],?_,?_⟩
    · simp only [checkWitness, bind_ok, item_ok]
      refine ⟨_,known,_,definitionOf_some.mpr ⟨rfl,defined⟩,?_⟩
      simp only [bind_ok, pure_ok]
      exact ⟨reached,ran,rfl⟩
    · intro result listed
      simp only [List.mem_cons, List.not_mem_nil, or_false] at listed
      rcases listed with rfl | rfl
      · rfl
      · exact fine

theorem checkTransition_met {probes : Probes} :
    (∃ result, checkTransition python tool subject probes index entry = .ok result ∧ result.ok = true) ↔
    TransitionMet python tool subject (fun outcome => outcome.returncode ≠ 0) probes index entry :=
  reach_met

end Parts

section Runs

variable {python : Interpreter} {tool : Tool} {directory : Directory} {subject : Subject}
  {manifest : PyFields} {mainFile specDir intentPath text : PyString} {before : List Result}

/-- A part of the check accepts exactly when each entry of its list meets its obligation. -/
theorem loop_met {β : Type} (manifest : PyFields) (key : PyString) (check : ℕ → PyData → Raising β) {P : β → Prop}
    {met : ℕ → PyData → Prop} (each : ∀ index entry, (∃ y, check index entry = .ok y ∧ P y) ↔ met index entry) :
    (∃ ys, (members (getOr manifest key (.list [])) >>= fun entries =>
        entries.zipIdx.mapM (fun entry : PyData × ℕ => check entry.2 entry.1)) = .ok ys ∧
        ∀ y ∈ ys, P y) ↔
      EachMet manifest key met := by
  simp only [bind_ok, EachMet]
  constructor
  · rintro ⟨ys,⟨entries,read,mapped⟩,good⟩
    refine ⟨entries,read,fun entry listed => ?_⟩
    exact (each _ _).mp (mapM_each.mp ⟨ys,mapped,good⟩ entry listed)
  · rintro ⟨entries,read,every⟩
    obtain ⟨ys,mapped,good⟩ := mapM_each.mpr (fun entry listed => (each _ _).mpr (every entry listed))
    exact ⟨ys,⟨entries,read,mapped⟩,good⟩

theorem checkInvariants_met : (∃ parts, checkInvariants python tool manifest subject = .ok parts ∧
      ∀ part ∈ parts, ∀ result ∈ part.results, result.ok = true) ↔
    EachMet manifest "invariants" (InvariantMet python tool subject) :=
  loop_met manifest "invariants" (checkInvariant python tool subject) (fun _ _ => checkInvariant_met)

theorem checkWitnesses_met : (∃ parts, checkWitnesses python tool manifest subject = .ok parts ∧
      ∀ results ∈ parts, ∀ result ∈ results, result.ok = true) ↔
    EachMet manifest "witnesses"
      (WitnessMet python tool subject (fun outcome => outcome.returncode ≠ 0)) :=
  loop_met manifest "witnesses" (checkWitness python tool subject) (fun _ _ => checkWitness_met)

theorem checkTransitions_met :
    (∃ results, checkTransitions python tool manifest mainFile subject = .ok results ∧
      ∀ result ∈ results, result.ok = true) ↔
    ∃ probes, probesOf python manifest mainFile = .ok probes ∧ EachMet manifest "transitions"
      (TransitionMet python tool subject (fun outcome => outcome.returncode ≠ 0) probes) := by
  have each (probes : Probes) := loop_met manifest "transitions"
    (checkTransition python tool subject probes) (fun _ _ => checkTransition_met)
  unfold checkTransitions
  constructor
  · rintro ⟨results,checked,good⟩
    obtain ⟨probes,read,rest⟩ := (bind_ok _ _ _).mp checked
    exact ⟨probes,read,(each probes).mp ⟨results,rest,good⟩⟩
  · rintro ⟨probes,read,every⟩
    obtain ⟨results,rest,good⟩ := (each probes).mpr every
    exact ⟨results,(bind_ok _ _ _).mpr ⟨probes,read,rest⟩,good⟩

theorem acceptedRun_iff {run : Run} : acceptedRun run = true ↔ ∀ result ∈ run.results, result.ok = true :=
  List.all_eq_true

theorem checkObligations_met :
    (∃ run, checkObligations python tool manifest mainFile subject before = .ok run ∧
      acceptedRun run = true) ↔
    (∀ result ∈ before, result.ok = true) ∧ EachMet manifest "invariants" (InvariantMet python tool subject) ∧
      EachMet manifest "witnesses"
        (WitnessMet python tool subject (fun outcome => outcome.returncode ≠ 0)) ∧
      ∃ probes, probesOf python manifest mainFile = .ok probes ∧ EachMet manifest "transitions"
        (TransitionMet python tool subject (fun outcome => outcome.returncode ≠ 0) probes) := by
  rw [← checkInvariants_met, ← checkWitnesses_met, ← checkTransitions_met]
  simp only [checkObligations, bind_ok, pure_ok, acceptedRun_iff]
  constructor
  · rintro ⟨_,⟨invariants,first,witnesses,second,transitions,third,rfl⟩,good⟩
    simp only [List.mem_append, List.mem_flatMap, List.mem_flatten] at good
    refine ⟨fun result listed => good result (.inl (.inl (.inl listed))),
      ⟨invariants,first,fun part known result listed => ?_⟩,
      ⟨witnesses,second,fun results known result listed => ?_⟩,
      ⟨transitions,third,fun result listed => good result (.inr listed)⟩⟩
    · exact good result (.inl (.inl (.inr ⟨part,known,listed⟩)))
    · exact good result (.inl (.inr ⟨results,known,listed⟩))
  · rintro ⟨earlier,⟨invariants,first,fine⟩,⟨witnesses,second,shown⟩,transitions,third,fired⟩
    refine ⟨_,⟨invariants,first,witnesses,second,transitions,third,rfl⟩,?_⟩
    intro result listed
    simp only [List.mem_append, List.mem_flatMap, List.mem_flatten] at listed
    rcases listed with ((known | ⟨part,known,within⟩) | ⟨results,known,within⟩) | known
    · exact earlier result known
    · exact fine part known result within
    · exact shown results known result within
    · exact fired result known

theorem equal_of_str {value : PyData} {name : PyString} :
    equal (.str name) value = true ↔ value = .str name := by
  cases value with
  | str other =>
    rw [equal, beq_iff_eq, PyData.str.injEq]
    exact eq_comm
  | none => simp [equal, sameNumeric, numeric]
  | _ => simp [equal, sameNumeric, numeric]

theorem intentResults_ok : (∃ results, intentResults python directory manifest intentPath = .ok results ∧
      ∀ result ∈ results, result.ok = true) ↔ IntentKept python directory manifest intentPath := by
  unfold intentResults IntentKept
  dsimp only
  split
  · rename_i pinned
    rw [forall_prop_of_true pinned]
    simp only [bind_ok, pure_ok]
    constructor
    · rintro ⟨_,⟨text,read,rfl⟩,good⟩
      exact ⟨text,read,equal_of_str.mp (good _ List.mem_cons_self)⟩
    · rintro ⟨text,read,same⟩
      refine ⟨_,⟨text,read,rfl⟩,fun result listed => ?_⟩
      rw [List.mem_singleton.mp listed]
      exact equal_of_str.mpr same
  · rename_i unpinned
    simp [unpinned]

theorem textItem_some {key value : PyString} : textItem manifest key = .ok value ↔
    mapGet manifest key = some (.str value) := by
  unfold textItem
  split
  · rename_i found
    simp [found]
  · rename_i other
    rw [throw_ok, false_iff]
    exact other value

theorem runTypechecked_accepted {typechecked : Outcome} :
    (∃ run, runTypechecked python tool manifest mainFile subject before typechecked = .ok run ∧
      acceptedRun run = true) ↔
    typechecked.returncode = 0 ∧ ∃ run, checkObligations python tool manifest mainFile subject
      (before ++ [typecheckResult subject.mainName typechecked]) = .ok run ∧ acceptedRun run = true := by
  unfold runTypechecked
  dsimp only
  split
  · rename_i passed
    rw [and_iff_right passed]
  · rename_i failed
    apply iff_of_false
    · rintro ⟨run,ended,good⟩
      rw [pure_ok] at ended
      rw [← ended, acceptedRun_iff] at good
      have fine := good _ (List.mem_append_right before List.mem_cons_self)
      simp [typecheckResult, failed] at fine
    · exact fun passed => failed passed.1

theorem runAll_accepted : (∃ run, runAll python tool directory manifest specDir intentPath = .ok run ∧
      acceptedRun run = true) ↔
    ∃ mainFile specs, textItem manifest "main_file" = .ok mainFile ∧
      directory.specs specDir = .ok specs ∧ IntentKept python directory manifest intentPath ∧
      Obligations python tool (subjectOf manifest mainFile specs)
        (fun outcome => outcome.returncode ≠ 0) manifest mainFile := by
  constructor
  · rintro ⟨run,ended,good⟩
    simp only [runAll, bind_ok] at ended
    obtain ⟨mainFile,main,specs,read,intent,kept,typechecked,answered,ended⟩ := ended
    obtain ⟨passed,rest⟩ := runTypechecked_accepted.mp ⟨run,ended,good⟩
    obtain ⟨earlier,invariants,witnesses,transitions⟩ := checkObligations_met.mp rest
    refine ⟨mainFile,specs,main,read,?_,⟨typechecked,answered,passed⟩,invariants,witnesses,transitions⟩
    exact intentResults_ok.mp ⟨intent,kept,fun result listed => earlier result (List.mem_append_left _ listed)⟩
  · rintro ⟨mainFile,specs,main,read,kept,⟨typechecked,answered,passed⟩,invariants,witnesses,transitions⟩
    obtain ⟨intent,made,fine⟩ := intentResults_ok.mpr kept
    have earlier : ∀ result ∈ intent ++ [typecheckResult (fileName mainFile) typechecked],
        result.ok = true := by
      intro result listed
      rcases List.mem_append.mp listed with known | known
      · exact fine result known
      · rw [List.mem_singleton.mp known]
        simp [typecheckResult, passed]
    obtain ⟨run,ended,good⟩ := runTypechecked_accepted.mpr ⟨passed,
      checkObligations_met.mpr ⟨earlier,invariants,witnesses,transitions⟩⟩
    refine ⟨run,?_,good⟩
    simp only [runAll, bind_ok]
    exact ⟨mainFile,main,specs,read,intent,made,typechecked,answered,ended⟩

end Runs

section Verdicts

variable {python : Interpreter} {tool : Tool} {directory : Directory} {pin : Bool} {text specDir : PyString}
  {manifest : PyFields} {run : Run}

theorem reportRun_accepted : (reportRun python pin text run).verdict = .accepted ↔
    acceptedRun run = true := by
  unfold reportRun
  split
  · rename_i good
    exact iff_of_true rfl good
  · rename_i bad
    exact iff_of_false (by simp) bad

theorem checkOpened_accepted :
    (checkOpened python tool directory pin text manifest specDir).verdict = .accepted ↔
    ∃ intentPath, textItem manifest "intent_path" = .ok intentPath ∧
      (∃ outcome, tool .version ⟨[points "--version"],none⟩ = .ok outcome) ∧
      ∃ run, runAll python tool directory manifest specDir intentPath = .ok run ∧
        acceptedRun run = true := by
  unfold checkOpened
  dsimp only
  split
  · rename_i run ended
    rw [reportRun_accepted]
    simp only [bind_ok] at ended
    obtain ⟨intentPath,path,version,answered,ended⟩ := ended
    constructor
    · intro good
      exact ⟨intentPath,path,⟨version,answered⟩,run,ended,good⟩
    · rintro ⟨again,found,_,same,reran,good⟩
      rw [path, Except.ok.injEq] at found
      subst found
      rw [ended, Except.ok.injEq] at reran
      rw [reran]
      exact good
  · rename_i raised ended
    apply iff_of_false
    · simp [failed]
    · rintro ⟨intentPath,path,⟨version,answered⟩,run,reran,good⟩
      have returned : (textItem manifest "intent_path" >>= fun intentPath =>
          tool .version ⟨[points "--version"],none⟩ >>= fun _ =>
            runAll python tool directory manifest specDir intentPath) = .ok run := by
        simp only [bind_ok]
        exact ⟨intentPath,path,version,answered,reran⟩
      exact absurd (ended.symm.trans returned) (by simp)

theorem opened_ok : opened python text = .ok (manifest,specDir) ↔
    python.loads text = some (.dict manifest) ∧ textItem manifest "spec_dir" = .ok specDir := by
  unfold opened
  split
  · rename_i found known
    simp only [bind_ok, pure_ok, Prod.mk.injEq, known, Option.some.injEq, PyData.dict.injEq]
    constructor
    · rintro ⟨read,item,rfl,rfl⟩
      exact ⟨rfl,item⟩
    · rintro ⟨rfl,item⟩
      exact ⟨specDir,item,rfl,rfl⟩
  · rename_i other
    rw [throw_ok, false_iff]
    rintro ⟨known,_⟩
    exact other manifest known

/-- The checker accepts exactly when every obligation is met and any failing verification counts. -/
theorem check_accepted : (obligationCheck python tool directory pin text).verdict = .accepted ↔
    Fulfilled python tool directory (fun outcome => outcome.returncode ≠ 0) text := by
  unfold obligationCheck
  constructor
  · intro accepted
    split at accepted
    · exact absurd accepted (by simp [failed])
    · rename_i manifest specDir read
      obtain ⟨loads,item⟩ := opened_ok.mp read
      split at accepted
      · rename_i inside
        obtain ⟨intentPath,path,version,ended⟩ := checkOpened_accepted.mp accepted
        obtain ⟨mainFile,specs,main,copied,kept,met⟩ := runAll_accepted.mp ended
        exact ⟨manifest,mainFile,specs,
          ⟨loads,⟨specDir,item,inside,copied⟩,⟨intentPath,path,kept⟩,main,version⟩,met⟩
      · exact absurd accepted (by simp [failed])
  · rintro ⟨manifest,mainFile,specs,reads,met⟩
    obtain ⟨specDir,item,inside,copied⟩ := reads.spec
    obtain ⟨intentPath,path,kept⟩ := reads.intent
    rw [opened_ok.mpr ⟨reads.loads,item⟩]
    dsimp only
    rw [if_pos inside, checkOpened_accepted]
    exact ⟨intentPath,path,reads.version,
      runAll_accepted.mpr ⟨mainFile,specs,reads.mainFile,copied,kept,met⟩⟩

end Verdicts

end Obligation

end EvidenceV4
