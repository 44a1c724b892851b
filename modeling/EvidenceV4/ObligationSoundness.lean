import EvidenceV4.MigrationCoverage
import EvidenceV4.ObligationVerdict
import EvidenceV4.PlanDeclarations

/-!
# Soundness of an acceptance

With its hashes pinned the same check accepts again, and any other verdict
leaves the manifest alone. The acceptance is warranted when each verification
that has to serve as a witness reports a violation, and not when one of them
only fails.
-/

set_option autoImplicit false

namespace EvidenceV4

namespace Obligation

open CheckedExcept
open CheckerJson (PyString points)
open Migration (pretty)
open PolicyDocument (mapGet)
open PythonData

section Statements

variable (python : Interpreter) (tool : Tool) (directory : Directory) (subject : Subject)

/-- The run reports no violation, and the verification fails without reporting one. -/
def Silent (runSite verifySite : Site) (run verify : Raising Invocation) : Prop :=
  Calls tool runSite run (fun outcome => ¬ Reports outcome) ∧
    Calls tool verifySite verify (fun outcome => outcome.returncode ≠ 0 ∧ ¬ Reports outcome)

def SilentWitness (index : ℕ) (entry : PyData) : Prop :=
  ∃ fields name, entry = .dict fields ∧ mapGet fields (points "name") = some (.str name) ∧
    Silent tool (.witnessRun index) (.witnessVerify index)
      (inCopy python subject "run" [invariantOption name] true)
      (inCopy python subject "verify" [invariantOption name] false)

def SilentProbe (probes : Probes) (index : ℕ) (transition : PyData) : Prop :=
  Silent tool (.probeRun index) (.probeVerify index)
    (probeCall python subject probes (python.str transition) "run" true)
    (probeCall python subject probes (python.str transition) "verify" false)

/-- Some entry of a list of the manifest is of a kind. -/
def SomeEntry (manifest : PyFields) (key : PyString) (kind : ℕ → PyData → Prop) : Prop :=
  ∃ entries, members (getOr manifest key (.list [])) = .ok entries ∧
    ∃ entry ∈ entries.zipIdx, kind entry.2 entry.1

/-- A verification that has to serve as a witness fails for another reason. -/
def Silenced (text : PyString) : Prop :=
  ∃ manifest mainFile specs, Reads python tool directory text manifest mainFile specs ∧
    (SomeEntry manifest "witnesses" (SilentWitness python tool (subjectOf manifest mainFile specs)) ∨
      ∃ probes, probesOf python manifest mainFile = .ok probes ∧ SomeEntry manifest "transitions"
        (SilentProbe python tool (subjectOf manifest mainFile specs) probes))

/-- One invariant with a digest for its pin. -/
def pinWith (hash : PyString) (fields : PyFields) : PyFields :=
  put (erase fields "_observed_sha256") "definition_sha256" (.str hash)

def Repinned (entry other : PyData) : Prop :=
  ∃ fields bytes, entry = .dict fields ∧ other = .dict (pinWith (python.sha256 bytes) fields)

/-- A manifest is read back as it is printed, also with digests for its pins. -/
structure ReadsBack : Prop where
  whole : ∀ text manifest, python.loads text = some (.dict manifest) →
    python.loads (python.dumps (.dict manifest) ++ [10]) = some (.dict manifest)
  pinned : ∀ text manifest entries others, python.loads text = some (.dict manifest) →
    PythonData.get manifest "invariants" = .list entries → List.Forall₂ (Repinned python) entries others →
    python.loads (python.dumps (.dict (put manifest "invariants" (.list others))) ++ [10]) =
      some (.dict (put manifest "invariants" (.list others)))

/-- Acceptance is warranted and repeats itself, and nothing else touches the manifest. -/
structure Sound (text : PyString) : Prop where
  warranted : ∀ pin, (obligationCheck python tool directory pin text).verdict = .accepted →
    Fulfilled python tool directory Reports text
  repeats : (obligationCheck python tool directory true text).verdict = .accepted → ∀ pin,
    let again := obligationCheck python tool directory pin
      (obligationCheck python tool directory true text).text
    again.verdict = .accepted ∧ again.diffs = []
  unchanged : ∀ pin, (obligationCheck python tool directory pin text).verdict ≠ .accepted →
    (obligationCheck python tool directory pin text).text = text

end Statements

section Lists

universe u
variable {α β : Type u} {P : β → Prop} {xs : List α}

/-- A relation between lists keeps what is known of the elements on its right. -/
theorem forall₂_good {R : α → β → Prop} {ys : List β} (h : List.Forall₂ R xs ys) (good : ∀ y ∈ ys, P y) :
    List.Forall₂ (fun x y => R x y ∧ P y) xs ys := by
  induction h with
  | nil => exact .nil
  | cons now _ ih =>
    obtain ⟨here,later⟩ := List.forall_mem_cons.mp good
    exact .cons ⟨now,here⟩ (ih later)

end Lists

section Pins

variable {python : Interpreter} {tool : Tool} {directory : Directory} {pin : Bool} {text mainFile : PyString}
  {manifest fields : PyFields} {subject : Subject} {part : Part} {parts : List Part}
  {entry : PyData} {entries : List PyData} {index : ℕ} {run : Run} {specs : List PyString}

/-- What a good part leaves of an invariant: the digest of its definition. -/
theorem good_part (checked : checkInvariant python tool subject index entry = .ok part)
    (good : ∀ result ∈ part.results, result.ok = true) : part.diffs = [] ∧
      ∃ fields name definition, entry = .dict fields ∧ mapGet fields (points "name") = some (.str name) ∧
        extractDefinition python.word subject.specText name = some definition ∧
        part.entry = .dict (put fields "_observed_sha256" (.str (python.textSha256 definition))) := by
  cases entry with
  | dict fields =>
    simp only [checkInvariant, bind_ok, item_ok] at checked
    obtain ⟨value,known,found,read,checked⟩ := checked
    cases found with
    | none =>
      simp only [pure_ok] at checked
      subst checked
      simp [presence] at good
    | some pair =>
      obtain ⟨name,definition⟩ := pair
      obtain ⟨rfl,defined⟩ := definitionOf_some.mp read
      obtain ⟨same,_⟩ := checkDefinition_met.mp ⟨part,checked,good⟩
      simp only [checkDefinition, bind_ok, pure_ok] at checked
      obtain ⟨call,made,verified,answered,rfl⟩ := checked
      exact ⟨frozenDiffs_nil same,fields,name,definition,rfl,known,defined,rfl⟩
  | _ => simp [checkInvariant] at checked

theorem pinnedEntry_put {hash : PyString} :
    pinnedEntry (.dict (put fields "_observed_sha256" (.str hash))) = .dict (pinWith hash fields) := by
  simp only [pinnedEntry, mapGet_put, if_true, erase_put, pinWith]

/-- An invariant that is met is met with the digest of its definition for its pin. -/
theorem invariantMet_pinned {name definition : PyString}
    (met : InvariantMet python tool subject index (.dict fields))
    (known : mapGet fields (points "name") = some (.str name))
    (defined : extractDefinition python.word subject.specText name = some definition) :
    InvariantMet python tool subject index (.dict (pinWith (python.textSha256 definition) fields)) := by
  obtain ⟨_,again,other,⟨rfl⟩,found,reread,_,state,verified⟩ := met
  rw [known, Option.some.injEq, PyData.str.injEq] at found
  subst found
  rw [defined, Option.some.injEq] at reread
  subst reread
  refine ⟨_,name,definition,rfl,?_,defined,fun _ => ?_,state,verified⟩
  · rw [pinWith, mapGet_put, if_neg (by decide +kernel), mapGet_erase (by decide +kernel), known]
  · rw [PythonData.get, pinWith, mapGet_put, if_pos rfl, Option.getD_some]

section Entries

variable (mapped : entries.zipIdx.mapM
    (fun entry => checkInvariant python tool subject entry.2 entry.1) = .ok parts)
  (good : ∀ part ∈ parts, ∀ result ∈ part.results, result.ok = true)

include mapped good

theorem repinned_parts :
    List.Forall₂ (Repinned python) entries (parts.map (fun part => pinnedEntry part.entry)) := by
  rw [List.forall₂_map_right_iff]
  have each := forall₂_good ((mapM_ok _ _ _).mp mapped) good
  apply PyramidPlan.forall₂_left each
  rintro entry index part ⟨checked,fine⟩
  obtain ⟨_,fields,name,definition,rfl,_,_,left⟩ := good_part checked fine
  exact ⟨fields,_,rfl,by rw [left, pinnedEntry_put]; rfl⟩

theorem parts_pinned_met : ∀ entry ∈ (parts.map (fun part => pinnedEntry part.entry)).zipIdx,
    InvariantMet python tool subject entry.2 entry.1 := by
  intro entry listed
  rw [List.zipIdx_map] at listed
  obtain ⟨⟨part,index⟩,known,rfl⟩ := List.mem_map.mp listed
  have each := PyramidPlan.forall₂_zipIdx 0 ((mapM_ok _ _ _).mp mapped)
  obtain ⟨original,_,checked⟩ := forall₂_mem_right each known
  have fine := good part (List.fst_mem_of_mem_zipIdx known)
  have met := checkInvariant_met.mp ⟨part,checked,fine⟩
  obtain ⟨_,fields,name,definition,rfl,named,defined,left⟩ := good_part checked fine
  show InvariantMet python tool subject index (pinnedEntry part.entry)
  rw [left, pinnedEntry_put]
  exact invariantMet_pinned met named defined

theorem parts_diffs : parts.flatMap Part.diffs = [] := by
  rw [List.flatMap_eq_nil_iff]
  intro part known
  obtain ⟨original,_,checked⟩ := forall₂_mem_right ((mapM_ok _ _ _).mp mapped) known
  exact (good_part checked (good part known)).1

end Entries

theorem checkOpened_run {specDir : PyString}
    (accepted : (checkOpened python tool directory pin text manifest specDir).verdict = .accepted) :
    ∃ intentPath run, textItem manifest "intent_path" = .ok intentPath ∧
      runAll python tool directory manifest specDir intentPath = .ok run ∧ acceptedRun run = true ∧
      checkOpened python tool directory pin text manifest specDir = reportRun python pin text run := by
  obtain ⟨intentPath,path,⟨version,answered⟩,run,ended,good⟩ := checkOpened_accepted.mp accepted
  refine ⟨intentPath,run,path,ended,good,?_⟩
  have returned : (textItem manifest "intent_path" >>= fun intentPath =>
      tool .version ⟨[points "--version"],none⟩ >>= fun _ =>
        runAll python tool directory manifest specDir intentPath) = .ok run := by
    simp only [bind_ok]
    exact ⟨intentPath,path,version,answered,ended⟩
  unfold checkOpened
  dsimp only
  rw [returned]

/-- What a good run leaves behind comes from the parts of its invariants. -/
theorem runAll_parts {specDir intentPath : PyString}
    (ended : runAll python tool directory manifest specDir intentPath = .ok run)
    (good : acceptedRun run = true) : ∃ mainFile specs parts, textItem manifest "main_file" = .ok mainFile ∧
      directory.specs specDir = .ok specs ∧
      checkInvariants python tool manifest (subjectOf manifest mainFile specs) = .ok parts ∧
      (∀ part ∈ parts, ∀ result ∈ part.results, result.ok = true) ∧
      run.diffs = parts.flatMap Part.diffs ∧ run.manifest = observed manifest parts := by
  simp only [runAll, bind_ok] at ended
  obtain ⟨mainFile,main,specs,read,intent,_,typechecked,answered,ended⟩ := ended
  have passed := (runTypechecked_accepted.mp ⟨run,ended,good⟩).1
  unfold runTypechecked at ended
  dsimp only at ended
  rw [if_pos passed] at ended
  simp only [checkObligations, bind_ok, pure_ok] at ended
  obtain ⟨parts,checked,witnesses,_,transitions,_,rfl⟩ := ended
  refine ⟨mainFile,specs,parts,main,read,checked,fun part known result listed => ?_,rfl,rfl⟩
  apply acceptedRun_iff.mp good
  simp only [List.mem_append, List.mem_flatMap]
  exact .inl (.inl (.inr ⟨part,known,listed⟩))

/-- An accepted run: the parts of its invariants are good, and it is reported as it is. -/
theorem accepted_run (accepted : (obligationCheck python tool directory pin text).verdict = .accepted) :
    ∃ manifest mainFile specs parts run, python.loads text = some (.dict manifest) ∧
      Reads python tool directory text manifest mainFile specs ∧
      Obligations python tool (subjectOf manifest mainFile specs)
        (fun outcome => outcome.returncode ≠ 0) manifest mainFile ∧
      checkInvariants python tool manifest (subjectOf manifest mainFile specs) = .ok parts ∧
      (∀ part ∈ parts, ∀ result ∈ part.results, result.ok = true) ∧
      run.diffs = parts.flatMap Part.diffs ∧ run.manifest = observed manifest parts ∧
      acceptedRun run = true ∧
      obligationCheck python tool directory pin text = reportRun python pin text run := by
  obtain ⟨manifest,mainFile,specs,reads,met⟩ := check_accepted.mp accepted
  obtain ⟨specDir,item,inside,copied⟩ := reads.spec
  have whole : obligationCheck python tool directory pin text =
      checkOpened python tool directory pin text manifest specDir := by
    unfold obligationCheck
    rw [opened_ok.mpr ⟨reads.loads,item⟩]
    dsimp only
    rw [if_pos inside]
  rw [whole] at accepted ⊢
  obtain ⟨intentPath,run,_,ended,good,reported⟩ := checkOpened_run accepted
  obtain ⟨again,files,parts,main,read,checked,fine,diffs,left⟩ := runAll_parts ended good
  rw [reads.mainFile, Except.ok.injEq] at main
  rw [copied, Except.ok.injEq] at read
  subst main
  subst read
  exact ⟨manifest,mainFile,specs,parts,run,reads.loads,reads,met,checked,fine,diffs,left,good,reported⟩

theorem eachMet_put {key : PyString} {value : PyData} {met : ℕ → PyData → Prop}
    (different : key ≠ points "invariants") :
    EachMet (put manifest "invariants" value) key met ↔ EachMet manifest key met := by
  rw [EachMet, EachMet, getOr_put different]

theorem subjectOf_put {value : PyData} :
    subjectOf (put manifest "invariants" value) mainFile specs = subjectOf manifest mainFile specs := by
  rw [subjectOf, subjectOf, getOr_put (by decide +kernel)]

theorem probesOf_put {value : PyData} :
    probesOf python (put manifest "invariants" value) mainFile = probesOf python manifest mainFile := by
  rw [probesOf, probesOf, item_put (by decide +kernel), getOr_put (by decide +kernel),
    getOr_put (by decide +kernel)]

/-- Reading another text of a manifest that differs in its invariants alone. -/
theorem reads_put {value : PyData} {other : PyString}
    (reads : Reads python tool directory text manifest mainFile specs)
    (loads : python.loads other = some (.dict (put manifest "invariants" value))) :
    Reads python tool directory other (put manifest "invariants" value) mainFile specs := by
  obtain ⟨specDir,item,inside,copied⟩ := reads.spec
  obtain ⟨path,found,kept⟩ := reads.intent
  refine ⟨loads,⟨specDir,?_,inside,copied⟩,⟨path,?_,?_⟩,?_,reads.version⟩
  · rw [textItem_put (by decide +kernel), item]
  · rw [textItem_put (by decide +kernel), found]
  · intro pinned
    rw [PythonData.get, mapGet_put, if_neg (by decide +kernel)] at pinned ⊢
    exact kept pinned
  · rw [textItem_put (by decide +kernel), reads.mainFile]

theorem obligations_put {counts : Outcome → Prop} {others : List PyData}
    (met : Obligations python tool subject counts manifest mainFile)
    (invariants : ∀ entry ∈ others.zipIdx, InvariantMet python tool subject entry.2 entry.1) :
    Obligations python tool subject counts (put manifest "invariants" (.list others)) mainFile := by
  obtain ⟨probes,made,fired⟩ := met.transitions
  refine ⟨met.typechecked,⟨others,?_,invariants⟩,?_,probes,?_,?_⟩
  · rw [getOr, mapGet_put, if_pos rfl]
    rfl
  · exact (eachMet_put (by decide +kernel)).mpr met.witnesses
  · rw [probesOf_put, made]
  · exact (eachMet_put (by decide +kernel)).mpr fired

/-- The text that pinning writes has its obligations met again. -/
theorem pinned_fulfilled (reading : ReadsBack python)
    (accepted : (obligationCheck python tool directory true text).verdict = .accepted) :
    Fulfilled python tool directory (fun outcome => outcome.returncode ≠ 0)
      (obligationCheck python tool directory true text).text := by
  obtain ⟨manifest,mainFile,specs,parts,run,loads,reads,met,checked,good,_,left,fine,reported⟩ :=
    accepted_run accepted
  have written : (obligationCheck python tool directory true text).text =
      python.dumps (.dict (pinnedManifest (observed manifest parts))) ++ [10] := by
    rw [reported, reportRun, if_pos fine, if_pos rfl, left]
  rw [written]
  cases listed : PythonData.get manifest "invariants" with
  | list entries =>
    have known : mapGet manifest (points "invariants") = some (.list entries) := by
      cases found : mapGet manifest (points "invariants") with
      | none => simp [PythonData.get, found] at listed
      | some value => simpa [PythonData.get, found] using listed
    have mapped : entries.zipIdx.mapM (fun entry => checkInvariant python tool
        (subjectOf manifest mainFile specs) entry.2 entry.1) = .ok parts := by
      simpa [checkInvariants, getOr, known, members] using checked
    have shape : pinnedManifest (observed manifest parts) =
        put manifest "invariants" (.list (parts.map (fun part => pinnedEntry part.entry))) := by
      rw [observed, listed]
      dsimp only
      rw [pinnedManifest, PythonData.get, mapGet_put, if_pos rfl, Option.getD_some]
      dsimp only
      rw [put_put, List.map_map]
      rfl
    rw [shape]
    refine ⟨_,mainFile,specs,reads_put reads (reading.pinned _ _ _ _ loads listed
      (repinned_parts mapped good)),?_⟩
    rw [subjectOf_put]
    exact obligations_put met (parts_pinned_met mapped good)
  | _ =>
    have shape : pinnedManifest (observed manifest parts) = manifest := by
      simp only [observed, pinnedManifest, listed]
    rw [shape]
    exact ⟨manifest,mainFile,specs,⟨reading.whole _ _ loads,reads.spec,reads.intent,reads.mainFile,
      reads.version⟩,met⟩

theorem accepted_diffs (accepted : (obligationCheck python tool directory pin text).verdict = .accepted) :
    (obligationCheck python tool directory pin text).diffs = [] := by
  obtain ⟨manifest,mainFile,specs,parts,run,_,_,_,checked,good,diffs,_,fine,reported⟩ :=
    accepted_run accepted
  obtain ⟨entries,_,mapped⟩ := (bind_ok _ _ _).mp checked
  rw [reported, reportRun, if_pos fine]
  show run.diffs = []
  rw [diffs, parts_diffs mapped good]

theorem unaccepted_text (h : (obligationCheck python tool directory pin text).verdict ≠ .accepted) :
    (obligationCheck python tool directory pin text).text = text := by
  unfold obligationCheck at h ⊢
  split
  · rfl
  · rename_i read
    rw [read] at h
    dsimp only at h
    split
    · rename_i inside
      rw [if_pos inside] at h
      unfold checkOpened at h ⊢
      dsimp only at h ⊢
      split
      · rename_i run ended
        rw [ended] at h
        have bad : ¬ acceptedRun run = true := fun good => h (reportRun_accepted.mpr good)
        rw [reportRun, if_neg bad]
      · rfl
    · rfl

end Pins

section Silence

variable {python : Interpreter} {tool : Tool} {directory : Directory} {text mainFile mainFile' : PyString}
  {manifest manifest' : PyFields} {subject : Subject} {index : ℕ} {entry : PyData} {specs specs' : List PyString}
  {runSite verifySite : Site} {run verify : Raising Invocation}

theorem calls_unique {site : Site} {call : Raising Invocation} {first second : Outcome → Prop}
    (one : Calls tool site call first) (other : Calls tool site call second) :
    ∃ outcome, first outcome ∧ second outcome := by
  obtain ⟨outcome,answered,here⟩ := calls_iff.mp one
  obtain ⟨again,replied,there⟩ := calls_iff.mp other
  rw [answered, Except.ok.injEq] at replied
  subst replied
  exact ⟨outcome,here,there⟩

theorem witnessed_or_silent
    (h : Witnessed tool (fun outcome => outcome.returncode ≠ 0) runSite verifySite run verify) :
    Witnessed tool Reports runSite verifySite run verify ∨ Silent tool runSite verifySite run verify := by
  rcases h with reported | ⟨quiet,invocation,made,outcome,answered,failed⟩
  · exact .inl (.inl reported)
  · by_cases reported : Reports outcome
    · exact .inl (.inr ⟨quiet,invocation,made,outcome,answered,reported⟩)
    · exact .inr ⟨quiet,invocation,made,outcome,answered,failed,reported⟩

theorem silent_unwitnessed (silent : Silent tool runSite verifySite run verify) :
    ¬ Witnessed tool Reports runSite verifySite run verify := by
  rintro (reported | ⟨_,verified⟩)
  · obtain ⟨outcome,spoke,kept⟩ := calls_unique reported silent.1
    exact kept spoke
  · obtain ⟨outcome,spoke,_,kept⟩ := calls_unique verified silent.2
    exact kept spoke

theorem eachMet_or_some {key : PyString} {lax strict bad : ℕ → PyData → Prop}
    (split : ∀ index entry, lax index entry → strict index entry ∨ bad index entry)
    (h : EachMet manifest key lax) : EachMet manifest key strict ∨ SomeEntry manifest key bad := by
  obtain ⟨entries,read,every⟩ := h
  by_cases found : ∃ entry ∈ entries.zipIdx, bad entry.2 entry.1
  · exact .inr ⟨entries,read,found⟩
  · left
    refine ⟨entries,read,fun entry listed => ?_⟩
    rcases split _ _ (every entry listed) with fine | wrong
    · exact fine
    · exact absurd ⟨entry,listed,wrong⟩ found

theorem some_not_each {key : PyString} {strict bad : ℕ → PyData → Prop}
    (clash : ∀ index entry, bad index entry → ¬ strict index entry)
    (some : SomeEntry manifest key bad) : ¬ EachMet manifest key strict := by
  rintro ⟨others,reread,every⟩
  obtain ⟨entries,read,entry,listed,wrong⟩ := some
  rw [read, Except.ok.injEq] at reread
  subst reread
  exact clash _ _ wrong (every entry listed)

theorem witnessMet_or_silent (h : WitnessMet python tool subject (fun outcome => outcome.returncode ≠ 0)
      index entry) :
    WitnessMet python tool subject Reports index entry ∨ SilentWitness python tool subject index entry := by
  obtain ⟨fields,name,rfl,known,defined,reached⟩ := h
  rcases witnessed_or_silent reached with spoke | silent
  · exact .inl ⟨fields,name,rfl,known,defined,spoke⟩
  · exact .inr ⟨fields,name,rfl,known,silent⟩

theorem silentWitness_unmet (silent : SilentWitness python tool subject index entry) :
    ¬ WitnessMet python tool subject Reports index entry := by
  rintro ⟨_,again,rfl,found,_,reached⟩
  obtain ⟨fields,name,⟨rfl⟩,known,quiet⟩ := silent
  rw [known, Option.some.injEq, PyData.str.injEq] at found
  subst found
  exact silent_unwitnessed quiet reached

/-- With its failing verifications counted, a text is fulfilled or has a silent one. -/
theorem fulfilled_or_silenced
    (h : Fulfilled python tool directory (fun outcome => outcome.returncode ≠ 0) text) :
    Fulfilled python tool directory Reports text ∨ Silenced python tool directory text := by
  obtain ⟨manifest,mainFile,specs,reads,met⟩ := h
  obtain ⟨probes,made,fired⟩ := met.transitions
  rcases eachMet_or_some (fun _ _ => witnessMet_or_silent) met.witnesses with witnesses | silent
  · rcases eachMet_or_some (fun _ _ => witnessed_or_silent) fired with transitions | silent
    · exact .inl ⟨manifest,mainFile,specs,reads,met.typechecked,met.invariants,witnesses,probes,made,
        transitions⟩
    · exact .inr ⟨manifest,mainFile,specs,reads,.inr ⟨probes,made,silent⟩⟩
  · exact .inr ⟨manifest,mainFile,specs,reads,.inl silent⟩

theorem reads_unique (one : Reads python tool directory text manifest mainFile specs)
    (other : Reads python tool directory text manifest' mainFile' specs') :
    manifest = manifest' ∧ mainFile = mainFile' ∧ specs = specs' := by
  have same : manifest = manifest' := by
    simpa using one.loads.symm.trans other.loads
  subst same
  obtain ⟨specDir,item,_,copied⟩ := one.spec
  obtain ⟨_,again,_,recopied⟩ := other.spec
  rw [item, Except.ok.injEq] at again
  subst again
  exact ⟨rfl,by simpa using one.mainFile.symm.trans other.mainFile,
    by simpa using copied.symm.trans recopied⟩

theorem silenced_unfulfilled (silenced : Silenced python tool directory text) :
    ¬ Fulfilled python tool directory Reports text := by
  rintro ⟨_,_,_,others,met⟩
  obtain ⟨manifest,mainFile,specs,reads,silent⟩ := silenced
  obtain ⟨rfl,rfl,rfl⟩ := reads_unique reads others
  rcases silent with witness | ⟨probes,made,probe⟩
  · exact some_not_each (fun _ _ => silentWitness_unmet) witness met.witnesses
  · obtain ⟨again,remade,fired⟩ := met.transitions
    rw [made, Except.ok.injEq] at remade
    subst remade
    exact some_not_each (fun _ _ => silent_unwitnessed) probe fired

/-- A tool that fails only with a report is never silent. -/
theorem unsilenced (speaks : ∀ site invocation outcome, tool site invocation = .ok outcome →
    outcome.returncode ≠ 0 → Reports outcome) : ¬ Silenced python tool directory text := by
  have spoken {runSite verifySite : Site} {run verify : Raising Invocation} :
      ¬ Silent tool runSite verifySite run verify := by
    rintro ⟨_,invocation,_,outcome,answered,failed,quiet⟩
    exact quiet (speaks _ _ _ answered failed)
  rintro ⟨manifest,mainFile,specs,_,(witness | ⟨probes,_,probe⟩)⟩
  · obtain ⟨entries,_,entry,_,fields,name,_,_,silent⟩ := witness
    exact spoken silent
  · obtain ⟨entries,_,entry,_,silent⟩ := probe
    exact spoken silent

/-- A tool that never reports a violation witnesses nothing. -/
theorem unwitnessed (quiet : ∀ site invocation outcome, tool site invocation = .ok outcome →
    ¬ Reports outcome) : ¬ Witnessed tool Reports runSite verifySite run verify := by
  rintro (⟨_,_,outcome,answered,spoke⟩ | ⟨_,_,_,outcome,answered,spoke⟩)
  · exact quiet _ _ _ answered spoke
  · exact quiet _ _ _ answered spoke

end Silence

section Sample

def definitionDigest : PyString := "5c5744d06694d0a76fbd9285044fc1fde4d6c63552acc2b6c127efdfd9b1272f"

def sampleInvariant (pin : PyData) : PyFields :=
  [("id",.str "B1"),("name",.str "inv"),("definition_sha256",pin)]

/-- One invariant with its pin, and one witness. -/
def sampleManifest (pin : PyData) : PyFields :=
  [("version",.int 1),("intent_path",.str "intent.md"),("spec_dir",.str "specs"),
    ("main_file",.str "main.qnt"),("module",.str "main"),
    ("invariants",.list [.dict (sampleInvariant pin)]),
    ("witnesses",.list [.dict [("id",.str "W1"),("name",.str "reached")]])]

def sampleText (pin : PyData) : PyString := pretty 0 (.dict (sampleManifest pin)) ++ [10]

/-- The decoder, as far as the two texts of the manifest go. -/
def sampleLoads (text : PyString) : Option PyData :=
  if text = sampleText .none then some (.dict (sampleManifest .none))
  else if text = sampleText (.str definitionDigest) then
    some (.dict (sampleManifest (.str definitionDigest)))
  else none

def samplePython : Interpreter where
  repr := pretty 0
  loads := sampleLoads
  sha256 := fun _ => definitionDigest
  dumps := pretty 0
  word := fun c => (48 ≤ c && c ≤ 57) || (65 ≤ c && c ≤ 90) || (97 ≤ c && c ≤ 122) || c == 95
  space := by decide

def sampleSpec : PyString := say [
  "module main \x7b\n  var x: int\n  action init = x' = 0\n  action step = x' = x + 1\n",
  "  val inv = x >= 0\n  val reached = x < 3\n\x7d\n"]

def sampleDirectory : Directory where
  inTree := fun _ => true
  specs := fun _ => .ok [sampleSpec]
  intent := fun _ => .ok []

/-- The run of the witness ends as given, and its verification fails with a message. -/
def sampleTool (message : String) : Tool := fun site _ =>
  match site with
  | .witnessRun _ => .ok ⟨0,"[ok] No violation found",[]⟩
  | .witnessVerify _ => .ok ⟨1,[],points message⟩
  | _ => .ok ⟨0,"[ok]",[]⟩

theorem sampleLoads_text {pin : PyData} (known : pin = .none ∨ pin = .str definitionDigest) :
    sampleLoads (sampleText pin) = some (.dict (sampleManifest pin)) := by
  rcases known with rfl | rfl
  · rw [sampleLoads, if_pos rfl]
  · rw [sampleLoads, if_neg (by decide +kernel), if_pos rfl]

theorem sampleLoads_some {text : PyString} {manifest : PyFields}
    (h : sampleLoads text = some (.dict manifest)) :
    ∃ pin, (pin = .none ∨ pin = .str definitionDigest) ∧ manifest = sampleManifest pin := by
  unfold sampleLoads at h
  split at h
  · simp only [Option.some.injEq, PyData.dict.injEq] at h
    exact ⟨.none,.inl rfl,h.symm⟩
  · split at h
    · simp only [Option.some.injEq, PyData.dict.injEq] at h
      exact ⟨_,.inr rfl,h.symm⟩
    · exact absurd h (by simp)

theorem pinWith_sample (pin : PyData) :
    pinWith definitionDigest (sampleInvariant pin) = sampleInvariant (.str definitionDigest) := by
  rfl

theorem sample_loads : samplePython.loads = sampleLoads := rfl

theorem sample_dumps : samplePython.dumps = pretty 0 := rfl

theorem sample_sha256 (bytes : List UInt8) : samplePython.sha256 bytes = definitionDigest := rfl

theorem put_sample (pin : PyData) : put (sampleManifest pin) "invariants"
    (.list [.dict (sampleInvariant (.str definitionDigest))]) = sampleManifest (.str definitionDigest) := by
  rfl

theorem sample_readsBack : ReadsBack samplePython := by
  constructor
  · intro text manifest loaded
    rw [sample_loads] at loaded
    obtain ⟨pin,known,rfl⟩ := sampleLoads_some loaded
    rw [sample_loads, sample_dumps, ← sampleText]
    exact sampleLoads_text known
  · intro text manifest entries others loaded listed repinned
    rw [sample_loads] at loaded
    obtain ⟨pin,known,rfl⟩ := sampleLoads_some loaded
    have shape : PythonData.get (sampleManifest pin) "invariants" = .list [.dict (sampleInvariant pin)] := rfl
    rw [shape, PyData.list.injEq] at listed
    subst listed
    cases repinned with
    | cons now later =>
      cases later
      obtain ⟨fields,bytes,same,rfl⟩ := now
      rw [PyData.dict.injEq] at same
      subst same
      rw [sample_sha256, pinWith_sample, put_sample, sample_loads, sample_dumps, ← sampleText]
      exact sampleLoads_text (.inr rfl)

example : (obligationCheck samplePython (sampleTool "[violation] Found an issue") sampleDirectory true
    (sampleText .none)).text = sampleText (.str definitionDigest) := by decide +kernel

end Sample

end Obligation

end EvidenceV4
