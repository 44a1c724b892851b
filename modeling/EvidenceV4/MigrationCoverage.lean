import EvidenceV4.MigrationClaims

/-!
# The coverage of a migrated manifest

A claim of the migrated manifest requires tools that the migrated plan has to
declare. The completeness check compares both, unless the run manifest blocked
already, and a run manifest that is null counts as blocked without any report. So
an unblocked migration writes a manifest that the gate loads and the plan covers
exactly when the claims are spelled apart from the targets and the run manifest is
not null.
-/

set_option autoImplicit false

namespace EvidenceV4

namespace Migration

open CheckerJson (PyString points)
open PolicyDocument (mapGet mapGet_isSome)
open PythonData
open Raising (Keeps keeps_pure keeps_lift keeps_modify keeps_bind keeps_forM keeps_ite)

section Plans

variable {project : Project} {host : Host} {plan plan' : Plan}

/-- The run manifest holds the null document. -/
def NullRuns (project : Project) (host : Host) : Prop :=
  ∃ data, project.readLegacy legacyLayerRuns = .ok data ∧ parseDocument host data = some .none

/-- What the migrated plan declares is written as its tools say. -/
def PlanWritten (host : Host) (plan : Plan) : Prop :=
  ∃ layers data, plan.planTools = some (toolsOf layers) ∧ HasWrite planPath data plan ∧
    canonicalJson host (planDocument layers) = .ok data

theorem blocked_refused {relative detail : PyString} {u : Unit}
    (ran : (blockPlan >>= fun _ => unsupported relative detail) plan = (.ok u,plan')) :
    Refused plan' := by
  obtain ⟨_,_,_,last⟩ := Raising.bind_ran.mp ran
  exact unsupported_refused last

theorem writePlan_ran (project : Project) {relative : PyString} {document : PyFields}
    {runs : List PyData} {cohorts : List PlannedLayer} {u : Unit}
    (ran : writePlan host relative document runs cohorts plan = (.ok u,plan')) :
    coverage plan' = (plan.legacyFiles,plan.claimLayers,some (toolsOf cohorts),plan.planBlocked) ∧
      ∃ data, HasWrite planPath data plan' ∧
        canonicalJson host (planDocument cohorts) = .ok data := by
  obtain ⟨data,_,lifted,ran₁⟩ := Raising.bind_ran.mp ran
  obtain ⟨encoded,rfl⟩ := Raising.lift_ran.mp lifted
  obtain ⟨_,written,write,ran₂⟩ := Raising.bind_ran.mp ran₁
  obtain ⟨_,writes,recorded,rfl⟩ := planWrite_ran.mp write
  obtain ⟨_,_,modified,ran₃⟩ := Raising.bind_ran.mp ran₂
  obtain rfl := Raising.modify_ran.mp modified
  have tolerates : Tolerates project (fun _ => True) (fun p =>
      coverage p = (plan.legacyFiles,plan.claimLayers,some (toolsOf cohorts),plan.planBlocked) ∧
        HasWrite planPath data p) :=
    coverage_tolerates.having
  have reports : Keeps (fun p =>
      coverage p = (plan.legacyFiles,plan.claimLayers,some (toolsOf cohorts),plan.planBlocked) ∧
        HasWrite planPath data p)
      (forM (mergedRuns cohorts) (reportMerged host relative) >>= fun _ =>
        mapped relative planPath (planDetail host relative document runs cohorts) false) := by
    apply keeps_bind
    · exact keeps_forM (fun _ _ => keeps_deviation tolerates)
    · intro _
      exact keeps_mapped tolerates
  have landed : HasWrite planPath data { plan with writes := writes } := recorded_has recorded
  obtain ⟨same,has⟩ := kept reports ran₃ ⟨rfl,landed⟩
  exact ⟨same,data,has,encoded⟩

theorem readLegacy_listed {path : PyString} {data : Bytes}
    (held : project.readLegacy path = .ok data) : path ∈ project.files.map Prod.fst := by
  rw [← mapGet_isSome]
  unfold Project.readLegacy at held
  cases found : mapGet project.files path with
  | some file => rfl
  | none =>
    simp only [found] at held
    cases held

theorem readJson_null {document : PyData} {data : Bytes}
    (held : project.readLegacy legacyLayerRuns = .ok data)
    (parsed : parseDocument host data = some document) :
    NullRuns project host ↔ document = .none := by
  constructor
  · rintro ⟨data',held',parsed'⟩
    obtain rfl := Except.ok.inj (held.symm.trans held')
    exact Option.some.inj (parsed.symm.trans parsed')
  · rintro rfl
    exact ⟨data,held,parsed⟩

/-- What a run leaves behind a run manifest that is no null document. -/
theorem migrateRuns_ran {relative : PyString} {document : PyFields} {u : Unit}
    (ran : migrateRuns project host relative document plan = (.ok u,plan'))
    (clean : ¬ Refused plan') : plan'.claimLayers = plan.claimLayers ∧
      plan'.planBlocked = plan.planBlocked ∧ PlanWritten host plan' := by
  unfold migrateRuns at ran
  rcases sound : runsDefect host document with _ | defect
  · simp only [sound] at ran
    obtain ⟨gathered,middle,gathering,ran₁⟩ := Raising.bind_ran.mp ran
    obtain ⟨required,_,asked,ran₂⟩ := Raising.bind_ran.mp ran₁
    obtain ⟨_,rfl⟩ := Raising.asking_ran.mp asked
    have tolerates : Tolerates project (fun _ => True) (fun p => coverage p = coverage plan) :=
      coverage_tolerates
    have same : coverage _ = coverage plan :=
      kept (keeps_foldlM (fun _ _ => keeps_gatherRun tolerates) _) gathering rfl
    by_cases blocks : gathered.blocked ≠ []
    · rw [if_pos blocks] at ran₂
      exact absurd (blocked_refused ran₂) clean
    · rw [if_neg blocks] at ran₂
      by_cases repeats : repeated (toolsOf (cohorts required gathered.layers)) ≠ []
      · rw [if_pos repeats] at ran₂
        exact absurd (blocked_refused ran₂) clean
      · rw [if_neg repeats] at ran₂
        obtain ⟨after,data,has,encoded⟩ := writePlan_ran project ran₂
        refine ⟨?_,?_,_,data,?_,has,encoded⟩
        · exact (congrArg (fun known => known.2.1) after).trans
            (congrArg (fun known => known.2.1) same)
        · exact (congrArg (fun known => known.2.2.2) after).trans
            (congrArg (fun known => known.2.2.2) same)
        · exact congrArg (fun known => known.2.2.1) after
  · simp only [sound] at ran
    exact absurd (blocked_refused ran) clean

/-- The plan is written, or nothing is declared: without a run manifest, or behind a null one that
counts as blocked. -/
theorem migratePlan_ran {u : Unit} (lists : Lists project plan) (tools : plan.planTools = none)
    (unblocked : plan.planBlocked = false)
    (ran : migratePlan project host plan = (.ok u,plan')) (clean : ¬ Refused plan') :
    plan'.claimLayers = plan.claimLayers ∧
      ((NullRuns project host ∧ plan'.planBlocked = true ∧ plan'.writes = plan.writes) ∨
        (¬ NullRuns project host ∧ plan'.planBlocked = false ∧
          (plan'.planTools = none ∨ PlanWritten host plan'))) := by
  obtain ⟨present,start,asked,ran₁⟩ := Raising.bind_ran.mp ran
  obtain ⟨rfl,listed⟩ := inventoried_ran lists asked
  cases present with
  | false =>
    obtain ⟨_,rfl⟩ := Raising.pure_ran.mp ran₁
    refine ⟨rfl,.inr ⟨?_,unblocked,.inl tools⟩⟩
    rintro ⟨data,held,_⟩
    have member := readLegacy_listed held
    exact Bool.false_ne_true (listed.mpr member)
  | true =>
    obtain ⟨document,middle,read,ran₂⟩ := Raising.bind_ran.mp ran₁
    have refused : ToleratesTools project (fun _ => True) Refused := refused_tools
    have known : ¬ Refused middle → middle = start ∧ (NullRuns project host ↔ document = .none) := by
      intro clear
      obtain ⟨same,data,held,parsed⟩ := readJson_ran read clear
      exact ⟨same,readJson_null held parsed⟩
    cases document with
    | none =>
      obtain rfl := Raising.modify_ran.mp ran₂
      obtain ⟨rfl,null⟩ := known clean
      exact ⟨rfl,.inl ⟨null.mpr rfl,rfl,rfl⟩⟩
    | dict fields =>
      have clear : ¬ Refused middle := clean_before (keeps_migrateRuns refused trivial) ran₂ clean
      obtain ⟨rfl,null⟩ := known clear
      obtain ⟨claims,blocks,written⟩ := migrateRuns_ran ran₂ clean
      refine ⟨claims,.inr ⟨?_,blocks.trans unblocked,.inr written⟩⟩
      exact fun isNull => nomatch null.mp isNull
    | _ => exact absurd (blocked_refused ran₂) clean

theorem keeps_checkClaim (project : Project) (tools : Option (List PyString))
    (claim : PyString × List PyString) : Keeps Refused (checkClaim host tools claim) := by
  have tolerates : Tolerates project (fun _ => True) Refused := refused_tolerates
  exact keeps_ite (keeps_pure _) (keeps_unsupported tolerates)

/-- Behind the completeness check, every layer of a claim is a tool of the plan. -/
theorem checkRequiredEvidence_ran (project : Project) {u : Unit} (unblocked : plan.planBlocked = false)
    (ran : checkRequiredEvidence host plan = (.ok u,plan')) (clean : ¬ Refused plan') :
    ∀ claim ∈ plan.claimLayers, ∀ layer ∈ claim.2, layer ∈ plan.planTools.getD [] := by
  obtain ⟨found,_,asked,ran₁⟩ := Raising.bind_ran.mp ran
  obtain ⟨same,rfl⟩ := Raising.asking_ran.mp asked
  obtain rfl := (CheckedExcept.pure_ok _ _).mp same
  rw [unblocked] at ran₁
  intro claim member layer required
  obtain ⟨before,after,passed,still⟩ :=
    forM_clean (keeps_checkClaim project plan.planTools) ran₁ clean claim member
  by_contra missing
  have some_missing : missingTools (plan.planTools.getD []) claim.2 ≠ [] :=
    List.ne_nil_of_mem (List.mem_filter.mpr ⟨required,by simpa using missing⟩)
  unfold checkClaim at passed
  rw [if_neg some_missing] at passed
  exact still (unsupported_refused passed)

end Plans

section Stages

variable {project : Project} {installation : Installation} {plan plan' : Plan}

theorem historyPath_below (source : PyString) :
    points ".fv/history/colosseum/" <+: historyPath source := by
  rw [historyPath, say, List.flatten_cons, List.flatten_cons, ← List.append_assoc]
  exact List.prefix_append _ _

theorem historyPath_apart {path : PyString} (outside : ¬ points ".fv/history/colosseum/" <+: path)
    (source : PyString) : historyPath source ≠ path :=
  fun same => outside (same ▸ historyPath_below source)

/-- What a write behind the verification plan does not touch is still there at the end. -/
theorem kept_behind {paths : PyString → Prop} {invariant : Plan → Prop} {planned checked inputs translated kept' : Plan}
    {target : Option PyString} (tolerates : Tolerates project paths invariant)
    (place : paths inputsPath ∧ paths dispatchPath ∧ ∀ path, paths (historyPath path))
    (check : checkRequiredEvidence installation.toHost planned = (.ok (),checked))
    (input : migrateVerifiedInputs project installation checked = (.ok (),inputs))
    (dispatch : migrateDispatch project installation.toHost installation.template target inputs =
      (.ok (),translated))
    (history : preserveHistory project translated = (.ok (),kept')) (held : invariant planned) :
    invariant kept' := by
  have first := kept (keeps_checkRequiredEvidence tolerates) check held
  have second := kept (keeps_migrateVerifiedInputs tolerates place.1) input first
  have third := kept (keeps_migrateDispatch tolerates place.2.1) dispatch second
  exact kept (keeps_preserveHistory tolerates place.2.2) history third

/-- Nothing of the claims or of the plan is known yet. -/
def Untouched (project : Project) (plan : Plan) : Prop :=
  coverage plan = (project.files.map Prod.fst,[],none,false) ∧ Unwritten obligationsPath plan ∧
    Unwritten planPath plan

theorem scan_untouched {u : Unit} (ran : scan project emptyPlan = (.ok u,plan)) :
    Untouched project plan := by
  obtain ⟨_,_,rows,messages,_,rfl⟩ := scan_ran ran
  exact ⟨rfl,nofun,nofun⟩

theorem untouched_tolerates : Tolerates project
    (fun path => True ∧ path ≠ obligationsPath ∧ path ≠ planPath) (Untouched project) :=
  coverage_tolerates.both (unwritten_tolerates.both unwritten_tolerates)

theorem runs_untouched {known : List PyString × Option (List PyString) × Bool} :
    ToleratesClaims project (fun _ => True)
      (fun plan => (plan.legacyFiles,plan.planTools,plan.planBlocked) = known) where
  row _ _ h := h
  refusal _ _ _ h := h
  conflict _ _ h := h
  write _ _ _ h := h
  verbatim _ _ _ _ _ _ _ h := h
  target _ _ h := h
  rebound _ _ h := h
  claims _ _ h := h
  required _ _ h := h

/-- The document is planned for the path. -/
def Planned (host : Host) (plan : Plan) (path : PyString) (document : PyData) : Prop :=
  ∃ data, HasWrite path data plan ∧ canonicalJson host document = .ok data

/-- What an unblocked migration that plans a manifest knows of it. -/
structure ManifestKnown (project : Project) (host : Host) (plan : Plan) : Prop where
  written : ∀ write ∈ plan.writes, write.path = obligationsPath →
    canonicalJson host (migratedManifest project host) = .ok write.data
  named : ((namedClaims ((legacyFields project host legacyClaims).getD [])).map Prod.fst).Nodup
  converts : Converts host (namedClaims ((legacyFields project host legacyClaims).getD []))
    (namedClaims ((legacyFields project host legacyObligations).getD []))
  filled : migratedClaims project host ≠ []
  synthesized : Synthesized (migratedSynthesis project host) (migratedFlag project host)
    (migratedClaims project host)
  null : NullRuns project host → Unwritten planPath plan
  covered : ¬ NullRuns project host → ∃ layers, Planned host plan planPath (planDocument layers) ∧
    ∀ claim ∈ migratedClaims project host, ∀ layer ∈ claim.layers, layer ∈ toolsOf layers

theorem manifest_known (built : build project installation = .ok plan)
    (clear : blocked plan = false) (planned : ∃ write ∈ plan.writes, write.path = obligationsPath) :
    ManifestKnown project installation.toHost plan := by
  obtain ⟨scanned,translated,kept',inventory,_,translation,cleanTranslated,history,_,settle⟩ :=
    build_states built clear
  obtain ⟨target,elected,ledger,obligated,planned',checked,inputs,elect,ledgered,obligate,
    cleanObligated,plans,cleanPlanned,check,cleanChecked,input,dispatch⟩ :=
    translate_states translation cleanTranslated
  have untouched : Untouched project ledger := by
    have first := kept (keeps_electTarget untouched_tolerates (by decide)) elect
      (scan_untouched inventory)
    exact kept (keeps_migrateLedger untouched_tolerates (by decide)) ledgered first
  obtain ⟨known,freshObligations,freshPlan⟩ := untouched
  obtain ⟨lists,rest⟩ := Prod.mk.inj known
  obtain ⟨start,runsKnown⟩ := Prod.mk.inj rest
  have runs : (obligated.legacyFiles,obligated.planTools,obligated.planBlocked) =
      (project.files.map Prod.fst,none,false) :=
    kept (keeps_migrateObligations runs_untouched trivial) obligate (Prod.ext lists runsKnown)
  obtain ⟨lists',runsKnown'⟩ := Prod.mk.inj runs
  obtain ⟨tools,unblocked⟩ := Prod.mk.inj runsKnown'
  have outside : ∀ {path}, path = obligationsPath ∨ path = planPath →
      inputsPath ≠ path ∧ dispatchPath ≠ path ∧ ∀ source, historyPath source ≠ path := by
    rintro _ (rfl | rfl)
    · exact ⟨by decide,by decide,historyPath_apart (by decide)⟩
    · exact ⟨by decide,by decide,historyPath_apart (by decide)⟩
  have fresh : ∀ {path}, path = obligationsPath ∨ path = planPath → Unwritten path planned' →
      Unwritten path plan := fun either unwritten => preflight_unwritten settle
    (kept_behind unwritten_tolerates (outside either) check input dispatch history unwritten)
  have freshPlan' : Unwritten planPath obligated :=
    kept (keeps_migrateObligations unwritten_claims (by decide)) obligate freshPlan
  obtain ⟨sameClaims,coverage'⟩ := migratePlan_ran lists' tools unblocked plans cleanPlanned
  rcases migrateObligations_ran lists freshObligations start obligate cleanObligated with
    unwritten | manifest
  · obtain ⟨write,member,named⟩ := planned
    have still := kept (keeps_migratePlan unwritten_tools (by decide)) plans unwritten
    exact absurd named (fresh (.inl rfl) still write member)
  · obtain ⟨data,settled,encoded⟩ := manifest.written
    have settledPlan : Settled obligationsPath data plan := preflight_settled settle
      (kept_behind settled_tolerates (outside (.inl rfl)) check input dispatch history
        (kept (keeps_migratePlan settled_tools (by decide)) plans settled))
    refine ⟨?_,manifest.named,manifest.converts,manifest.filled,manifest.synthesized,?_,?_⟩
    · intro write member named
      rw [settledPlan.2 write member named]
      exact encoded
    · intro null
      rcases coverage' with ⟨_,_,same⟩ | ⟨notNull,_⟩
      · apply fresh (.inr rfl)
        intro write member
        exact freshPlan' write (same ▸ member)
      · exact absurd null notNull
    · intro notNull
      rcases coverage' with ⟨null,_⟩ | ⟨_,blocks,either⟩
      · exact absurd null notNull
      · have listed := checkRequiredEvidence_ran project blocks check cleanChecked
        rw [sameClaims, manifest.layers] at listed
        have required : ∀ claim ∈ migratedClaims project installation.toHost, ∀ layer ∈ claim.layers,
            layer ∈ planned'.planTools.getD [] := fun claim member =>
          listed _ (List.mem_map.mpr ⟨claim,member,rfl⟩)
        rcases either with none | ⟨layers,data,tools',has,encoded⟩
        · obtain ⟨claim,member⟩ := List.exists_mem_of_ne_nil _ manifest.filled
          obtain ⟨layer,needed⟩ :=
            List.exists_mem_of_ne_nil _ (manifest.synthesized.well claim member).layersFilled
          have declared := required claim member layer needed
          rw [none] at declared
          exact absurd declared List.not_mem_nil
        · rw [tools'] at required
          have everywhere : Tolerates project (fun _ => True) (HasWrite planPath data) :=
            has_tolerates
          exact ⟨layers,⟨data,preflight_has settle (kept_behind everywhere
            ⟨trivial,trivial,fun _ => trivial⟩ check input dispatch history has),encoded⟩,required⟩

end Stages

section Gate

variable {project : Project} {host : Host} {library : Library} {plan : Plan}

/-- The gate loads the document, and the tools that its claims require are declared by executions
of the planned verification plan. -/
def GateLoadable (library : Library) (host : Host) (plan : Plan) (document : PyData) : Prop :=
  ∃ obligations layers, GateManifest.loadManifest library document = .ok obligations ∧
    Planned host plan planPath (planDocument layers) ∧
    ∀ claim ∈ obligations.evidence, ∀ tool ∈ claim.2, tool ∈ toolsOf layers

theorem ManifestKnown.loadable_iff (known : ManifestKnown project host plan) :
    GateLoadable library host plan (migratedManifest project host) ↔
      SpelledApart (namedClaims ((legacyFields project host legacyClaims).getD [])) ∧
        ¬ NullRuns project host := by
  rw [← known.converts.apart_iff known.named]
  constructor
  · rintro ⟨obligations,layers,loaded,⟨_,⟨write,member,named,_⟩,_⟩,_⟩
    apply And.intro (known.synthesized.loaded_apart loaded)
    exact fun null => known.null null write member named
  · intro ⟨apart,notNull⟩
    obtain ⟨layers,planned,covered⟩ := known.covered notNull
    refine ⟨_,layers,known.synthesized.loaded apart,planned,?_⟩
    rw [loaded_evidence]
    intro entry member tool required
    obtain ⟨claim,listed,rfl⟩ := List.mem_map.mp member
    exact covered claim listed tool required

/-- Where an unblocked migration plans a manifest, its bytes are those of the migrated manifest, and
the gate loads it under a plan that covers it exactly when the claims are spelled apart from the
targets and the run manifest is not null. -/
theorem migrated_manifest_loadable_iff (project : Project) (installation : Installation)
    (plan : Plan) (built : build project installation = .ok plan) (clear : blocked plan = false)
    (planned : ∃ write ∈ plan.writes, write.path = obligationsPath) :
    (∀ write ∈ plan.writes, write.path = obligationsPath →
      canonicalJson installation.toHost (migratedManifest project installation.toHost) =
        .ok write.data) ∧
    (GateLoadable installation.toLibrary installation.toHost plan
        (migratedManifest project installation.toHost) ↔
      SpelledApart (namedClaims
          ((legacyFields project installation.toHost legacyClaims).getD [])) ∧
        ¬ NullRuns project installation.toHost) :=
  ⟨(manifest_known built clear planned).written,(manifest_known built clear planned).loadable_iff⟩

end Gate

section Sample

/-- A text in quotation marks, without control characters other than the line feed. -/
def quotedText (value : PyString) : PyString :=
  [34] ++ value.flatMap (fun c =>
    if c = 34 ∨ c = 92 then [92,c] else if c = 10 then [92,110] else [c]) ++ [34]

mutual

/-- `json.dumps` with an indentation of two, for values without fractions. -/
def pretty (indent : ℕ) : PyData → PyString
  | .none => "null"
  | .bool value => if value then "true" else "false"
  | .int value => points (toString value)
  | .float _ => "NaN"
  | .str value => quotedText value
  | .list [] => "[]"
  | .list entries => say ["[\n",prettyEntries (indent+2) entries,"\n",List.replicate indent 32,"]"]
  | .dict [] => "\x7b\x7d"
  | .dict fields =>
    say ["\x7b\n",prettyFields (indent+2) fields,"\n",List.replicate indent 32,"\x7d"]

def prettyEntries (indent : ℕ) : List PyData → PyString
  | [] => []
  | entry :: rest => say [List.replicate indent 32,pretty indent entry,
      if rest.isEmpty then [] else ",\n",prettyEntries indent rest]

def prettyFields (indent : ℕ) : PyFields → PyString
  | [] => []
  | (key,value) :: rest => say [List.replicate indent 32,quotedText key,": ",pretty indent value,
      if rest.isEmpty then [] else ",\n",prettyFields indent rest]

end

def legacyClaim (name : PyString) (target : PyString) : PyData :=
  .dict [("claim_id",.str name),("required_targets",strings [target]),("layers",strings ["kani"])]

/-- Two claims, where one may require a target that is spelled like the other. -/
def legacyManifest (first : PyString) : PyData :=
  .dict [("schema",.str "colosseum-g1-claims"),("version",.int 1),
    ("claims",.list [legacyClaim first "kani:proof",legacyClaim "beta" "quint:inv"])]

def legacyRuns : PyData :=
  .dict [("schema",.str "colosseum-layer-runs"),("version",.int 2),
    ("runs",.list [.dict [("layer",.str "kani"),("cwd",.str "."),("command",.str "cargo kani")]])]

def sampleDocuments : List PyData := [legacyManifest "quint:inv",legacyManifest "alpha",legacyRuns]

def sampleHost : Host where
  repr := pretty 0
  loads := fun text => sampleDocuments.find? (fun document => pretty 0 document = text)
  sha256 := fun _ => []
  dumps := pretty 0
  decodeError := fun _ => []
  wordCharacter := fun c => GateManifest.alphanumeric c || c == 95

def sampleInstallation : Installation where
  toHost := sampleHost
  lowerCase :=
    { char := fun _ _ c => [if c.toNat < 128 then c.toLower else c]
      ascii := fun _ _ c small => by rw [if_pos small]
      other := fun _ _ c large => .inr ⟨c,by simp [Nat.not_lt.mpr large],large⟩ }
  rejected := fun _ => []
  template := [("omp_native",.dict [("project_root",.str "."),("target_spec",.str ".fv/intent.md")])]

def jsonFile (document : PyData) : LegacyEntry :=
  .file (.ok (ScalarText.encode (pretty 0 document))) false

/-- A project with an intent, a claim manifest and a run manifest in its legacy tree. -/
def sampleProject (manifest runs : PyData) : Project where
  root := ["p"]
  legacy := some (.directory
    [("evidence",.directory [("runs",.directory [("layer-runs.json",jsonFile runs)])]),
      ("g1-claims.json",jsonFile manifest),
      ("intent.md",.file (.ok (ScalarText.encode "Goal\n")) false)])
  isSymlink := fun _ => false
  isDir := fun path => path = ["p"]
  isFile := fun _ => false
  present := fun path => path = ["p"]
  writable := fun _ => true
  resolve := .ok
  readBytes := fun _ => .error []
  mode := fun _ => 0
  gateA := fun _ => (.unavailable,[])

def isNull : PyData → Bool
  | .none => true
  | _ => false

/-- The migration ends unblocked and plans a manifest. -/
def plansManifest (project : Project) (installation : Installation) : Bool :=
  match build project installation with
  | .ok plan => !blocked plan && (plan.writes.map PlannedWrite.path).contains obligationsPath
  | .error _ => false

theorem plansManifest_some (project : Project) (installation : Installation)
    (h : plansManifest project installation = true) : ∃ plan,
      build project installation = .ok plan ∧ blocked plan = false ∧
        ∃ write ∈ plan.writes, write.path = obligationsPath := by
  unfold plansManifest at h
  rcases built : build project installation with failure | plan
  · simp only [built] at h
    cases h
  · rw [built] at h
    simp only [Bool.and_eq_true, Bool.not_eq_true', List.contains_iff_mem, List.mem_map] at h
    exact ⟨plan,rfl,h⟩

theorem samples_planned : ∀ name ∈ [points "alpha",points "quint:inv"],
    plansManifest (sampleProject (legacyManifest name) legacyRuns) sampleInstallation = true := by
  decide +kernel

theorem migrated_manifest_loadable_alpha : ∃ plan,
    build (sampleProject (legacyManifest "alpha") legacyRuns) sampleInstallation = .ok plan ∧
      GateLoadable sampleInstallation.toLibrary sampleInstallation.toHost plan
        (migratedManifest (sampleProject (legacyManifest "alpha") legacyRuns) sampleHost) := by
  obtain ⟨plan,built,clear,planned⟩ := plansManifest_some
    (sampleProject (legacyManifest "alpha") legacyRuns) sampleInstallation
    (samples_planned _ List.mem_cons_self)
  refine ⟨plan,built,(migrated_manifest_loadable_iff _ _ plan built clear planned).2.mpr ⟨?_,?_⟩⟩
  · unfold SpelledApart
    decide +kernel
  · rintro ⟨data,held,parsed⟩
    have filled : (((sampleProject (legacyManifest "alpha") legacyRuns).readLegacy
        legacyLayerRuns).toOption.bind (parseDocument sampleHost)).any isNull = false := by
      decide +kernel
    have null : (((sampleProject (legacyManifest "alpha") legacyRuns).readLegacy
        legacyLayerRuns).toOption.bind (parseDocument sampleHost)).any isNull = true := by
      rw [held]
      show (parseDocument sampleHost data).any isNull = true
      rw [show parseDocument sampleHost data = some .none from parsed]
      rfl
    exact Bool.false_ne_true (filled.symm.trans null)

/-- A claim that is spelled like a target of another claim is declared twice. -/
theorem claim_spelled_like_target_refused :
    ¬ ∀ (project : Project) (installation : Installation) (plan : Plan),
      build project installation = .ok plan → blocked plan = false →
      (∃ write ∈ plan.writes, write.path = obligationsPath) →
      GateLoadable installation.toLibrary installation.toHost plan
        (migratedManifest project installation.toHost) := by
  intro all
  obtain ⟨plan,built,clear,planned⟩ := plansManifest_some
    (sampleProject (legacyManifest "quint:inv") legacyRuns) sampleInstallation
    (samples_planned _ (List.mem_cons_of_mem _ List.mem_cons_self))
  have apart := ((manifest_known built clear planned).loadable_iff.mp
    (all _ _ plan built clear planned)).1
  revert apart
  unfold SpelledApart
  decide +kernel

end Sample

end Migration

end EvidenceV4
