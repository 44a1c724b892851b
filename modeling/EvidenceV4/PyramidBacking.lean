import EvidenceV4.PyramidVerdict

/-!
# A headless pass is backed, up to a cut listing

Each kind of layer has its backing: the declared executions of a plan layer, the
measurements of the floors, the targets of the fuzz layer. All of them hold in
every run except the last, which holds exactly when no target of the listing
stands only in front of the part that the runner keeps.
-/

set_option autoImplicit false

namespace EvidenceV4

namespace PyramidRun

open CheckedExcept
open CheckerJson (PyString points)
open PolicyDocument (mapGet mapGet_mem mapGet_isSome)
open PyramidFloors
open PyramidPlan (layerOrder planLayerOrder Execution parsePlan parsePlan_ok Declares Describes
  Accepted declaredLayers forall₂_comp forall₂_zipIdx forall₂_left)
open PythonData

section Declared

variable {host : Host} {arguments : Arguments} {plan : PlanLayers} {required : List PyString}
  {layer : PyString} {record : Record} {records : List Record}

/-- A command that runs a declared execution and ends with exit code zero. -/
def RunsDeclared (host : Host) (layer : PyString) (raw : PyData)
    (command : (Invocation × PyramidFloors.Result) × ℕ) : Prop :=
  ∃ fields, raw = .dict fields ∧ Declares host.crate.toDirectories fields command.1.1.argv
    command.1.1.cwd command.1.1.timeout command.1.1.env ∧ Exited host layer command

/-- Every declared execution of the layer was run once, in order, and succeeded. -/
def DeclaredBacked (host : Host) (document : PyData) (record : Record) : Prop :=
  ∃ raws, lookup (PythonData.get (declaredLayers document) record.layer) "executions" = .list raws ∧
    List.Forall₂ (RunsDeclared host record.layer) raws record.commands.zipIdx

theorem declaredRecord_backed {spec : PyramidPlan.Layer} {raws : List PyData}
    (described : List.Forall₂ (fun raw (execution : Execution) => ∃ fields, raw = PyData.dict fields ∧
      Declares host.crate.toDirectories fields execution.argv (host.crate.root ++ execution.cwd)
        execution.timeoutSeconds execution.env) raws spec.executions)
    (ran : declaredRecord host layer spec = .ok record) (passed : record.status = .passed) :
    List.Forall₂ (RunsDeclared host record.layer) raws record.commands.zipIdx := by
  obtain ⟨rfl,each,status⟩ := declaredRecord_ok ran
  have zero := status.mp passed
  have both := forall₂_comp described each
  have whole : List.Forall₂ (fun raw command => (∃ execution : Execution, (∃ fields,
      raw = PyData.dict fields ∧ Declares host.crate.toDirectories fields execution.argv
        (host.crate.root ++ execution.cwd) execution.timeoutSeconds execution.env) ∧
      command.1.1 = (⟨execution.argv,host.crate.root ++ execution.cwd,execution.timeoutSeconds,
        execution.env⟩ : Invocation) ∧ Ran host record.layer command) ∧
      command ∈ record.commands.zipIdx) raws record.commands.zipIdx := by
    rw [List.forall₂_iff_get] at both ⊢
    exact ⟨both.1,fun i first second => ⟨both.2 i first second,List.get_mem _ _⟩⟩
  apply whole.imp
  rintro raw command ⟨⟨execution,⟨fields,same,declares⟩,started,done⟩,member⟩
  have known : command.1 ∈ record.commands := List.fst_mem_of_mem_zipIdx member
  refine ⟨fields,same,?_,done.exited.mpr (zero _ known)⟩
  rw [started]
  exact declares

theorem origin_declared {document : PyData} (accepted : Accepted host.crate.toDirectories document plan)
    (origin : Origin host arguments plan required records record)
    (declared : record.layer ∈ (declaredLayers document).map Prod.fst)
    (passed : record.status = .passed) : DeclaredBacked host document record := by
  cases origin with
  | abandoned status =>
    rw [status] at passed
    exact absurd passed (by decide)
  | floors fuzz _ named =>
    rw [named] at declared
    exact absurd (List.mem_singleton.mpr rfl) (accepted.unreserved _ declared)
  | layered builtIn _ ran =>
    obtain ⟨spec,found⟩ := Option.isSome_iff_exists.mp ((accepted.declared record.layer).mpr declared)
    obtain ⟨raws,listed,described⟩ := (accepted.describes _ _ found).executions
    rcases planLayer_ok ran with ⟨absent,-⟩ | ⟨_,-,-,same⟩ | ⟨spec',declaredRec,found',-,made,same⟩
    · rw [found] at absent
      exact absurd absent (by simp)
    · rw [Option.some.inj same] at passed
      exact absurd passed (by simp [skippedByFlag, noted])
    · rw [found] at found'
      cases found'
      cases same
      exact ⟨raws,listed,declaredRecord_backed described made passed⟩

end Declared

section Floors

variable {host : Host} {arguments : Arguments} {plan : PlanLayers} {required : List PyString}
  {record : Record} {records : List Record} {floors : Floors} {fuzz : Option Record}

/-- Every public module carries the tests that the bar asks for. -/
def BarMet (host : Host) (floors : Floors) : Prop :=
  ∀ minimum files, toInt host.alphabet floors.minPerModule = .ok minimum →
    host.crate.sources = .ok (some files) → ∀ file ∈ files,
    hasPublicApi host.alphabet file.2 = true →
      minimum ≤ countTests host.alphabet file.2 (truthy floors.requirePropertyTests)

/-- Every declared surface has a target, and the fuzz layer of the run measured it long enough. -/
def SurfacesMet (host : Host) (records : List Record) (floors : Floors) : Prop :=
  truthy floors.surfaces = true → ∃ names minimum, iterate floors.surfaces = .ok names ∧
    toInt host.alphabet floors.minSeconds = .ok minimum ∧ ∀ surface ∈ names,
      host.crate.fuzzTarget (say [shown host.library surface,".rs"]) = true ∧
      ∃ fuzz ∈ records, fuzz.layer = points "fuzz" ∧ fuzz.status = .passed ∧
        ∃ duration, durationOf fuzz.detail.durations surface = .ok duration ∧ (minimum : ℚ) ≤ duration

/-- Every combination of features was compiled. -/
def MatrixMet (host : Host) (floors : Floors) (commands : List (Invocation × PyramidFloors.Result)) : Prop :=
  (∀ command ∈ commands.zipIdx, Exited host comboLayer command) ∧
    (truthy floors.matrix = true → ∃ entries, iterate floors.matrix = .ok entries ∧
      commands.length = entries.length)

/-- No sub-check of the floors failed or could not be measured. -/
def FloorsBacked (host : Host) (records : List Record) (record : Record) : Prop :=
  ∃ floors workspace checks,
    loadFloors host.library host.crate.floorsPath host.crate.floorsFile = .ok floors ∧
    record.detail = .floors workspace checks ∧
    (∀ status ∈ checks.statuses, status ≠ .failed ∧ status ≠ .skipped) ∧
    MatrixMet host floors record.commands ∧ BarMet host floors ∧ SurfacesMet host records floors

theorem aggregate_passed {statuses : List Status} (h : aggregate statuses = .passed)
    {status : Status} (member : status ∈ statuses) : status ≠ .failed ∧ status ≠ .skipped := by
  unfold aggregate at h
  split at h
  · exact absurd h (by decide)
  · rename_i unfailed
    split at h
    · exact absurd h (by decide)
    · rename_i unskipped
      constructor
      · rintro rfl
        exact unfailed member
      · rintro rfl
        exact unskipped member

theorem runCombo_ok {workspace : Bool} {entry : PyData × ℕ} {found : Combo × Invocation × PyramidFloors.Result}
    (h : runCombo host.crate host.machine workspace entry = .ok found) :
    Ran host comboLayer (found.2,entry.2) := by
  unfold runCombo at h
  split at h
  · simp only [bind_ok, pure_ok] at h
    obtain ⟨features,-,ran,started,rfl⟩ := h
    exact (execute_ok.mp started).2
  · exact absurd h (by simp)

theorem runMatrix_met {workspace : Bool} {matrix : PyData}
    {found : FeatureMatrix × List (Invocation × PyramidFloors.Result)}
    (h : runMatrix host.crate host.machine workspace matrix = .ok found)
    (good : found.1.status ≠ .failed) :
    (∀ command ∈ found.2.zipIdx, Exited host comboLayer command) ∧
      ∃ entries, iterate matrix = .ok entries ∧ found.2.length = entries.length := by
  simp only [runMatrix, bind_ok, pure_ok] at h
  obtain ⟨entries,listed,combos,each,rfl⟩ := h
  dsimp only at good ⊢
  rw [Ne, statusOf_failed, not_not] at good
  have pairs := forall₂_zipIdx 0 ((mapM_ok _ _ _).mp each)
  constructor
  · intro command member
    rw [List.zipIdx_map] at member
    obtain ⟨combo,known,rfl⟩ := List.mem_map.mp member
    obtain ⟨entry,-,now⟩ := forall₂_mem_right pairs known
    have zero := good _ (List.fst_mem_of_mem_zipIdx known)
    exact (runCombo_ok now).exited.mpr zero
  · refine ⟨entries,listed,?_⟩
    rw [List.length_map]
    have same := ((mapM_ok _ _ _).mp each).length_eq
    rw [List.length_zipIdx] at same
    exact same.symm

theorem featureMatrix_met {workspace : Bool} {found : FeatureMatrix × List (Invocation × PyramidFloors.Result)}
    (h : featureMatrix host.crate host.machine workspace floors = .ok found)
    (good : found.1.status ≠ .failed) : MatrixMet host floors found.2 := by
  unfold featureMatrix at h
  split at h
  · have met := runMatrix_met h good
    exact ⟨met.1,fun _ => met.2⟩
  · rename_i undeclared
    split at h
    · simp only [bind_ok, pure_ok] at h
      obtain ⟨ran,started,rfl⟩ := h
      refine ⟨?_,fun declared => absurd declared undeclared⟩
      intro command member
      rw [List.zipIdx_singleton, List.mem_singleton] at member
      subst member
      have zero : ran.2.returncode = 0 := by
        by_contra bad
        exact good (statusOf_failed.mpr bad)
      exact (execute_ok.mp started).2.exited.mpr zero
    · rw [pure_ok] at h
      subst h
      exact ⟨by rintro _ ⟨⟩,fun declared => absurd declared undeclared⟩

theorem modulesBelowBar_met {bar : PropertyBar}
    (h : modulesBelowBar host.alphabet host.crate floors = .ok bar) (good : bar.status ≠ .failed) :
    BarMet host floors := by
  simp only [modulesBelowBar, bind_ok] at h
  obtain ⟨minimum,isMinimum,sources,isSources,h⟩ := h
  intro minimum' files isMinimum' isFiles file member isPublic
  rw [isMinimum] at isMinimum'
  rw [isSources] at isFiles
  cases isMinimum'
  cases isFiles
  dsimp only at h
  rw [pure_ok] at h
  subst h
  unfold barOf at good
  dsimp only at good
  by_contra short
  apply good
  rw [if_neg]
  · rw [statusOf_failed]
    intro none_below
    have below : file ∈ (files.filter (fun file => hasPublicApi host.alphabet file.2)).filter
        (fun file => (countTests host.alphabet file.2 (truthy floors.requirePropertyTests) : ℤ) <
          minimum) := by
      simp only [List.mem_filter, decide_eq_true_eq]
      exact ⟨⟨member,isPublic⟩,not_le.mp short⟩
    rw [none_below] at below
    exact List.not_mem_nil below
  · intro no_modules
    have kept : file ∈ files.filter (fun file => hasPublicApi host.alphabet file.2) :=
      List.mem_filter.mpr ⟨member,isPublic⟩
    rw [no_modules] at kept
    exact List.not_mem_nil kept

theorem shortSurfaces_none {durations : List (PyString × ℚ)} {minimum : ℤ} {surfaces : List PyData}
    (h : shortSurfaces durations minimum surfaces = .ok []) {surface : PyData}
    (member : surface ∈ surfaces) :
    ∃ duration, durationOf durations surface = .ok duration ∧ (minimum : ℚ) ≤ duration := by
  simp only [shortSurfaces, bind_ok, pure_ok] at h
  obtain ⟨timed,each,none_short⟩ := h
  obtain ⟨entry,known,now⟩ := mapM_mem each member
  simp only [bind_ok, pure_ok] at now
  obtain ⟨duration,measured,rfl⟩ := now
  refine ⟨duration,measured,?_⟩
  by_contra short
  have listed : (surface,duration) ∈ timed.filter (fun entry => entry.2 < (minimum : ℚ)) := by
    simp only [List.mem_filter, decide_eq_true_eq]
    exact ⟨known,Rat.not_le.mp short⟩
  rw [List.map_eq_nil_iff.mp none_short] at listed
  exact List.not_mem_nil listed

theorem fuzzSurfaceCheck_met {minimum : ℤ} {found : FuzzSurfaces}
    (isMinimum : toInt host.alphabet floors.minSeconds = .ok minimum)
    (h : fuzzSurfaceCheck host.library host.crate floors.surfaces minimum (fuzz.map measured) =
      .ok found) (unfailed : found.status ≠ .failed) (measurable : found.status ≠ .skipped)
    (known : ∀ record ∈ fuzz, record ∈ records ∧ record.layer = points "fuzz") :
    SurfacesMet host records floors := by
  intro declared
  unfold fuzzSurfaceCheck at h
  rw [if_neg (by simp [declared])] at h
  simp only [bind_ok] at h
  obtain ⟨names,listed,h⟩ := h
  split at h
  · rw [pure_ok] at h
    subst h
    exact absurd rfl unfailed
  · rename_i complete
    rw [ne_eq, not_not, List.filter_eq_nil_iff] at complete
    split at h
    · rw [pure_ok] at h
      subst h
      exact absurd rfl measurable
    · rename_i times isMeasured
      obtain ⟨isFuzz,passed⟩ := Option.filter_eq_some_iff.mp isMeasured
      obtain ⟨record,isRecord,rfl⟩ := Option.map_eq_some_iff.mp isFuzz
      simp only [bind_ok, pure_ok] at h
      obtain ⟨short,isShort,rfl⟩ := h
      have nothing_short : short = [] := by
        by_contra bad
        exact unfailed (statusOf_failed.mpr bad)
      subst nothing_short
      refine ⟨names,minimum,listed,isMinimum,fun surface member => ⟨?_,record,?_⟩⟩
      · simpa using complete surface member
      · exact ⟨(known record isRecord).1,(known record isRecord).2,of_decide_eq_true passed,
          shortSurfaces_none isShort member⟩

theorem floorsRecord_backed (h : floorsRecord host fuzz = .ok record)
    (passed : record.status = .passed)
    (known : ∀ record ∈ fuzz, record ∈ records ∧ record.layer = points "fuzz") :
    FloorsBacked host records record := by
  unfold floorsRecord at h
  split at h
  · rw [pure_ok] at h
    subst h
    exact absurd passed (by simp [noted])
  · exact absurd h (by simp)
  · rename_i floors loaded
    simp only [measuredFloors, floorsLayer, bind_ok, pure_ok] at h
    obtain ⟨toml,-,_,⟨matrix,isMatrix,bar,isBar,minimum,isMinimum,surfaces,isSurfaces,rfl⟩,rfl⟩ := h
    have good {status : Status} (member : status ∈ [matrix.1.status,bar.status,surfaces.status]) :=
      aggregate_passed passed member
    exact ⟨floors,isWorkspace toml,⟨matrix.1,bar,surfaces⟩,loaded,rfl,fun status => good,
      featureMatrix_met isMatrix (good (by simp)).1,modulesBelowBar_met isBar (good (by simp)).1,
      fuzzSurfaceCheck_met isMinimum isSurfaces (good (by simp)).1 (good (by simp)).2 known⟩

theorem origin_floors (origin : Origin host arguments plan required records record)
    (named : record.layer = points "floors") (passed : record.status = .passed) :
    FloorsBacked host records record := by
  cases origin with
  | abandoned status =>
    rw [status] at passed
    exact absurd passed (by decide)
  | floors fuzz known _ ran =>
    rcases floorsBuiltIn_ok ran with none_found | same | ⟨found,same,made⟩
    · exact absurd none_found (by simp)
    · rw [Option.some.inj same] at passed
      exact absurd passed (by decide)
    · rw [← Option.some.inj same] at made
      exact floorsRecord_backed made passed known
  | layered _ other => exact absurd named other

end Floors

section Fuzz

variable {host : Host} {arguments : Arguments} {plan : PlanLayers} {required : List PyString}
  {layer : PyString} {record : Record} {records : List Record}

/-- A command that ends with exit code zero. -/
def Succeeds (host : Host) (layer : PyString) (index : ℕ) : Prop :=
  ∃ completion, host.machine layer index = .ok completion ∧ exitedZero completion

theorem Ran.succeeds {command : (Invocation × PyramidFloors.Result) × ℕ} (ran : Ran host layer command) :
    Succeeds host layer command.2 ↔ command.1.2.returncode = 0 := by
  rw [← ran.exited]
  obtain ⟨completion,done,same⟩ := ran
  constructor
  · rintro ⟨other,done',zero⟩
    rw [done] at done'
    cases done'
    exact ⟨completion,done,same,zero⟩
  · rintro ⟨other,done',-,zero⟩
    exact ⟨other,done',zero⟩

/-- The targets among the last characters of a listing. -/
def keptTargets (listing : Completion) : List PyString := words (preview listing.stdout)

theorem listedTargets_runCmd {argv : List PyString} {listing : Completion} :
    listedTargets (runCmd argv listing) = keptTargets listing := by
  cases listing <;> simp [listedTargets, runCmd, keptTargets, Completion.stdout, preview]

/-- Every target that the listing printed was run and ended with exit code zero. -/
def TargetsRun (host : Host) (arguments : Arguments) (record : Record) (listing : Completion) :
    Prop :=
  ∀ target ∈ words listing.stdout, ∃ command ∈ record.commands.zipIdx,
    command.1.1 = fuzzInvocation host arguments target ∧ Exited host "fuzz" command

theorem mem_zipIdx_succ {α : Type} {xs : List α} {x : α} {i : ℕ} (n : ℕ)
    (member : (x,i) ∈ xs.zipIdx n) : (x,i + 1) ∈ xs.zipIdx (n + 1) := by
  rw [List.zipIdx_succ]
  exact List.mem_map.mpr ⟨(x,i),member,rfl⟩

/-- What the built-in fuzz layer starts: the listing, then one run for each target kept. -/
theorem fuzzTargets_ok (h : fuzzTargets host arguments = .ok record) :
    ∃ listing first ran, host.machine "fuzz" 0 = .ok listing ∧ record.layer = points "fuzz" ∧
      record.commands = first :: ran ∧
      first.1.argv = ["cargo","fuzz","list"].map points ∧
      List.Forall₂ (fun target (command : (Invocation × PyramidFloors.Result) × ℕ) =>
        command.1.1 = fuzzInvocation host arguments target ∧
          Ran host "fuzz" (command.1,command.2 + 1)) (keptTargets listing) ran.zipIdx ∧
      (record.status = .passed ↔ keptTargets listing ≠ [] ∧
        ∀ command ∈ ran, command.2.returncode = 0) := by
  simp only [fuzzTargets, bind_ok, pure_ok] at h
  obtain ⟨first,listed,ran,each,rfl⟩ := h
  obtain ⟨started,listing,done,same⟩ := execute_ok.mp listed
  dsimp only at same
  rw [same, listedTargets_runCmd] at each
  have pairs := forall₂_zipIdx 0 ((mapM_ok _ _ _).mp each)
  refine ⟨listing,first,ran,done,rfl,rfl,by rw [started]; rfl,?_,?_⟩
  · apply pairs.imp
    intro target command now
    exact execute_ok.mp now
  · dsimp only
    rw [statusOf_passed, same, listedTargets_runCmd]

theorem fuzzTargets_run {listing : Completion} (h : fuzzTargets host arguments = .ok record)
    (passed : record.status = .passed) (done : host.machine "fuzz" 0 = .ok listing)
    (covered : ∀ target ∈ words listing.stdout, target ∈ keptTargets listing) :
    TargetsRun host arguments record listing := by
  obtain ⟨listing',first,ran,done',-,started,-,each,status⟩ := fuzzTargets_ok h
  rw [done] at done'
  cases done'
  intro target member
  obtain ⟨command,known,invoked,finished⟩ := forall₂_mem_left each (covered target member)
  have zero := (status.mp passed).2 _ (List.fst_mem_of_mem_zipIdx known)
  refine ⟨(command.1,command.2 + 1),?_,invoked,finished.exited.mpr zero⟩
  rw [started, List.zipIdx_cons]
  exact List.mem_cons_of_mem _ (mem_zipIdx_succ 0 known)

theorem fuzzInvocation_injective {first second : PyString}
    (h : fuzzInvocation host arguments first = fuzzInvocation host arguments second) :
    first = second := by
  simp only [fuzzInvocation, inCrate, Invocation.mk.injEq, List.cons.injEq] at h
  exact h.1.2.2.2.1

theorem fuzzTargets_kept {listing : Completion} (h : fuzzTargets host arguments = .ok record)
    (done : host.machine "fuzz" 0 = .ok listing) {target : PyString}
    {command : (Invocation × PyramidFloors.Result) × ℕ} (member : command ∈ record.commands.zipIdx)
    (invoked : command.1.1 = fuzzInvocation host arguments target) :
    target ∈ keptTargets listing := by
  obtain ⟨listing',first,ran,done',-,started,isListing,each,-⟩ := fuzzTargets_ok h
  rw [done] at done'
  cases done'
  have known := List.fst_mem_of_mem_zipIdx member
  rw [started] at known
  rcases List.mem_cons.mp known with same | later
  · rw [← same, invoked] at isListing
    exact absurd (congrArg List.length isListing) (by simp [fuzzInvocation, inCrate])
  · obtain ⟨index,known⟩ := Findings.mem_zipIdx_of_mem later
    obtain ⟨other,kept,invoked',-⟩ := forall₂_mem_right each known
    rw [invoked] at invoked'
    rw [fuzzInvocation_injective invoked']
    exact kept

theorem fuzzTargets_passed {listing : Completion} (h : fuzzTargets host arguments = .ok record)
    (done : host.machine "fuzz" 0 = .ok listing) :
    record.status = .passed ↔ keptTargets listing ≠ [] ∧
      ∀ i < (keptTargets listing).length, Succeeds host "fuzz" (i + 1) := by
  obtain ⟨listing',first,ran,done',-,-,-,each,status⟩ := fuzzTargets_ok h
  rw [done] at done'
  cases done'
  rw [status]
  apply and_congr_right
  intro _
  have long : (keptTargets listing).length = ran.length := by
    rw [each.length_eq, List.length_zipIdx]
  have ranAt (i : ℕ) (inside : i < ran.length) : Ran host "fuzz" (ran[i],i + 1) := by
    have position : (ran[i],i) ∈ ran.zipIdx := by
      rw [List.mk_mem_zipIdx_iff_getElem?]
      exact List.getElem?_eq_getElem inside
    obtain ⟨target,-,-,finished⟩ := forall₂_mem_right each position
    exact finished
  rw [long]
  constructor
  · intro zero i inside
    exact (ranAt i inside).succeeds.mpr (zero _ (List.getElem_mem inside))
  · intro succeed command member
    obtain ⟨i,inside,rfl⟩ := List.mem_iff_getElem.mp member
    exact (ranAt i inside).succeeds.mp (succeed i inside)

/-- The crate has harnesses, and neither the plan nor the caller takes the fuzz layer over. -/
structure BuiltInFuzz (host : Host) (arguments : Arguments) (plan : PlanLayers) : Prop where
  unplanned : mapGet plan (points "fuzz") = none
  kept : points "fuzz" ∉ arguments.skip
  harnesses : host.crate.hasFuzz = true
  installed : host.which "cargo-fuzz" = true

/-- Some command of the types layer does not end with exit code zero. -/
def TypesFail (host : Host) (arguments : Arguments) (plan : PlanLayers) : Prop :=
  points "types" ∉ arguments.skip ∧
    match mapGet plan (points "types") with
    | none => ¬ Succeeds host "types" 0
    | some spec => ∃ i < spec.executions.length, ¬ Succeeds host "types" i

/-- No target of the listing stands only in front of the characters that are kept, unless some
other command fails. -/
def ListingCovered (host : Host) (arguments : Arguments) (plan : PlanLayers) : Prop :=
  BuiltInFuzz host arguments plan → ¬ TypesFail host arguments plan →
    ∀ listing, host.machine "fuzz" 0 = .ok listing → keptTargets listing ≠ [] →
      (∀ i < (keptTargets listing).length, Succeeds host "fuzz" (i + 1)) →
      ∀ target ∈ words listing.stdout, target ∈ keptTargets listing

theorem declaredRecord_failed {spec : PyramidPlan.Layer}
    (h : declaredRecord host layer spec = .ok record) :
    record.status = .failed ↔ ∃ i < spec.executions.length, ¬ Succeeds host layer i := by
  have whole := declaredRecord_ok h
  simp only [declaredRecord, bind_ok, pure_ok] at h
  obtain ⟨ran,-,rfl⟩ := h
  have each := whole.2.1
  dsimp only at each ⊢
  have long : spec.executions.length = ran.length := by
    rw [each.length_eq, List.length_zipIdx]
  have ranAt (i : ℕ) (inside : i < ran.length) : Ran host layer (ran[i],i) := by
    have position : (ran[i],i) ∈ ran.zipIdx := by
      rw [List.mk_mem_zipIdx_iff_getElem?]
      exact List.getElem?_eq_getElem inside
    obtain ⟨execution,-,-,finished⟩ := forall₂_mem_right each position
    exact finished
  rw [statusOf_failed, long]
  constructor
  · intro bad
    by_contra good
    push Not at good
    apply bad
    intro command member
    obtain ⟨i,inside,rfl⟩ := List.mem_iff_getElem.mp member
    exact (ranAt i inside).succeeds.mp (good i inside)
  · rintro ⟨i,inside,bad⟩ zero
    exact bad ((ranAt i inside).succeeds.mpr (zero _ (List.getElem_mem inside)))

theorem commandRecord_failed {argv : List PyString} (h : commandRecord host layer argv = .ok record) :
    record.status = .failed ↔ ¬ Succeeds host layer 0 := by
  simp only [commandRecord, bind_ok, pure_ok] at h
  obtain ⟨ran,started,rfl⟩ := h
  rw [statusOf_failed, (execute_ok.mp started).2.succeeds]

theorem typesLayer_failed (h : typesLayer host arguments plan = .ok (some record)) :
    record.status = .failed ↔ TypesFail host arguments plan := by
  unfold TypesFail
  rcases planLayer_ok h with ⟨absent,built⟩ | ⟨spec,found,skipped,same⟩ |
    ⟨spec,made,found,kept,declared,same⟩
  · rw [absent]
    split at built
    · rename_i skipped
      rw [pure_ok] at built
      rw [← Option.some.inj built]
      exact iff_of_false (by simp [skippedByFlag, noted]) (fun fails => fails.1 skipped)
    · rename_i kept
      obtain ⟨made,ran,same⟩ := some_map_ok built
      rw [Option.some.inj same, commandRecord_failed ran]
      exact (and_iff_right kept).symm
  · rw [Option.some.inj same]
    exact iff_of_false (by simp [skippedByFlag, noted]) (fun fails => fails.1 skipped)
  · rw [Option.some.inj same, found, declaredRecord_failed declared]
    exact (and_iff_right kept).symm

end Fuzz

section Reports

variable {host : Host} {arguments : Arguments} {plan : PlanLayers} {report : Report}
  {record : Record} {records : List Record}

/-- The plan document that is in effect. -/
def planDocument (host : Host) : Discovery → Option PyData
  | .explicit path => (host.readPlan path).toOption
  | .autodiscovered path => (host.readPlan path).toOption
  | _ => none

theorem loadPlan_accepted {path : PyString} {document : PyData}
    (loaded : loadPlan host path = .ok plan) (read : host.readPlan path = .ok document) :
    Accepted host.crate.toDirectories document plan := by
  unfold loadPlan at loaded
  rw [read] at loaded
  dsimp only at loaded
  split at loaded
  · rename_i parsed accepted
    cases loaded
    exact parsePlan_ok accepted
  · exact absurd loaded (by simp)
  · exact absurd loaded (by simp)

theorem planOf_accepted {discovery : Discovery} {document : PyData}
    (loaded : planOf host discovery = .ok plan)
    (read : planDocument host discovery = some document) :
    Accepted host.crate.toDirectories document plan := by
  have isOk {path : PyString} (h : (host.readPlan path).toOption = some document) :
      host.readPlan path = .ok document := by
    cases found : host.readPlan path with
    | error message =>
      rw [found] at h
      exact absurd h (by simp [Except.toOption])
    | ok value =>
      rw [found] at h
      rw [Option.some.inj h]
  cases discovery with
  | explicit path => exact loadPlan_accepted loaded (isOk read)
  | autodiscovered path => exact loadPlan_accepted loaded (isOk read)
  | disabled path => exact absurd read (by simp [planDocument])
  | absent => exact absurd read (by simp [planDocument])

/-- What a headless report stands for. -/
structure Backed (host : Host) (arguments : Arguments) (report : Report) : Prop where
  verified : report.verdict = .verified arguments.profile ↔
    ∀ layer, Gates arguments.profile host.crate.hasFuzz report.plan layer →
      statusOfLayer report.layers layer = .passed
  failed : ∀ layer, Gates arguments.profile host.crate.hasFuzz report.plan layer →
    statusOfLayer report.layers layer = .failed → report.verdict = .failed
  declared : ∀ document, planDocument host report.discovery = some document →
    ∀ record ∈ report.layers, record.layer ∈ (declaredLayers document).map Prod.fst →
      record.status = .passed → DeclaredBacked host document record
  fuzz : mapGet report.plan (points "fuzz") = none → ∀ record ∈ report.layers,
    record.layer = points "fuzz" → record.status = .passed →
      ∀ listing, host.machine "fuzz" 0 = .ok listing → TargetsRun host arguments record listing
  floors : ∀ record ∈ report.layers, record.layer = points "floors" → record.status = .passed →
    FloorsBacked host report.layers record
  typesFailed : statusOfLayer report.layers "types" = .failed → ∀ record ∈ report.layers,
    record.layer ≠ points "types" → record.status = .notRun ∧ record.commands = []
  widened : ∀ layer ∈ requiredLayers arguments.profile host.crate.hasFuzz [],
    layer ∈ report.required

theorem crashing_ok {α : Type} {x : Except Crash α} {a : α} : crashing x = .ok a ↔ x = .ok a := by
  cases x <;> simp [crashing]

theorem main_ok (h : main host arguments = .ok report) :
    ∃ plan records, planOf host (discover host arguments) = .ok plan ∧
      runLayers host arguments plan
        (requiredLayers arguments.profile host.crate.hasFuzz plan) = .ok records ∧
      report = ⟨arguments.profile,requiredLayers arguments.profile host.crate.hasFuzz plan,
        discover host arguments,plan,records,aggregateVerdict arguments.profile
          (requiredLayers arguments.profile host.crate.hasFuzz plan) records⟩ := by
  simp only [main, bind_ok, check_ok, exists_unit, crashing_ok] at h
  obtain ⟨-,plan,loaded,-,records,ran,kept⟩ := h
  unfold persist at kept
  split at kept
  · cases kept
    exact ⟨plan,records,loaded,ran,rfl⟩
  · exact absurd kept (by simp)

/-- A failed types layer is the only one of its run that was started. -/
theorem runLayers_typesFailed {required : List PyString}
    (h : runLayers host arguments plan required = .ok records)
    (failed : statusOfLayer records "types" = .failed) (member : record ∈ records)
    (other : record.layer ≠ points "types") : record.status = .notRun ∧ record.commands = [] := by
  obtain ⟨types,others,-,named,rfl,rest⟩ := runLayers_ok h
  have behind : record ∈ others := by
    rcases List.mem_cons.mp member with rfl | later
    · exact absurd named other
    · exact later
  rcases rest with ⟨-,rfl⟩ | ⟨good,ran⟩
  · obtain ⟨layer,-,rfl⟩ := List.mem_map.mp behind
    exact ⟨rfl,rfl⟩
  · obtain ⟨found,known,isTypes,bad⟩ := statusOfLayer_record failed (by decide)
    rcases List.mem_cons.mp known with rfl | later
    · exact absurd bad good
    · exact absurd isTypes (laterLayers_origin ran later).1

theorem origin_fuzz {required : List PyString}
    (origin : Origin host arguments plan required records record)
    (unplanned : mapGet plan (points "fuzz") = none) (named : record.layer = points "fuzz")
    (passed : record.status = .passed) :
    BuiltInFuzz host arguments plan ∧ fuzzTargets host arguments = .ok record := by
  cases origin with
  | abandoned status =>
    rw [status] at passed
    exact absurd passed (by decide)
  | floors fuzz _ isFloors =>
    rw [named] at isFloors
    exact absurd isFloors (by decide)
  | layered builtIn _ ran own =>
    rw [own named, named] at ran
    rcases planLayer_ok ran with ⟨-,built⟩ | ⟨spec,found,-⟩ | ⟨spec,_,found,-⟩
    · unfold fuzzBuiltIn at built
      split at built
      · split at built
        · rw [pure_ok] at built
          rw [← Option.some.inj built] at passed
          exact absurd passed (by simp [skippedByFlag, noted])
        · rename_i kept
          split at built
          · rw [pure_ok] at built
            rw [← Option.some.inj built] at passed
            exact absurd passed (by simp [noted])
          · rename_i harnesses
            split at built
            · rw [pure_ok] at built
              rw [← Option.some.inj built] at passed
              exact absurd passed (by simp [noted])
            · rename_i installed
              obtain ⟨made,done,same⟩ := some_map_ok built
              rw [Option.some.inj same]
              exact ⟨⟨unplanned,kept,by simpa using harnesses,by simpa using installed⟩,done⟩
      · rw [pure_ok] at built
        exact absurd built (by simp)
    · rw [unplanned] at found
      exact absurd found (by simp)
    · rw [unplanned] at found
      exact absurd found (by simp)

/-- The built-in fuzz layer of a run that compiles is among its records. -/
theorem runLayers_fuzz {required : List PyString}
    (h : runLayers host arguments plan required = .ok records)
    (builtIn : BuiltInFuzz host arguments plan) (compiled : ¬ TypesFail host arguments plan) :
    ∃ record ∈ records, fuzzTargets host arguments = .ok record := by
  obtain ⟨types,others,isTypes,-,rfl,⟨failed,-⟩ | ⟨-,ran⟩⟩ := runLayers_ok h
  · exact absurd ((typesLayer_failed isTypes).mp failed) compiled
  · simp only [laterLayers, bind_ok, pure_ok] at ran
    obtain ⟨lints,-,proptests,-,fuzz,isFuzz,floors,-,kani,-,verus,-,lean,-,custom,-,rfl⟩ := ran
    unfold planLayer fuzzBuiltIn at isFuzz
    rw [builtIn.unplanned] at isFuzz
    simp only [builtIn.kept, builtIn.harnesses, builtIn.installed, or_true, if_true, if_false,
      Bool.true_eq_false] at isFuzz
    obtain ⟨record,done,same⟩ := some_map_ok isFuzz
    subst same
    exact ⟨record,by simp,done⟩

theorem runLayers_covered {required : List PyString}
    (h : runLayers host arguments plan required = .ok records)
    (backed : mapGet plan (points "fuzz") = none → ∀ record ∈ records,
      record.layer = points "fuzz" → record.status = .passed →
        ∀ listing, host.machine "fuzz" 0 = .ok listing → TargetsRun host arguments record listing) :
    ListingCovered host arguments plan := by
  intro builtIn compiled listing done some_kept succeed target member
  obtain ⟨record,known,ran⟩ := runLayers_fuzz h builtIn compiled
  obtain ⟨_,_,_,-,named,-⟩ := fuzzTargets_ok ran
  have passed := (fuzzTargets_passed ran done).mpr ⟨some_kept,succeed⟩
  obtain ⟨command,started,invoked,-⟩ :=
    backed builtIn.unplanned record known named passed listing done target member
  exact fuzzTargets_kept ran done started invoked

theorem runLayers_targets {required : List PyString}
    (h : runLayers host arguments plan required = .ok records)
    (covered : ListingCovered host arguments plan) (unplanned : mapGet plan (points "fuzz") = none)
    (member : record ∈ records) (named : record.layer = points "fuzz")
    (passed : record.status = .passed) {listing : Completion}
    (done : host.machine "fuzz" 0 = .ok listing) : TargetsRun host arguments record listing := by
  obtain ⟨builtIn,ran⟩ := origin_fuzz (runLayers_origin h member) unplanned named passed
  have compiled : ¬ TypesFail host arguments plan := by
    intro fails
    obtain ⟨types,others,isTypes,isNamed,rfl,⟨-,rfl⟩ | ⟨good,-⟩⟩ := runLayers_ok h
    · rcases List.mem_cons.mp member with rfl | later
      · rw [named] at isNamed
        exact absurd isNamed (by decide)
      · obtain ⟨layer,-,rfl⟩ := List.mem_map.mp later
        exact absurd passed (by simp [noted])
    · exact good ((typesLayer_failed isTypes).mpr fails)
  obtain ⟨some_kept,succeed⟩ := (fuzzTargets_passed ran done).mp passed
  exact fuzzTargets_run ran passed done (covered builtIn compiled listing done some_kept succeed)

end Reports

section Samples

def sampleCrate : Crate :=
  { root := [points "crate"]
    resolve := fun path => .ok path
    isDir := fun _ => .ok true
    hasManifest := true
    hasFuzz := true
    cargoToml := .ok (points "[package]\n")
    floorsPath := "crate/.fv/floors.json"
    floorsFile := .absent
    sources := .ok none
    fuzzTarget := fun _ => true }

/-- A machine on which every command succeeds and `cargo fuzz list` prints the given text. -/
def sampleMachine (listing : PyString) : Machine := fun layer index =>
  .ok (.finished 0 1 (if layer = points "fuzz" ∧ index = 0 then listing else []) [])

def sampleHost (listing : PyString) : Host :=
  { library := ⟨fun _ => [],fun _ => none,fun _ => []⟩
    alphabet := ⟨fun c => customWord c,fun _ => none⟩
    crate := sampleCrate
    discovered := none
    readPlan := fun _ => .error []
    which := fun _ => true
    machine := sampleMachine listing
    unwritable := none }
where
  customWord (c : ℕ) : Bool := PyramidPlan.customStart c || c == 95

def sampleArguments : Arguments := ⟨.tested,[],30,none,false⟩

/-- A listing of numbered targets, one a line. -/
def numbered (count : ℕ) : PyString :=
  (List.range count).flatMap (fun n => say ["target_",number (n + 10),"\n"])

theorem sample_succeeds (listing layer : PyString) (index : ℕ) :
    Succeeds (sampleHost listing) layer index := ⟨_,rfl,rfl⟩

theorem sample_reports (count : ℕ)
    (verdict : (main (sampleHost (numbered count)) sampleArguments).toOption.map Report.verdict =
      some (.verified .tested)) : ∃ report, main (sampleHost (numbered count)) sampleArguments =
        .ok report ∧ report.verdict = .verified .tested := by
  cases ran : main (sampleHost (numbered count)) sampleArguments with
  | error stop =>
    rw [ran] at verdict
    exact absurd verdict (by simp [Except.toOption])
  | ok report =>
    rw [ran] at verdict
    exact ⟨report,rfl,Option.some.inj verdict⟩

end Samples

end PyramidRun

end EvidenceV4
