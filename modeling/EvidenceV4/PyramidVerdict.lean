import EvidenceV4.PlanDeclarations
import EvidenceV4.PyramidRun

/-!
# What backs a headless verdict

A passed layer of the plan ran each declared command once, and the floors passed
only on measurements. The fuzz layer of the runner itself takes its targets from
the end of the listing that was kept, so it may pass without the first of them.
-/

set_option autoImplicit false

namespace EvidenceV4

namespace PyramidRun

open CheckedExcept
open CheckerJson (PyString points)
open PolicyDocument (mapGet mapGet_mem mapGet_isSome)
open PyramidFloors
open PyramidPlan (layerOrder planLayerOrder mem_planLayerOrder Execution parsePlan parsePlan_ok
  Declares Accepted declaredLayers forall₂_comp forall₂_zipIdx forall₂_left)
open PythonData

section Gating

/-- The layers that gate a run: the profile's, the fuzz layer of a crate with harnesses, and
the layers that the plan requires. -/
def Gates (profile : Profile) (hasFuzz : Bool) (plan : PlanLayers) (layer : PyString) : Prop :=
  layer ∈ profileLayers profile ∨ (layer = points "fuzz" ∧ hasFuzz = true) ∨
    ∃ spec, (layer,spec) ∈ plan ∧ spec.required = true

variable {profile : Profile} {hasFuzz : Bool} {plan : PlanLayers} {layer : PyString}

theorem mem_baseLayers : layer ∈ baseLayers profile hasFuzz ↔
    layer ∈ profileLayers profile ∨ (layer = points "fuzz" ∧ hasFuzz = true) := by
  unfold baseLayers
  split
  · rename_i applies
    have long : 3 ≤ (profileLayers profile).length := by
      cases profile <;> decide
    rw [List.mem_insertIdx long]
    simp only [applies.1, and_true]
    exact or_comm
  · rename_i not_inserted
    constructor
    · exact Or.inl
    · rintro (known | ⟨rfl,some_fuzz⟩)
      · exact known
      · by_contra absent
        exact not_inserted ⟨some_fuzz,absent⟩

theorem mem_requiredLayers : layer ∈ requiredLayers profile hasFuzz plan ↔
    Gates profile hasFuzz plan layer := by
  have planned : layer ∈ (plan.filter (fun entry => entry.2.required)).map Prod.fst ↔
      ∃ spec, (layer,spec) ∈ plan ∧ spec.required = true := by
    simp
  unfold requiredLayers Gates
  dsimp only
  split
  · rename_i nothing
    rw [nothing] at planned
    rw [mem_baseLayers, ← or_assoc, ← planned]
    simp
  · rw [mem_planLayerOrder, List.mem_append, mem_baseLayers, planned, or_assoc]

variable {required : List PyString} {records : List Record}

theorem aggregateVerdict_verified : aggregateVerdict profile required records = .verified profile ↔
    ∀ layer ∈ required, statusOfLayer records layer = .passed := by
  have nothing_failed (h : ∀ layer ∈ required, statusOfLayer records layer = .passed) :
      Status.failed ∉ required.map (statusOfLayer records) := by
    intro member
    obtain ⟨layer,known,failed⟩ := List.mem_map.mp member
    rw [h layer known] at failed
    exact absurd failed (by decide)
  unfold aggregateVerdict
  dsimp only
  split
  · rename_i failed
    apply iff_of_false (by simp)
    intro h
    exact nothing_failed h failed
  · split
    · rename_i stopped
      obtain ⟨status,member,bad⟩ := stopped
      obtain ⟨layer,known,rfl⟩ := List.mem_map.mp member
      exact iff_of_false (by simp) (fun h => bad (h layer known))
    · rename_i all_passed
      apply iff_of_true rfl
      intro layer known
      by_contra bad
      exact all_passed ⟨_,List.mem_map_of_mem known,bad⟩

theorem aggregateVerdict_failed (known : layer ∈ required)
    (failed : statusOfLayer records layer = .failed) :
    aggregateVerdict profile required records = .failed := by
  unfold aggregateVerdict
  dsimp only
  rw [if_pos]
  exact List.mem_map.mpr ⟨layer,known,failed⟩

theorem statusOfLayer_record {status : Status} (h : statusOfLayer records layer = status)
    (ran : status ≠ .notRun) : ∃ record ∈ records, record.layer = layer ∧ record.status = status := by
  unfold statusOfLayer at h
  rcases found : mapGet (statuses records) layer with _ | known
  · rw [found] at h
    exact absurd h.symm ran
  · rw [found] at h
    obtain ⟨record,member,same⟩ := List.mem_map.mp (mapGet_mem found)
    obtain ⟨rfl,rfl⟩ := Prod.mk.inj same
    exact ⟨record,member,rfl,h⟩

end Gating

section Records

variable {host : Host} {arguments : Arguments} {plan : PlanLayers} {required : List PyString}
  {layer : PyString} {record : Record} {builtIn : Except Crash (Option Record)}

/-- A command that a layer started, with the completion that its result records. -/
def Ran (host : Host) (layer : PyString) (command : (Invocation × PyramidFloors.Result) × ℕ) : Prop :=
  ∃ completion, host.machine layer command.2 = .ok completion ∧
    command.1.2 = runCmd command.1.1.argv completion

/-- A command that a layer started and that ended with exit code zero. -/
def Exited (host : Host) (layer : PyString) (command : (Invocation × PyramidFloors.Result) × ℕ) : Prop :=
  ∃ completion, host.machine layer command.2 = .ok completion ∧
    command.1.2 = runCmd command.1.1.argv completion ∧ exitedZero completion

theorem execute_ok {index : ℕ} {invocation : Invocation} {command : Invocation × PyramidFloors.Result} :
    execute host.machine layer index invocation = .ok command ↔
      command.1 = invocation ∧ Ran host layer (command,index) := by
  simp only [execute, bind_ok, pure_ok, Ran]
  constructor
  · rintro ⟨completion,done,rfl⟩
    exact ⟨rfl,completion,done,rfl⟩
  · rintro ⟨rfl,completion,done,same⟩
    exact ⟨completion,done,by rw [← same]⟩

theorem Ran.exited {command : (Invocation × PyramidFloors.Result) × ℕ} (ran : Ran host layer command) :
    Exited host layer command ↔ command.1.2.returncode = 0 := by
  obtain ⟨completion,done,same⟩ := ran
  rw [same, runCmd_returncode]
  constructor
  · rintro ⟨other,done',-,zero⟩
    rw [done] at done'
    cases done'
    exact zero
  · intro zero
    exact ⟨completion,done,same,zero⟩

@[simp] theorem statusOf_passed {good : Prop} [Decidable good] : statusOf good = .passed ↔ good := by
  unfold statusOf
  split <;> simp_all

@[simp] theorem statusOf_failed {good : Prop} [Decidable good] :
    statusOf good = .failed ↔ ¬ good := by
  unfold statusOf
  split <;> simp_all

theorem planLayer_ok {found : Option Record}
    (h : planLayer host arguments plan layer builtIn = .ok found) :
    (mapGet plan layer = none ∧ builtIn = .ok found) ∨
      (∃ spec, mapGet plan layer = some spec ∧ layer ∈ arguments.skip ∧
        found = some (skippedByFlag layer)) ∨
      ∃ spec record, mapGet plan layer = some spec ∧ layer ∉ arguments.skip ∧
        declaredRecord host layer spec = .ok record ∧ found = some record := by
  unfold planLayer at h
  split at h
  · exact .inl ⟨by assumption,h⟩
  · rename_i spec found'
    split at h
    · rename_i skipped
      rw [pure_ok] at h
      exact .inr (.inl ⟨spec,found',skipped,h.symm⟩)
    · rename_i kept
      rw [map_ok] at h
      obtain ⟨record,declared,same⟩ := h
      exact .inr (.inr ⟨spec,record,found',kept,declared,same.symm⟩)

theorem declaredRecord_ok {spec : PyramidPlan.Layer}
    (h : declaredRecord host layer spec = .ok record) :
    record.layer = layer ∧
      List.Forall₂ (fun (execution : Execution) (command : (Invocation × PyramidFloors.Result) × ℕ) =>
        command.1.1 = ⟨execution.argv,host.crate.root ++ execution.cwd,
          execution.timeoutSeconds,execution.env⟩ ∧ Ran host layer command)
        spec.executions record.commands.zipIdx ∧
      (record.status = .passed ↔ ∀ command ∈ record.commands, command.2.returncode = 0) := by
  simp only [declaredRecord, bind_ok, pure_ok] at h
  obtain ⟨ran,each,rfl⟩ := h
  refine ⟨rfl,?_,statusOf_passed⟩
  have started := forall₂_zipIdx 0 ((mapM_ok _ _ _).mp each)
  apply started.imp
  intro entry command now
  exact execute_ok.mp now

end Records

section Runs

variable {host : Host} {arguments : Arguments} {plan : PlanLayers} {required : List PyString}
  {layer : PyString} {record : Record} {records : List Record}

theorem planLayer_named {builtIn : Except Crash (Option Record)}
    (named : ∀ found, builtIn = .ok (some found) → found.layer = layer)
    (h : planLayer host arguments plan layer builtIn = .ok (some record)) :
    record.layer = layer := by
  rcases planLayer_ok h with ⟨-,built⟩ | ⟨spec,-,-,same⟩ | ⟨spec,found,-,-,declared,same⟩
  · exact named record built
  · rw [Option.some.inj same]
    rfl
  · rw [Option.some.inj same]
    exact (declaredRecord_ok declared).1

theorem commandRecord_named {argv : List PyString}
    (h : commandRecord host layer argv = .ok record) : record.layer = layer := by
  simp only [commandRecord, bind_ok, pure_ok] at h
  obtain ⟨ran,-,rfl⟩ := h
  rfl

theorem some_map_ok {x : Except Crash Record} {found : Option Record}
    (h : some <$> x = .ok found) : ∃ record, x = .ok record ∧ found = some record := by
  rw [map_ok] at h
  obtain ⟨record,ran,same⟩ := h
  exact ⟨record,ran,same.symm⟩

theorem cargoLayer_ok {argv : List PyString} {found : Option Record}
    (h : cargoLayer host arguments plan layer argv = .ok found) :
    ∃ record, found = some record ∧ record.layer = layer := by
  rcases planLayer_ok h with ⟨-,built⟩ | ⟨spec,-,-,same⟩ | ⟨spec,found,-,-,declared,same⟩
  · split at built
    · rw [pure_ok] at built
      exact ⟨_,built.symm,rfl⟩
    · obtain ⟨record,ran,same⟩ := some_map_ok built
      exact ⟨record,same,commandRecord_named ran⟩
  · exact ⟨_,same,rfl⟩
  · exact ⟨found,same,(declaredRecord_ok declared).1⟩

theorem fuzzBuiltIn_named (h : fuzzBuiltIn host arguments required = .ok (some record)) :
    record.layer = points "fuzz" := by
  unfold fuzzBuiltIn at h
  split at h
  · split at h
    · rw [pure_ok] at h
      rw [← Option.some.inj h]
      rfl
    · split at h
      · rw [pure_ok] at h
        rw [← Option.some.inj h]
        rfl
      · split at h
        · rw [pure_ok] at h
          rw [← Option.some.inj h]
          rfl
        · obtain ⟨found,ran,same⟩ := some_map_ok h
          simp only [fuzzTargets, bind_ok, pure_ok] at ran
          obtain ⟨listing,-,commands,-,rfl⟩ := ran
          rw [Option.some.inj same]
  · rw [pure_ok] at h
    exact absurd h (by simp)

theorem kaniBuiltIn_named (h : kaniBuiltIn host arguments required = .ok (some record)) :
    record.layer = points "kani" := by
  unfold kaniBuiltIn at h
  split at h
  · split at h
    · rw [pure_ok] at h
      rw [← Option.some.inj h]
      rfl
    · split at h
      · rw [pure_ok] at h
        rw [← Option.some.inj h]
        rfl
      · obtain ⟨found,ran,same⟩ := some_map_ok h
        rw [Option.some.inj same]
        simp only [kaniRecord, bind_ok] at ran
        obtain ⟨search,-,ran⟩ := ran
        unfold kaniSearched at ran
        split at ran
        · rw [pure_ok] at ran
          rw [← ran]
        · split at ran
          · rw [pure_ok] at ran
            rw [← ran]
          · simp only [bind_ok, pure_ok] at ran
            obtain ⟨command,-,rfl⟩ := ran
            rfl
  · rw [pure_ok] at h
    exact absurd h (by simp)

theorem verusBuiltIn_named (h : verusBuiltIn host arguments required = .ok (some record)) :
    record.layer = points "verus" := by
  unfold verusBuiltIn at h
  split at h
  · split at h
    · rw [pure_ok] at h
      rw [← Option.some.inj h]
      rfl
    · split at h
      · rw [pure_ok] at h
        rw [← Option.some.inj h]
        rfl
      · obtain ⟨found,ran,same⟩ := some_map_ok h
        rw [Option.some.inj same]
        exact commandRecord_named ran
  · rw [pure_ok] at h
    exact absurd h (by simp)

theorem leanBuiltIn_named (h : leanBuiltIn required = .ok (some record)) :
    record.layer = points "lean" := by
  rw [leanBuiltIn, pure_ok] at h
  split at h
  · rw [← Option.some.inj h]
    rfl
  · exact absurd h (by simp)

theorem floorsBuiltIn_ok {fuzz found : Option Record}
    (h : floorsBuiltIn host arguments required fuzz = .ok found) :
    found = none ∨ found = some (skippedByFlag "floors") ∨
      ∃ record, found = some record ∧ floorsRecord host fuzz = .ok record := by
  unfold floorsBuiltIn at h
  split at h
  · split at h
    · rw [pure_ok] at h
      exact .inr (.inl h.symm)
    · obtain ⟨record,ran,same⟩ := some_map_ok h
      exact .inr (.inr ⟨record,same,ran⟩)
  · rw [pure_ok] at h
    exact .inl h.symm

theorem floorsRecord_named {fuzz : Option Record} (h : floorsRecord host fuzz = .ok record) :
    record.layer = points "floors" := by
  unfold floorsRecord at h
  split at h
  · rw [pure_ok] at h
    rw [← h]
    rfl
  · exact absurd h (by simp)
  · simp only [measuredFloors, bind_ok, pure_ok] at h
    obtain ⟨toml,-,layer,-,rfl⟩ := h
    rfl

/-- How a record of the run came about. -/
inductive Origin (host : Host) (arguments : Arguments) (plan : PlanLayers)
    (required : List PyString) (records : List Record) (record : Record) : Prop where
  | abandoned : record.status = .notRun → record.commands = [] →
      Origin host arguments plan required records record
  | floors (fuzz : Option Record) : (∀ found ∈ fuzz, found ∈ records ∧
        found.layer = points "fuzz") → record.layer = points "floors" →
      floorsBuiltIn host arguments required fuzz = .ok (some record) →
      Origin host arguments plan required records record
  | layered (builtIn : Except Crash (Option Record)) : record.layer ≠ points "floors" →
      planLayer host arguments plan record.layer builtIn = .ok (some record) →
      (record.layer = points "fuzz" → builtIn = fuzzBuiltIn host arguments required) →
      Origin host arguments plan required records record

theorem mem_customRecords {custom : List Record}
    (h : customRecords host arguments plan = .ok custom) (member : record ∈ custom) :
    record.layer ∉ layerOrder ∧
      planLayer host arguments plan record.layer (pure none) = .ok (some record) := by
  simp only [customRecords, bind_ok, pure_ok] at h
  obtain ⟨found,each,rfl⟩ := h
  obtain ⟨entry,known,same⟩ := List.mem_filterMap.mp member
  obtain ⟨layer,listed,ran⟩ := mapM_mem_right each known
  rw [id_eq] at same
  subst same
  have named := planLayer_named (fun found bad => absurd bad (by simp)) ran
  rw [named]
  exact ⟨of_decide_eq_true (List.mem_filter.mp listed).2,ran⟩

theorem mem_of_some {found : List (Option Record)} {custom : List Record}
    (member : record ∈ found.filterMap id ++ custom) : some record ∈ found ∨ record ∈ custom := by
  rcases List.mem_append.mp member with early | late
  · obtain ⟨entry,known,same⟩ := List.mem_filterMap.mp early
    rw [id_eq] at same
    subst same
    exact .inl known
  · exact .inr late

/-- The records behind the compilation, each with the branch that made it. -/
theorem laterLayers_origin (h : laterLayers host arguments plan required = .ok records)
    (member : record ∈ records) : record.layer ≠ points "types" ∧
      ∀ more, records ⊆ more → Origin host arguments plan required more record := by
  simp only [laterLayers, bind_ok, pure_ok] at h
  obtain ⟨lints,isLints,proptests,isProptests,fuzz,isFuzz,floors,isFloors,kani,isKani,verus,isVerus,
    lean,isProved,custom,isCustom,whole⟩ := h
  have layered {layer : PyString} {builtIn : Except Crash (Option Record)}
      (named : record.layer = layer) (other : layer ≠ points "types" ∧ layer ≠ points "floors")
      (ran : planLayer host arguments plan layer builtIn = .ok (some record))
      (own : layer = points "fuzz" → builtIn = fuzzBuiltIn host arguments required) :
      record.layer ≠ points "types" ∧
        ∀ more, records ⊆ more → Origin host arguments plan required more record := by
    subst named
    exact ⟨other.1,fun more _ => .layered builtIn other.2 ran own⟩
  rw [← whole] at member
  rcases mem_of_some member with known | late
  · simp only [List.mem_cons, List.not_mem_nil, or_false] at known
    rcases known with rfl | rfl | rfl | rfl | rfl | rfl | rfl
    · obtain ⟨found,same,named⟩ := cargoLayer_ok isLints
      rw [← Option.some.inj same] at named
      exact layered named (by decide) isLints (fun bad => absurd bad (by decide))
    · obtain ⟨found,same,named⟩ := cargoLayer_ok isProptests
      rw [← Option.some.inj same] at named
      exact layered named (by decide) isProptests (fun bad => absurd bad (by decide))
    · exact layered (planLayer_named (fun _ => fuzzBuiltIn_named) isFuzz) (by decide) isFuzz
        (fun _ => rfl)
    · have named : record.layer = points "floors" := by
        rcases floorsBuiltIn_ok isFloors with none_found | same | ⟨found,same,ran⟩
        · exact absurd none_found (by simp)
        · rw [Option.some.inj same]
          rfl
        · rw [Option.some.inj same]
          exact floorsRecord_named ran
      constructor
      · rw [named]
        decide
      · intro more included
        apply Origin.floors fuzz _ named isFloors
        intro found isFound
        rw [Option.mem_def] at isFound
        subst isFound
        refine ⟨included ?_,planLayer_named (fun _ => fuzzBuiltIn_named) isFuzz⟩
        rw [← whole]
        simp
    · exact layered (planLayer_named (fun _ => kaniBuiltIn_named) isKani) (by decide) isKani
        (fun bad => absurd bad (by decide))
    · exact layered (planLayer_named (fun _ => verusBuiltIn_named) isVerus) (by decide) isVerus
        (fun bad => absurd bad (by decide))
    · exact layered (planLayer_named (fun _ => leanBuiltIn_named) isProved) (by decide) isProved
        (fun bad => absurd bad (by decide))
  · obtain ⟨foreign,ran⟩ := mem_customRecords isCustom late
    apply layered rfl _ ran
    · intro bad
      rw [bad] at foreign
      exact absurd (by decide) foreign
    · constructor
      · intro bad
        rw [bad] at foreign
        exact foreign (by decide)
      · intro bad
        rw [bad] at foreign
        exact foreign (by decide)

/-- A run starts with the compilation and goes on only when it did not fail. -/
theorem runLayers_ok (h : runLayers host arguments plan required = .ok records) :
    ∃ types others, typesLayer host arguments plan = .ok (some types) ∧
      types.layer = points "types" ∧ records = types :: others ∧
      ((types.status = .failed ∧ others = abandoned plan required) ∨
        (types.status ≠ .failed ∧ laterLayers host arguments plan required = .ok others)) := by
  simp only [runLayers, bind_ok, pure_ok] at h
  obtain ⟨found,isTypes,others,after,rfl⟩ := h
  obtain ⟨types,same,named⟩ := cargoLayer_ok isTypes
  subst same
  refine ⟨types,others,isTypes,named,rfl,?_⟩
  simp only [afterTypes, Option.toList_some, List.any_cons, List.any_nil, Bool.or_false,
    decide_eq_true_eq] at after
  split at after
  · rw [pure_ok] at after
    exact .inl ⟨by assumption,after.symm⟩
  · exact .inr ⟨by assumption,after⟩

theorem runLayers_origin (h : runLayers host arguments plan required = .ok records)
    (member : record ∈ records) : Origin host arguments plan required records record := by
  obtain ⟨types,others,isTypes,named,rfl,rest⟩ := runLayers_ok h
  rcases List.mem_cons.mp member with rfl | later
  · have isTypes' := isTypes
    unfold typesLayer cargoLayer at isTypes'
    rw [← named] at isTypes'
    apply Origin.layered _ _ isTypes'
    · intro bad
      rw [named] at bad
      exact absurd bad (by decide)
    · rw [named]
      decide
  · rcases rest with ⟨-,rfl⟩ | ⟨-,ran⟩
    · obtain ⟨layer,-,rfl⟩ := List.mem_map.mp later
      exact .abandoned rfl rfl
    · exact (laterLayers_origin ran later).2 _ (List.subset_cons_self _ _)

end Runs

end PyramidRun

end EvidenceV4
