import EvidenceV4.ToolManifest

/-!
# The links of a tool

Both walks over the links are one walk over the graph in which a link to a
directory requires the links below that directory. They end on every list, and
accept exactly when each link agrees with what it resolves to and the graph is
acyclic.
-/

set_option autoImplicit false

namespace EvidenceV4

namespace ToolManifest

open CheckedExcept
open PolicyDocument (mapGet_mem mapGet_of_mem)
open Relation (TransGen)
open RequirementWalk (Acyclic Rules visit visit_done visit_fresh visit_iff)

section Lookup

variable {files : List ToolFile} {path : FilePath} {entry : ToolFile}

theorem byPath_mem (found : byPath files path = some entry) : entry ∈ files ∧ entry.path = path := by
  obtain ⟨file,inside,same⟩ := List.mem_map.mp (mapGet_mem found)
  obtain ⟨rfl,rfl⟩ := Prod.mk.inj same
  exact ⟨inside,rfl⟩

theorem byPath_of (distinct : (files.map ToolFile.path).Nodup) (inside : entry ∈ files) :
    byPath files entry.path = some entry := by
  apply mapGet_of_mem
  · rw [List.map_map]
    exact distinct
  · exact List.mem_map.mpr ⟨entry,inside,rfl⟩

theorem demand_ok {condition : Prop} [Decidable condition] {message : String} {r : Unit} :
    demand condition message = .ok r ↔ condition := check_ok _ _ _

theorem demand_congr {p q : Prop} [Decidable p] [Decidable q] (same : p ↔ q) (message : String) :
    demand p message = demand q message := by
  unfold demand check
  by_cases holds : p
  · rw [if_pos holds, if_pos (same.mp holds)]
  · rw [if_neg holds, if_neg (fun other => holds (same.mpr other))]

theorem facts_iff {hash : Hash} {size : ℕ} {executable : Bool} :
    (byPath files path).bind facts = some (hash,size,executable) ↔
      byPath files path = some (.file path hash size executable) := by
  constructor
  · intro same
    obtain ⟨target,found,same⟩ := Option.bind_eq_some_iff.mp same
    have named := (byPath_mem found).2
    rw [found]
    cases target with
    | file path' hash' size' executable' =>
      obtain ⟨rfl,rfl,rfl⟩ : hash' = hash ∧ size' = size ∧ executable' = executable := by
        simpa [facts] using same
      rw [← named]
      rfl
    | directory => cases same
    | symlinkFile => cases same
    | symlinkDirectory => cases same
  · intro found
    rw [found]
    rfl

theorem isDirectory_iff : ((byPath files path).map ToolFile.isDirectory).getD false = true ↔
    byPath files path = some (.directory path) := by
  cases found : byPath files path with
  | none => simp
  | some target =>
    have named := (byPath_mem found).2
    cases target with
    | directory path' =>
      obtain rfl : path' = path := named
      exact iff_of_true rfl rfl
    | file => simp [ToolFile.isDirectory]
    | symlinkFile => simp [ToolFile.isDirectory]
    | symlinkDirectory => simp [ToolFile.isDirectory]

end Lookup

section Agreement

variable (D : ToolDigests) (files : List ToolFile)

/-- The entries below a directory, as the checker finds them. -/
def children (files : List ToolFile) (resolved : FilePath) : List ToolFile :=
  files.filter (fun child => child.path ≠ resolved &&
    (if resolved = ['.'] then [] else resolved ++ ['/']).isPrefixOf child.path)

theorem children_descendants (resolved : FilePath) :
    children files resolved = descendants files resolved := by
  apply List.filter_congr
  intro child _
  show (decide (child.path ≠ resolved) && (prefixOf resolved).isPrefixOf child.path) = _
  rw [Bool.eq_iff_iff, Bool.and_eq_true, List.isPrefixOf_iff_prefix, decide_eq_true_eq,
    decide_eq_true_eq]
  rfl

/-- The checker walks as the producer does. -/
theorem checkerLink_checkLink (fuel : ℕ) (visiting done : List FilePath) (entry : ToolFile) :
    checkerLink D files fuel visiting done entry = checkLink D files fuel visiting done entry := by
  induction fuel generalizing visiting done entry with
  | zero =>
    cases entry with
    | file => rfl
    | directory => rfl
    | symlinkFile => rfl
    | symlinkDirectory => rfl
  | succ fuel ih =>
    have same : checkerLink D files fuel = checkLink D files fuel := by
      funext visiting done entry
      exact ih visiting done entry
    cases entry with
    | file => rfl
    | directory => rfl
    | symlinkFile path target resolved hash size executable =>
      show (if path ∈ done then pure done
        else do
          demand (path ∉ visiting) "cyclic tool target-hash graph"
          demand ((byPath files resolved).bind facts = some (hash,size,executable))
            "tool symlink-file target mismatch"
          pure (path :: done)) = _
      rw [checkLink, demand_congr facts_iff]
    | symlinkDirectory path target resolved hash =>
      show (if path ∈ done then pure done
        else do
          demand (path ∉ visiting) "cyclic tool target-hash graph"
          demand (((byPath files resolved).map ToolFile.isDirectory).getD false = true)
            "tool symlink-directory target missing"
          let inner ← (children files resolved).foldlM (checkerLink D files fuel (path :: visiting)) done
          demand (hash = D.directory (sorted ((children files resolved).map (relative resolved))))
            "tool symlink-directory hash mismatch"
          pure (path :: inner)) = _
      rw [checkLink, demand_congr isDirectory_iff, children_descendants, same]
      rfl

end Agreement

section Graph

variable (D : ToolDigests) (files : List ToolFile)

/-- The link agrees with what it resolves to. -/
def LinkGood : ToolFile → Prop
  | .symlinkFile _ _ resolved hash size executable =>
    byPath files resolved = some (.file resolved hash size executable)
  | .symlinkDirectory _ _ resolved hash =>
    byPath files resolved = some (.directory resolved) ∧ hash = directoryDigest D files resolved
  | _ => True

instance : (file : ToolFile) → Decidable (LinkGood D files file)
  | .file .. => inferInstanceAs (Decidable True)
  | .directory _ => inferInstanceAs (Decidable True)
  | .symlinkFile .. => inferInstanceAs (Decidable (_ = _))
  | .symlinkDirectory .. => inferInstanceAs (Decidable (_ ∧ _))

/-- The links that a link requires. -/
def linksBelow : ToolFile → Option (List FilePath)
  | .symlinkFile .. => some []
  | .symlinkDirectory _ _ resolved _ =>
    some (((descendants files resolved).filter ToolFile.isLink).map ToolFile.path)
  | _ => none

def linkRules : Rules FilePath Stop where
  requires path := (byPath files path).bind (linksBelow files)
  enter _ := .ok ⟨⟩
  leave path := demand (∀ entry ∈ byPath files path, LinkGood D files entry) "tool symlink mismatch"
  cycle _ := .refused "cyclic tool target-hash graph"
  missing _ := .refused "tool symlink missing"

variable {D files}

theorem checkLink_plain {file : ToolFile} (plain : file.isLink = false) (fuel : ℕ)
    (visiting done : List FilePath) : checkLink D files fuel visiting done file = .ok done := by
  cases file with
  | file => cases fuel <;> rfl
  | directory => cases fuel <;> rfl
  | symlinkFile => cases plain
  | symlinkDirectory => cases plain

/-- No path is both being visited and done. -/
def Apart (visiting done : List FilePath) : Prop := ∀ path ∈ visiting, path ∉ done

/-- The walk over the files is the walk over the graph of the links. -/
def SameWalk (visiting done : List FilePath) (walk walk' : Except Stop (List FilePath)) : Prop :=
  Apart visiting done → ∀ done', (walk = .ok done' ↔ walk' = .ok done') ∧
    (walk = .ok done' → Apart visiting done')

theorem loop_sameWalk {visiting : List FilePath} {f : List FilePath → ToolFile → Except Stop (List FilePath)}
    {g : List FilePath → FilePath → Except Stop (List FilePath)} {entries : List ToolFile}
    (plain : ∀ entry ∈ entries, entry.isLink = false → ∀ done, f done entry = .ok done)
    (each : ∀ entry ∈ entries, entry.isLink = true → ∀ done,
      SameWalk visiting done (f done entry) (g done entry.path)) (done : List FilePath) :
    SameWalk visiting done (entries.foldlM f done)
      (((entries.filter ToolFile.isLink).map ToolFile.path).foldlM g done) := by
  induction entries generalizing done with
  | nil =>
    intro apart done'
    refine ⟨Iff.rfl,fun same => ?_⟩
    obtain rfl := (pure_ok _ _).mp same
    exact apart
  | cons entry entries ih =>
    obtain ⟨plainNow,plainLater⟩ := List.forall_mem_cons.mp plain
    obtain ⟨eachNow,eachLater⟩ := List.forall_mem_cons.mp each
    intro apart done'
    cases link : entry.isLink with
    | false =>
      rw [List.filter_cons_of_neg (by simp [link]), List.foldlM_cons, plainNow link done]
      exact ih plainLater eachLater done apart done'
    | true =>
      rw [List.filter_cons_of_pos link, List.map_cons, List.foldlM_cons, List.foldlM_cons, bind_ok,
        bind_ok]
      constructor
      · constructor
        · rintro ⟨next,first,rest⟩
          obtain ⟨same,apart'⟩ := eachNow link done apart next
          exact ⟨next,same.mp first,((ih plainLater eachLater next (apart' first) done').1).mp rest⟩
        · rintro ⟨next,first,rest⟩
          obtain ⟨same,apart'⟩ := eachNow link done apart next
          have first' := same.mpr first
          exact ⟨next,first',((ih plainLater eachLater next (apart' first') done').1).mpr rest⟩
      · rintro ⟨next,first,rest⟩
        have apart' := (eachNow link done apart next).2 first
        exact (ih plainLater eachLater next apart' done').2 rest

theorem apart_cons {visiting done : List FilePath} {path : FilePath} (apart : Apart visiting done)
    (fresh : path ∉ visiting) : Apart visiting (path :: done) := by
  intro other active inside
  rcases List.mem_cons.mp inside with rfl | inside
  · exact fresh active
  · exact apart other active inside

theorem checkLink_visit (distinct : (files.map ToolFile.path).Nodup) {fuel : ℕ}
    {visiting done : List FilePath} {entry : ToolFile} (inside : entry ∈ files)
    (link : entry.isLink = true) : SameWalk visiting done (checkLink D files fuel visiting done entry)
      (visit (linkRules D files) fuel visiting done entry.path) := by
  induction fuel generalizing visiting done entry with
  | zero =>
    intro apart done'
    cases entry with
    | file => cases link
    | directory => cases link
    | symlinkFile => exact ⟨iff_of_false (by rintro ⟨⟩) (by rintro ⟨⟩),by rintro ⟨⟩⟩
    | symlinkDirectory => exact ⟨iff_of_false (by rintro ⟨⟩) (by rintro ⟨⟩),by rintro ⟨⟩⟩
  | succ fuel ih =>
    intro apart done'
    have found := byPath_of distinct inside
    have left : (linkRules D files).leave entry.path = .ok ⟨⟩ ↔ LinkGood D files entry := by
      show demand (∀ e ∈ byPath files entry.path, LinkGood D files e) _ = _ ↔ _
      rw [demand_ok, found]
      exact ⟨fun all => all entry rfl,fun good e same => Option.some.inj same ▸ good⟩
    have required : (linkRules D files).requires entry.path = linksBelow files entry := by
      show (byPath files entry.path).bind (linksBelow files) = _
      rw [found]
      rfl
    have known : entry.path ∈ done →
        ((pure done : Except Stop _) = .ok done' ↔
          visit (linkRules D files) (fuel+1) visiting done entry.path = .ok done') ∧
        ((pure done : Except Stop _) = .ok done' → Apart visiting done') := by
      intro before
      have stays : visit (linkRules D files) (fuel+1) visiting done entry.path = .ok done :=
        visit_done rfl (fun active => apart _ active before) before
      rw [stays]
      exact ⟨Iff.rfl,fun same => (pure_ok _ _).mp same ▸ apart⟩
    cases entry with
    | file => cases link
    | directory => cases link
    | symlinkFile path target resolved hash size executable =>
      rw [checkLink]
      by_cases before : path ∈ done
      · rw [if_pos before]
        exact known before
      · rw [if_neg before]
        have walked : visit (linkRules D files) (fuel+1) visiting done path = .ok done' ↔ _ :=
          visit_fresh rfl before required
        simp only [bind_ok, demand_ok, pure_ok]
        constructor
        · apply Iff.trans _ walked.symm
          constructor
          · rintro ⟨_,fresh,_,good,same⟩
            exact ⟨fresh,done,rfl,left.mpr good,same⟩
          · rintro ⟨fresh,inner,looped,good,same⟩
            obtain rfl := (pure_ok _ _).mp looped
            exact ⟨⟨⟩,fresh,⟨⟩,left.mp good,same⟩
        · rintro ⟨_,fresh,_,_,rfl⟩
          exact apart_cons apart fresh
    | symlinkDirectory path target resolved hash =>
      rw [checkLink]
      by_cases before : path ∈ done
      · rw [if_pos before]
        exact known before
      · rw [if_neg before]
        have walked : visit (linkRules D files) (fuel+1) visiting done path = .ok done' ↔ _ :=
          visit_fresh rfl before required
        have looped : SameWalk (path :: visiting) done
            ((descendants files resolved).foldlM (checkLink D files fuel (path :: visiting)) done)
            ((((descendants files resolved).filter ToolFile.isLink).map ToolFile.path).foldlM
              (visit (linkRules D files) fuel (path :: visiting)) done) := by
          apply loop_sameWalk
          · exact fun e _ plain done => checkLink_plain plain fuel _ done
          · exact fun e member link done => ih (List.mem_of_mem_filter member) link
        have apart' : Apart (path :: visiting) done := List.forall_mem_cons.mpr ⟨before,apart⟩
        simp only [bind_ok, demand_ok, pure_ok]
        constructor
        · apply Iff.trans _ walked.symm
          constructor
          · rintro ⟨_,fresh,_,target,inner,loop,_,digest,same⟩
            exact ⟨fresh,inner,(looped apart' inner).1.mp loop,left.mpr ⟨target,digest⟩,same⟩
          · rintro ⟨fresh,inner,loop,good,same⟩
            obtain ⟨target,digest⟩ := left.mp good
            exact ⟨⟨⟩,fresh,⟨⟩,target,inner,(looped apart' inner).1.mpr loop,⟨⟩,digest,same⟩
        · rintro ⟨_,fresh,_,_,inner,loop,_,_,rfl⟩
          have further := (List.forall_mem_cons.mp ((looped apart' inner).2 loop)).2
          exact apart_cons further fresh

/-- A link depends on each link below the directory it resolves to. -/
def Depends (files : List ToolFile) (a b : FilePath) : Prop :=
  ∃ target resolved hash, ToolFile.symlinkDirectory a target resolved hash ∈ files ∧
    ∃ entry ∈ descendants files resolved, entry.isLink = true ∧ entry.path = b

theorem requires_depends (distinct : (files.map ToolFile.path).Nodup) :
    RequirementWalk.Requires (linkRules D files) = Depends files := by
  ext a b
  constructor
  · rintro ⟨below,required,inside⟩
    obtain ⟨entry,found,linked⟩ := Option.bind_eq_some_iff.mp required
    obtain ⟨member,named⟩ := byPath_mem found
    cases entry with
    | file => cases linked
    | directory => cases linked
    | symlinkFile =>
      obtain rfl := Option.some.inj linked
      exact absurd inside List.not_mem_nil
    | symlinkDirectory path target resolved hash =>
      obtain rfl := Option.some.inj linked
      obtain rfl : path = a := named
      obtain ⟨child,filtered,rfl⟩ := List.mem_map.mp inside
      have ⟨below,link⟩ := List.mem_filter.mp filtered
      exact ⟨target,resolved,hash,member,child,below,link,rfl⟩
  · rintro ⟨target,resolved,hash,member,child,below,link,rfl⟩
    refine ⟨_,Option.bind_eq_some_iff.mpr ⟨_,byPath_of distinct member,rfl⟩,?_⟩
    exact List.mem_map.mpr ⟨child,List.mem_filter.mpr ⟨below,link⟩,rfl⟩

/-- The walk accepts exactly the lists whose links agree with what they resolve to and depend on one
another without a cycle. -/
theorem checkLinks_iff (distinct : (files.map ToolFile.path).Nodup) :
    (∃ done, checkLinks D files = .ok done) ↔
      (∀ file ∈ files, LinkGood D files file) ∧ ∀ a, ¬ TransGen (Depends files) a a := by
  let names := (files.filter ToolFile.isLink).map ToolFile.path
  have same : ∀ done, checkLinks D files = .ok done ↔
      names.foldlM (visit (linkRules D files) (files.length+1) []) [] = .ok done := by
    intro done
    have walked : SameWalk [] [] (checkLinks D files)
        (names.foldlM (visit (linkRules D files) (files.length+1) []) []) := by
      apply loop_sameWalk
      · exact fun entry _ plain done => checkLink_plain plain _ _ done
      · exact fun entry inside link done => checkLink_visit distinct inside link
    exact (walked (fun _ none => absurd none List.not_mem_nil) done).1
  have enough : names.length < files.length+1 := by
    show ((files.filter ToolFile.isLink).map ToolFile.path).length < _
    rw [List.length_map]
    have := List.length_filter_le ToolFile.isLink files
    omega
  have closed : ∀ name ∈ names, ∃ below, (linkRules D files).requires name = some below ∧
      below ⊆ names := by
    intro name inside
    obtain ⟨entry,filtered,rfl⟩ := List.mem_map.mp inside
    have ⟨member,link⟩ := List.mem_filter.mp filtered
    have found : (linkRules D files).requires entry.path = linksBelow files entry := by
      show (byPath files entry.path).bind _ = _
      rw [byPath_of distinct member]
      rfl
    rw [found]
    cases entry with
    | file => cases link
    | directory => cases link
    | symlinkFile => exact ⟨[],rfl,List.nil_subset _⟩
    | symlinkDirectory =>
      refine ⟨_,rfl,List.map_subset _ ?_⟩
      intro child below
      have ⟨down,link⟩ := List.mem_filter.mp below
      exact List.mem_filter.mpr ⟨List.mem_of_mem_filter down,link⟩
  have declared : ∀ name, ((linkRules D files).requires name).isSome → name ∈ names := by
    intro name present
    obtain ⟨below,required⟩ := Option.isSome_iff_exists.mp present
    obtain ⟨entry,found,linked⟩ := Option.bind_eq_some_iff.mp required
    have ⟨member,named⟩ := byPath_mem found
    have link : entry.isLink = true := by
      cases entry with
      | file => cases linked
      | directory => cases linked
      | symlinkFile => rfl
      | symlinkDirectory => rfl
    exact List.mem_map.mpr ⟨entry,List.mem_filter.mpr ⟨member,link⟩,named⟩
  have passes : (∀ name ∈ names, (linkRules D files).enter name = .ok ⟨⟩ ∧
      (linkRules D files).leave name = .ok ⟨⟩) ↔ ∀ file ∈ files, LinkGood D files file := by
    constructor
    · intro all file member
      cases link : file.isLink with
      | true =>
        have left := (all file.path (List.mem_map.mpr
          ⟨file,List.mem_filter.mpr ⟨member,link⟩,rfl⟩)).2
        exact demand_ok.mp left file (byPath_of distinct member)
      | false =>
        cases file with
        | file => trivial
        | directory => trivial
        | symlinkFile => cases link
        | symlinkDirectory => cases link
    · intro all name _
      refine ⟨rfl,demand_ok.mpr ?_⟩
      exact fun entry found => all entry (byPath_mem found).1
  rw [exists_congr same, visit_iff closed declared enough, passes]
  unfold RequirementWalk.Acyclic
  rw [requires_depends distinct]

end Graph

section Ends

variable {D : ToolDigests} {files : List ToolFile}

/-- The computation does not run out of fuel. -/
abbrev Ends {α : Type} (x : Except Stop α) : Prop := FailsIn (· ≠ Stop.exhausted) x

theorem demand_ends {condition : Prop} [Decidable condition] {message : String} :
    Ends (demand condition message) := failsIn_check (Stop.noConfusion ·)

/-- The path of the walk holds distinct entries, so it is no longer than the list. -/
theorem checkLink_ends {fuel : ℕ} {visiting done : List FilePath} {entry : ToolFile}
    (inside : entry ∈ files) (distinct : visiting.Nodup) (known : visiting ⊆ files.map ToolFile.path)
    (enough : files.length < fuel+visiting.length) :
    Ends (checkLink D files fuel visiting done entry) := by
  induction fuel generalizing visiting done entry with
  | zero =>
    have short := (List.Nodup.subperm distinct known).length_le
    rw [List.length_map] at short
    omega
  | succ fuel ih =>
    cases entry with
    | file => exact failsIn_pure _
    | directory => exact failsIn_pure _
    | symlinkFile path target resolved hash size executable =>
      rw [checkLink]
      split_ifs
      · exact failsIn_pure _
      · apply failsIn_bind demand_ends
        intro _ _
        apply failsIn_bind demand_ends
        exact fun _ _ => failsIn_pure _
    | symlinkDirectory path target resolved hash =>
      rw [checkLink]
      split_ifs
      · exact failsIn_pure _
      · apply failsIn_bind demand_ends
        intro _ passed
        have fresh : path ∉ visiting := demand_ok.mp passed
        apply failsIn_bind demand_ends
        intro _ _
        apply failsIn_bind
        · apply failsIn_foldlM
          intro done child below
          apply ih (List.mem_of_mem_filter below) (List.nodup_cons.mpr ⟨fresh,distinct⟩)
          · exact List.cons_subset.mpr ⟨List.mem_map.mpr ⟨_,inside,rfl⟩,known⟩
          · simp only [List.length_cons]
            omega
        · intro done _
          apply failsIn_bind demand_ends
          exact fun _ _ => failsIn_pure _

theorem checkLinks_ends : Ends (checkLinks D files) := by
  apply failsIn_foldlM
  intro done entry inside
  apply checkLink_ends inside List.nodup_nil (List.nil_subset _)
  simp only [List.length_nil]
  omega

end Ends

end ToolManifest

end EvidenceV4
