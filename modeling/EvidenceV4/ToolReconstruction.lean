import EvidenceV4.ToolHashes
import Mathlib.Data.List.Sort

/-!
# The list that the producer builds

The reconstructed list holds the given entries in the order of their paths. Each
link to a directory states the digest of that directory, and the links depend on
one another without a cycle.
-/

set_option autoImplicit false

namespace EvidenceV4

namespace ToolManifest

open CheckedExcept
open RawLog (encode)
open Relation (TransGen)

section Order

variable {D : ToolDigests} {files files' : List ToolFile}

theorem encode_injective : Function.Injective encode := by
  intro a b same
  have bytes : Schema.utf8Bytes (String.ofList a) = Schema.utf8Bytes (String.ofList b) := by
    rw [Utf8Order.utf8Bytes_ofList, Utf8Order.utf8Bytes_ofList]
    exact same
  exact String.ofList_injective (Utf8Order.utf8Bytes_injective bytes)

instance : Std.Total (fun a b : ToolFile => pathOrder a b = true) where
  total a b := by
    unfold pathOrder
    rw [decide_eq_true_eq, decide_eq_true_eq]
    exact List.le_total _ _

instance : IsTrans ToolFile (fun a b => pathOrder a b = true) where
  trans a b c := by
    unfold pathOrder
    rw [decide_eq_true_eq, decide_eq_true_eq, decide_eq_true_eq]
    exact List.le_trans

theorem sorted_ascending (distinct : (files.map ToolFile.path).Nodup) :
    (sorted files).Pairwise (fun a b => encode a.path < encode b.path) := by
  have ordered : (sorted files).Pairwise (fun a b => pathOrder a b = true) :=
    List.pairwise_insertionSort _ files
  have apart : (sorted files).Pairwise (fun a b => a.path ≠ b.path) := by
    have distinct' := ((List.perm_insertionSort (fun a b => pathOrder a b = true) files).map
      ToolFile.path).nodup_iff.mpr distinct
    exact List.pairwise_map.mp distinct'
  apply (ordered.and apart).imp
  rintro a b ⟨less,different⟩
  rcases List.le_iff_lt_or_eq.mp (of_decide_eq_true less) with less | same
  · exact less
  · exact absurd (encode_injective same) different

theorem distinct_of_ascending (ascending : files.Pairwise (fun a b => encode a.path < encode b.path)) :
    (files.map ToolFile.path).Nodup := by
  apply List.pairwise_map.mpr
  apply ascending.imp
  intro a b less same
  rw [same] at less
  exact List.lt_irrefl _ less

/-- The order of the entries does not matter. -/
theorem sorted_perm (distinct : (files.map ToolFile.path).Nodup) (perm : files.Perm files') :
    sorted files = sorted files' := by
  have same : (sorted files).Perm (sorted files') :=
    ((List.perm_insertionSort _ files).trans perm).trans (List.perm_insertionSort _ files').symm
  apply same.eq_of_pairwise _ (List.pairwise_insertionSort _ files) (List.pairwise_insertionSort _ files')
  intro a b inside inside' ab ba
  have paths := encode_injective (List.le_antisymm (of_decide_eq_true ab) (of_decide_eq_true ba))
  apply List.inj_on_of_nodup_map distinct
  · exact (List.perm_insertionSort _ files).mem_iff.mp inside
  · exact perm.mem_iff.mpr ((List.perm_insertionSort _ files').mem_iff.mp inside')
  · exact paths

theorem byPath_perm (distinct : (files.map ToolFile.path).Nodup) (perm : files.Perm files')
    (path : FilePath) : byPath files' path = byPath files path := by
  have distinct' := (perm.map ToolFile.path).nodup_iff.mp distinct
  ext entry
  constructor
  · intro found
    obtain ⟨inside,rfl⟩ := byPath_mem found
    exact byPath_of distinct (perm.mem_iff.mpr inside)
  · intro found
    obtain ⟨inside,rfl⟩ := byPath_mem found
    exact byPath_of distinct' (perm.mem_iff.mp inside)

theorem relative_path (directory : FilePath) (entry : ToolFile) :
    (relative directory entry).path = entry.path.drop (prefixOf directory).length := by
  cases entry with
  | file => rfl
  | directory => rfl
  | symlinkFile => rfl
  | symlinkDirectory => rfl

theorem relative_distinct (distinct : (files.map ToolFile.path).Nodup) (directory : FilePath) :
    (((descendants files directory).map (relative directory)).map ToolFile.path).Nodup := by
  rw [List.map_map]
  apply List.Nodup.map_on
  · intro a inside b inside' same
    have ⟨member,below⟩ := List.mem_filter.mp inside
    have ⟨member',below'⟩ := List.mem_filter.mp inside'
    obtain ⟨rest,whole⟩ := (of_decide_eq_true below).2
    obtain ⟨rest',whole'⟩ := (of_decide_eq_true below').2
    have rests : rest = rest' := by
      simpa only [Function.comp_apply, relative_path, ← whole, ← whole', List.drop_left] using same
    exact List.inj_on_of_nodup_map distinct member member' (by rw [← whole, ← whole', rests])
  · exact (List.Nodup.of_map _ distinct).filter _

theorem directoryDigest_perm (distinct : (files.map ToolFile.path).Nodup) (perm : files.Perm files')
    (directory : FilePath) : directoryDigest D files' directory = directoryDigest D files directory := by
  unfold directoryDigest
  apply congrArg D.directory
  symm
  exact sorted_perm (relative_distinct distinct directory) ((perm.filter _).map _)

theorem depends_perm (perm : files.Perm files') : Depends files' = Depends files := by
  ext a b
  constructor
  · rintro ⟨target,resolved,hash,inside,entry,below,link,rfl⟩
    exact ⟨target,resolved,hash,perm.mem_iff.mpr inside,entry,(perm.filter _).mem_iff.mpr below,link,rfl⟩
  · rintro ⟨target,resolved,hash,inside,entry,below,link,rfl⟩
    exact ⟨target,resolved,hash,perm.mem_iff.mp inside,entry,(perm.filter _).mem_iff.mp below,link,rfl⟩

end Order

section Result

variable {D : ToolDigests} {files : List ToolFile} {state state' : Hashing}

/-- What the loop over all links has settled among the names it has passed. -/
structure Linked (D : ToolDigests) (start : Hashing) (passed : List FilePath) (state : Hashing) : Prop where
  inv : Inv D [] state
  keeps : start.Keeps state
  settled : ∀ name ∈ passed, ∀ path target resolved hash,
    byPath state.entries name = some (.symlinkDirectory path target resolved hash) →
      state.hashes.lookup resolved = some hash

theorem settleLink_step {call : Call} (hashed : Hashes D [] call) {start : Hashing}
    {passed : List FilePath} {name : FilePath} (before : Linked D start passed state)
    (ran : settleLink call state name = .ok state') : Linked D start (passed ++ [name]) state' := by
  obtain ⟨inv,keeps,settled⟩ := settleLink_spec hashed before.inv ran
  refine ⟨inv,before.keeps.trans keeps,?_⟩
  intro other inside path target resolved hash found
  rcases List.mem_append.mp inside with inside | inside
  · obtain ⟨old,found',blank⟩ : ∃ old, byPath state.entries other = some old ∧
        old.settle "" = .symlinkDirectory path target resolved "" := by
      have same : byPath (state'.entries.map (ToolFile.settle "")) other =
          byPath (state.entries.map (ToolFile.settle "")) other := by rw [keeps.blank]
      rw [byPath_map (settle_path ""), byPath_map (settle_path ""), found] at same
      exact Option.map_eq_some_iff.mp same.symm
    cases old with
    | file => cases blank
    | directory => cases blank
    | symlinkFile => cases blank
    | symlinkDirectory path' target' resolved' hash' =>
      cases blank
      have looked := before.settled other inside _ _ _ _ found'
      obtain rfl : hash' = hash := by
        cases found.symm.trans (keeps.kept _ _ found' looked)
        rfl
      exact keeps.found _ _ looked
  · obtain rfl := List.mem_singleton.mp inside
    exact settled _ found trivial

theorem settleLink_run {call : Call} (hashed : Hashes D [] call) {start : Hashing}
    {passed names : List FilePath} (before : Linked D start passed state)
    (ran : names.foldlM (settleLink call) state = .ok state') :
    Linked D start (passed ++ names) state' := by
  induction names generalizing passed state with
  | nil =>
    obtain rfl := (pure_ok _ _).mp ran
    rw [List.append_nil]
    exact before
  | cons name names ih =>
    rw [List.foldlM_cons] at ran
    obtain ⟨mid,first,rest⟩ := (bind_ok _ _ _).mp ran
    have shift : passed ++ name :: names = passed ++ [name] ++ names := by simp
    rw [shift]
    exact ih (settleLink_step hashed before first) rest

/-- What a reconstructed list satisfies, as a list and against the entries it was built from. -/
structure Reconstructed (D : ToolDigests) (files out : List ToolFile) : Prop where
  entries : (out.map (ToolFile.settle "")).Perm (files.map (ToolFile.settle ""))
  ascending : out.Pairwise (fun a b => encode a.path < encode b.path)
  digests : ∀ path target resolved hash, ToolFile.symlinkDirectory path target resolved hash ∈ out →
    byPath out resolved = some (.directory resolved) ∧ hash = directoryDigest D out resolved
  acyclic : ∀ a, ¬ TransGen (Depends out) a a
  aliases : ∀ path target resolved hash, ToolFile.symlinkDirectory path target resolved hash ∈ out →
    ∀ entry ∈ descendants out resolved, AliasGood out entry
  agreeing : (∀ entry ∈ files, AliasGood files entry) → ∀ entry ∈ out, AliasGood out entry

theorem settle_alias {files : List ToolFile} {hash : Hash} {entry : ToolFile} :
    AliasGood files (entry.settle hash) ↔ AliasGood files entry := by
  cases entry with
  | file => exact Iff.rfl
  | directory => exact Iff.rfl
  | symlinkFile => exact Iff.rfl
  | symlinkDirectory => exact Iff.rfl

theorem Keeps.aliases {files files' : List ToolFile} {hashes hashes' : List (FilePath × Hash)}
    (keeps : Keeps files hashes files' hashes') (good : ∀ entry ∈ files, AliasGood files entry) :
    ∀ entry ∈ files', AliasGood files' entry := by
  intro entry inside
  have blank : entry.settle "" ∈ files.map (ToolFile.settle "") :=
    keeps.blank ▸ List.mem_map.mpr ⟨entry,inside,rfl⟩
  obtain ⟨old,member,same⟩ := List.mem_map.mp blank
  have now : AliasGood files entry := settle_alias.mp (same ▸ settle_alias.mpr (good old member))
  cases entry with
  | file => trivial
  | directory => trivial
  | symlinkFile path target resolved hash size executable => exact keeps.kept _ _ now trivial
  | symlinkDirectory => trivial

theorem AliasGood.perm {files files' : List ToolFile} (distinct : (files.map ToolFile.path).Nodup)
    (perm : files.Perm files') {entry : ToolFile} (good : AliasGood files entry) :
    AliasGood files' entry := by
  cases entry with
  | file => trivial
  | directory => trivial
  | symlinkFile => exact (byPath_perm distinct perm _).trans good
  | symlinkDirectory => trivial

/-- Every list that the producer returns satisfies the rules for its directories' digests. -/
theorem reconstructDirectoryHashes_spec {out : List ToolFile}
    (ran : reconstructDirectoryHashes D files = .ok out) : Reconstructed D files out := by
  obtain ⟨_,demanded,ran⟩ := (bind_ok _ _ _).mp ran
  obtain ⟨state,looped,ran⟩ := (bind_ok _ _ _).mp ran
  obtain rfl := (pure_ok _ _).mp ran
  have start : Linked D ⟨files,[]⟩ [] ⟨files,[]⟩ :=
    ⟨⟨demand_ok.mp demanded,trivial,nofun⟩,.refl,nofun⟩
  have done := settleLink_run (directoryHash_hashes _ _) start looped
  rw [List.nil_append, ← done.keeps.names] at done
  have distinct := done.inv.distinct
  have perm : state.entries.Perm (sorted state.entries) := (List.perm_insertionSort _ _).symm
  have hashed : ∀ path target resolved hash,
      ToolFile.symlinkDirectory path target resolved hash ∈ state.entries →
        state.hashes.lookup resolved = some hash := by
    intro path target resolved hash inside
    exact done.settled path (List.mem_map.mpr ⟨_,inside,rfl⟩) _ _ _ _ (byPath_of distinct inside)
  constructor
  · rw [← done.keeps.blank]
    exact (perm.map _).symm
  · exact sorted_ascending distinct
  · intro path target resolved hash inside
    have ⟨present,digest,_⟩ :=
      done.inv.isSealed.directory (hashed path target resolved hash (perm.mem_iff.mpr inside))
    rw [byPath_perm distinct perm, directoryDigest_perm distinct perm]
    exact ⟨present,digest⟩
  · rw [depends_perm perm]
    apply done.inv.isSealed.acyclic distinct
    exact fun path target resolved hash inside => lookup_key (hashed path target resolved hash inside)
  · intro path target resolved hash inside entry below
    have ⟨_,_,good⟩ :=
      done.inv.isSealed.directory (hashed path target resolved hash (perm.mem_iff.mpr inside))
    exact (good entry ((perm.filter _).mem_iff.mpr below)).perm distinct perm
  · intro good entry inside
    exact (done.keeps.aliases good entry (perm.mem_iff.mpr inside)).perm distinct perm

end Result

section Ends

variable {D : ToolDigests}

theorem foldlM_ends {α β : Type} (P : β → Prop) {f : β → α → Except Stop β}
    (each : ∀ b a, P b → Ends (f b a) ∧ ∀ b', f b a = .ok b' → P b') {l : List α} {b : β}
    (start : P b) : Ends (l.foldlM f b) := by
  induction l generalizing b with
  | nil => exact failsIn_pure _
  | cons a l ih =>
    have ⟨ends,kept⟩ := each b a start
    rw [List.foldlM_cons]
    exact failsIn_bind ends (fun b' ran => ih (kept b' ran))

/-- The states that a call may be made in. -/
def Ready (D : ToolDigests) (active names : List FilePath) (state : Hashing) : Prop :=
  Inv D active state ∧ state.entries.map ToolFile.path = names

variable {active names : List FilePath} {call : Call} {state : Hashing}

theorem settleLink_ends (hashed : Hashes D active call) (ready : Ready D active names state)
    (ends : ∀ directory, Ends (call state directory)) (name : FilePath) :
    Ends (settleLink call state name) ∧
      ∀ state', settleLink call state name = .ok state' → Ready D active names state' := by
  constructor
  · unfold settleLink
    split
    · exact failsIn_bind (ends _) (fun _ _ => failsIn_pure _)
    · exact failsIn_pure _
  · intro state' ran
    have ⟨inv,keeps,_⟩ := settleLink_spec hashed ready.1 ran
    exact ⟨inv,keeps.names.trans ready.2⟩

theorem hashBelow_ends (hashed : Hashes D active call) {found : List ToolFile}
    (ready : Ready D active names state) (ends : ∀ directory, Ends (call state directory))
    (directory name : FilePath) : Ends (hashBelow call directory (found,state) name) ∧
      ∀ s', hashBelow call directory (found,state) name = .ok s' → Ready D active names s'.2 := by
  have ⟨linkEnds,kept⟩ := settleLink_ends hashed ready ends name
  unfold hashBelow
  split_ifs
  · constructor
    · apply failsIn_bind linkEnds
      intro state' _
      apply failsIn_bind demand_ends
      exact fun _ _ => failsIn_pure _
    · intro s' ran
      obtain ⟨state',linked,ran⟩ := (bind_ok _ _ _).mp ran
      obtain ⟨_,_,ran⟩ := (bind_ok _ _ _).mp ran
      obtain rfl := (pure_ok _ _).mp ran
      exact kept state' linked
  · constructor
    · exact failsIn_pure _
    · intro s' ran
      obtain rfl := (pure_ok _ _).mp ran
      exact ready

/-- The stack holds distinct paths of the list, so it is no longer than the list. -/
theorem directoryHash_ends {fuel : ℕ} (ready : Ready D active names state) (distinct : active.Nodup)
    (known : active ⊆ names) (enough : names.length < fuel+active.length) (directory : FilePath) :
    Ends (directoryHash D fuel active state directory) := by
  induction fuel generalizing active state directory with
  | zero =>
    have short := (List.Nodup.subperm distinct known).length_le
    omega
  | succ fuel ih =>
    unfold directoryHash
    split
    · exact failsIn_pure _
    · rename_i missing
      apply failsIn_bind demand_ends
      intro _ present
      apply failsIn_bind demand_ends
      intro _ passed
      have fresh : directory ∉ active := demand_ok.mp passed
      have inside : directory ∈ names := by
        rw [← ready.2]
        have ⟨member,named⟩ := byPath_mem (demand_ok.mp present)
        exact List.mem_map.mpr ⟨_,member,named⟩
      have inv' : Inv D (directory :: active) state :=
        ⟨ready.1.distinct,ready.1.isSealed,
          List.forall_mem_cons.mpr ⟨lookup_missing missing,ready.1.unhashed⟩⟩
      have start : Ready D (directory :: active) names state := ⟨inv',ready.2⟩
      have each : ∀ (s : List ToolFile × Hashing) name, Ready D (directory :: active) names s.2 →
          Ends (hashBelow (directoryHash D fuel (directory :: active)) directory s name) ∧
          ∀ s', hashBelow (directoryHash D fuel (directory :: active)) directory s name = .ok s' →
            Ready D (directory :: active) names s'.2 := by
        intro s name now
        apply hashBelow_ends (directoryHash_hashes _ _) now
        intro other
        apply ih now (List.nodup_cons.mpr ⟨fresh,distinct⟩)
          (List.cons_subset.mpr ⟨inside,known⟩)
        simp only [List.length_cons]
        omega
      apply failsIn_bind
      · exact foldlM_ends (fun s => Ready D (directory :: active) names s.2) each start
      · exact fun _ _ => failsIn_pure _

theorem reconstructDirectoryHashes_ends (files : List ToolFile) :
    Ends (reconstructDirectoryHashes D files) := by
  apply failsIn_bind demand_ends
  intro _ distinct
  have start : Ready D [] (files.map ToolFile.path) ⟨files,[]⟩ :=
    ⟨⟨demand_ok.mp distinct,trivial,nofun⟩,rfl⟩
  have each : ∀ state name, Ready D [] (files.map ToolFile.path) state →
      Ends (settleLink (directoryHash D (files.length+1) []) state name) ∧
      ∀ state', settleLink (directoryHash D (files.length+1) []) state name = .ok state' →
        Ready D [] (files.map ToolFile.path) state' := by
    intro state name now
    apply settleLink_ends (directoryHash_hashes _ _) now
    intro directory
    apply directoryHash_ends now List.nodup_nil (List.nil_subset _)
    rw [List.length_map, List.length_nil]
    omega
  apply failsIn_bind
  · exact foldlM_ends _ each start
  · exact fun _ _ => failsIn_pure _

end Ends

end ToolManifest

end EvidenceV4
