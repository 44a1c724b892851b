import EvidenceV4.ToolReconstruction

/-!
# When a tool identity is accepted

The producer and the checker accept the same identities, and their walks end on
each of them. A list that the producer reconstructs is not refused for its
links, when the aliases it was given state their targets.
-/

set_option autoImplicit false

namespace EvidenceV4

namespace ToolManifest

open CheckedExcept
open RawLog (encode)
open Relation (TransGen)

section Parents

variable {path above rest : FilePath} {files : List ToolFile}

theorem parent_some (up : parent path = some above) : ∃ rest, '/' ∉ rest ∧ path = above ++ '/' :: rest := by
  unfold parent at up
  by_cases separated : '/' ∈ path
  · rw [if_pos separated] at up
    obtain rfl := Option.some.inj up
    obtain ⟨front,back,whole,plain⟩ := List.eq_append_cons_of_mem (List.mem_reverse.mpr separated)
    have passed : ∀ c ∈ front, decide (c ≠ '/') = true :=
      fun c inside => decide_eq_true (fun same : c = '/' => plain (same ▸ inside))
    have dropped : path.reverse.dropWhile (· ≠ '/') = '/' :: back := by
      rw [whole, List.dropWhile_append_of_pos passed]
      rfl
    refine ⟨front.reverse,fun inside => plain (List.mem_reverse.mp inside),?_⟩
    rw [dropped, List.tail_cons, ← List.reverse_inj, whole]
    simp
  · rw [if_neg separated] at up
    cases up

theorem parent_none (up : parent path = none) : '/' ∉ path := by
  unfold parent at up
  intro separated
  rw [if_pos separated] at up
  cases up

theorem separated_prefix (plain : '/' ∉ rest) :
    path ++ ['/'] <+: above ++ '/' :: rest ↔ path = above ∨ path ++ ['/'] <+: above := by
  constructor
  · rintro ⟨tail,whole⟩
    have whole' : path ++ '/' :: tail = above ++ '/' :: rest := by simpa using whole
    rcases List.append_eq_append_iff.mp whole' with ⟨between,rfl,later⟩ | ⟨between,rfl,later⟩
    · cases between with
      | nil => exact .inl (List.append_nil _).symm
      | cons c between =>
        obtain ⟨rfl,_⟩ := List.cons.inj later
        exact .inr ⟨between,by simp⟩
    · cases between with
      | nil => exact .inl (List.append_nil _)
      | cons c between =>
        obtain ⟨rfl,rfl⟩ := List.cons.inj later
        exact absurd (List.mem_append_right _ List.mem_cons_self) plain
  · rintro (rfl | ⟨tail,rfl⟩)
    · exact ⟨rest,by simp⟩
    · exact ⟨tail ++ '/' :: rest,by simp⟩

theorem separated_of_under (under : above ++ ['/'] <+: path) : '/' ∈ path :=
  under.subset (List.mem_append_right _ List.mem_cons_self)

/-- The loop passes every parent of the path. -/
theorem mem_parents {n : ℕ} (enough : path.length ≤ n) {directory : FilePath} :
    directory ∈ parents n path ↔ directory ++ ['/'] <+: path := by
  induction n generalizing path with
  | zero =>
    obtain rfl := List.eq_nil_of_length_eq_zero (Nat.le_zero.mp enough)
    exact iff_of_false List.not_mem_nil (fun under => List.not_mem_nil (separated_of_under under))
  | succ n ih =>
    unfold parents
    cases up : parent path with
    | none =>
      exact iff_of_false List.not_mem_nil (fun under => parent_none up (separated_of_under under))
    | some above =>
      obtain ⟨rest,plain,rfl⟩ := parent_some up
      have shorter : above.length ≤ n := by
        rw [List.length_append, List.length_cons] at enough
        omega
      show directory ∈ above :: parents n above ↔ _
      rw [List.mem_cons, ih shorter, separated_prefix plain]

/-- Every directory that a path lies in is listed as one. -/
def ParentsListed (files : List ToolFile) : Prop :=
  ∀ file ∈ files, ∀ above, above ++ ['/'] <+: file.path → byPath files above = some (.directory above)

theorem checkParents_iff : checkParents files = .ok ⟨⟩ ↔ ParentsListed files := by
  unfold checkParents ParentsListed
  simp only [forM_ok, demand_ok, mem_parents (Nat.le_refl _)]

end Parents

section Acceptance

variable {D : ToolDigests} {x : Identity}

def GitRevision (package : Package) : Prop :=
  ∀ id revision, package.source = .git id revision →
    '#' ∈ id ∧ (id.reverse.takeWhile (· ≠ '#')).reverse = revision

/-- The rules about the listed files and what is derived from them. -/
structure ListRules (D : ToolDigests) (x : Identity) : Prop where
  parents : ParentsListed x.files
  aliases : ∀ path target resolved hash size executable,
    ToolFile.symlinkFile path target resolved hash size executable ∈ x.files →
      byPath x.files resolved = some (.file resolved hash size executable)
  acyclic : ∀ a, ¬ TransGen (Depends x.files) a a
  digests : ∀ path target resolved hash, ToolFile.symlinkDirectory path target resolved hash ∈ x.files →
    byPath x.files resolved = some (.directory resolved) ∧ hash = directoryDigest D x.files resolved
  roots : ∀ package ∈ x.packages,
    byPath x.files (packageRoot D package) = some (.directory (packageRoot D package))
  content : x.digest = D.content x.kind x.files x.packages x.systemDependencies

/-- All that an accepted identity satisfies. -/
structure Accepted (D : ToolDigests) (x : Identity) : Prop extends ListRules D x where
  packages : ∀ package ∈ x.packages, GitRevision package
  version : ∀ code ∈ x.version, code = 0
  discovery : ∀ code ∈ x.discovery, code = 0
  single : x.kind ≠ .tree → Single x
  executable : x.kind = .executable → ∀ file ∈ x.files.head?, file.executable = true

theorem packageIntrinsics_iff {package : Package} :
    packageIntrinsics package = .ok ⟨⟩ ↔ GitRevision package := by
  unfold packageIntrinsics GitRevision
  cases package.source with
  | registry => exact iff_of_true rfl nofun
  | path => exact iff_of_true rfl nofun
  | git id revision =>
    rw [demand_ok]
    constructor
    · rintro named id' revision' ⟨rfl,rfl⟩
      exact named
    · exact fun all => all id revision rfl

theorem checkLinks_rules : (∃ done, checkLinks D x.files = .ok done) ↔
    (∀ path target resolved hash size executable,
      ToolFile.symlinkFile path target resolved hash size executable ∈ x.files →
        byPath x.files resolved = some (.file resolved hash size executable)) ∧
    (∀ a, ¬ TransGen (Depends x.files) a a) ∧
    ∀ path target resolved hash, ToolFile.symlinkDirectory path target resolved hash ∈ x.files →
      byPath x.files resolved = some (.directory resolved) ∧
        hash = directoryDigest D x.files resolved := by
  rw [checkLinks_iff (distinct_of_ascending x.ascending)]
  constructor
  · rintro ⟨good,acyclic⟩
    exact ⟨fun _ _ _ _ _ _ inside => good _ inside,acyclic,fun _ _ _ _ inside => good _ inside⟩
  · rintro ⟨aliases,acyclic,digests⟩
    refine ⟨fun file inside => ?_,acyclic⟩
    cases file with
    | file => trivial
    | directory => trivial
    | symlinkFile => exact aliases _ _ _ _ _ _ inside
    | symlinkDirectory => exact digests _ _ _ _ inside

theorem checkPackages_iff : checkPackages D x = .ok ⟨⟩ ↔ ∀ package ∈ x.packages,
    byPath x.files (packageRoot D package) = some (.directory (packageRoot D package)) := by
  unfold checkPackages
  simp only [forM_ok, demand_ok]

theorem checkerLinks_checkLinks : x.files.foldlM (checkerLink D x.files (x.files.length + 1) []) [] =
    checkLinks D x.files := by
  have same : checkerLink D x.files (x.files.length + 1) [] = checkLink D x.files (x.files.length + 1) [] := by
    ext done entry
    rw [checkerLink_checkLink]
  rw [same]
  rfl

theorem validateToolIdentity_iff : validateToolIdentity D x = .ok ⟨⟩ ↔ Accepted D x := by
  unfold validateToolIdentity checkContent
  simp only [bind_ok, forM_ok, demand_ok, exists_unit, packageIntrinsics_iff, checkParents_iff,
    checkPackages_iff, exists_and_right, checkLinks_rules]
  constructor
  · rintro ⟨packages,⟨version,discovery⟩,single,executable,parents,⟨aliases,acyclic,digests⟩,roots,content⟩
    exact ⟨⟨parents,aliases,acyclic,digests,roots,content⟩,packages,version,discovery,single,
      fun kind file first => (executable kind file first).2⟩
  · rintro ⟨⟨parents,aliases,acyclic,digests,roots,content⟩,packages,version,discovery,single,executable⟩
    refine ⟨packages,⟨version,discovery⟩,single,?_,parents,⟨aliases,acyclic,digests⟩,roots,content⟩
    intro kind file first
    have alone : Single x := single (fun tree => Kind.noConfusion (kind.symm.trans tree))
    exact ⟨(alone.2 file first).2,executable kind file first⟩

theorem sets_iff : sets D x = .ok ⟨⟩ ↔ Accepted D x := by
  unfold sets toolIntrinsics checkContent
  rw [checkerLinks_checkLinks]
  simp only [bind_ok, forM_ok, demand_ok, exists_unit, packageIntrinsics_iff, checkParents_iff,
    checkPackages_iff, exists_and_right, checkLinks_rules]
  constructor
  · rintro ⟨packages,single,executable,parents,⟨aliases,acyclic,digests⟩,roots,content,version,discovery⟩
    exact ⟨⟨parents,aliases,acyclic,digests,roots,content⟩,packages,version,discovery,single,executable⟩
  · rintro ⟨⟨parents,aliases,acyclic,digests,roots,content⟩,packages,version,discovery,single,executable⟩
    exact ⟨packages,single,executable,parents,⟨aliases,acyclic,digests⟩,roots,content,version,discovery⟩

theorem packageIntrinsics_ends (packages : List Package) : Ends (forM packages packageIntrinsics) := by
  apply failsIn_forM
  intro package _
  unfold packageIntrinsics
  split
  · exact demand_ends
  · exact failsIn_pure _

theorem checkParents_ends (files : List ToolFile) : Ends (checkParents files) := by
  apply failsIn_forM
  intro file _
  apply failsIn_forM
  exact fun _ _ => demand_ends

theorem checkPackages_ends : Ends (checkPackages D x) := by
  apply failsIn_forM
  exact fun _ _ => demand_ends

/-- The producer's recursion ends on every identity. -/
theorem validateToolIdentity_ends : Ends (validateToolIdentity D x) := by
  unfold validateToolIdentity
  apply failsIn_bind (packageIntrinsics_ends _)
  intro _ _
  apply failsIn_bind demand_ends
  intro _ _
  apply failsIn_bind demand_ends
  intro _ _
  apply failsIn_bind demand_ends
  intro _ _
  apply failsIn_bind (checkParents_ends _)
  intro _ _
  apply failsIn_bind checkLinks_ends
  intro _ _
  apply failsIn_bind checkPackages_ends
  intro _ _
  exact demand_ends

/-- The checker's recursion ends on every identity. -/
theorem sets_ends : Ends (sets D x) := by
  unfold sets toolIntrinsics
  rw [checkerLinks_checkLinks]
  apply failsIn_bind (packageIntrinsics_ends _)
  intro _ _
  apply failsIn_bind demand_ends
  intro _ _
  apply failsIn_bind demand_ends
  intro _ _
  apply failsIn_bind (checkParents_ends _)
  intro _ _
  apply failsIn_bind checkLinks_ends
  intro _ _
  apply failsIn_bind checkPackages_ends
  intro _ _
  apply failsIn_bind demand_ends
  intro _ _
  apply failsIn_bind demand_ends
  intro _ _
  exact demand_ends

/-- The rules that a reconstructed list meets: its links are accepted as soon as the aliases that the
producer was given state their targets. -/
theorem Reconstructed.accepted {files out : List ToolFile} (made : Reconstructed D files out)
    (good : ∀ entry ∈ files, AliasGood files entry) : ∃ done, checkLinks D out = .ok done := by
  apply (checkLinks_iff (distinct_of_ascending made.ascending)).mpr
  refine ⟨fun file inside => ?_,made.acyclic⟩
  cases file with
  | file => trivial
  | directory => trivial
  | symlinkFile => exact made.agreeing good _ inside
  | symlinkDirectory => exact made.digests _ _ _ _ inside

/-- Both sides accept exactly the same identities, their walks and that of the producer's hashing
end, and a reconstructed list is accepted for its links. -/
theorem toolIdentity_checked (D : ToolDigests) :
    (∀ x, (validateToolIdentity D x = .ok ⟨⟩ ↔ Accepted D x) ∧ (sets D x = .ok ⟨⟩ ↔ Accepted D x) ∧
      Ends (validateToolIdentity D x) ∧ Ends (sets D x)) ∧
    ∀ files, Ends (reconstructDirectoryHashes D files) ∧
      ∀ out, reconstructDirectoryHashes D files = .ok out → Reconstructed D files out ∧
        ((∀ entry ∈ files, AliasGood files entry) → ∃ done, checkLinks D out = .ok done) := by
  constructor
  · exact fun x => ⟨validateToolIdentity_iff,sets_iff,validateToolIdentity_ends,sets_ends⟩
  · intro files
    refine ⟨reconstructDirectoryHashes_ends files,fun out ran => ?_⟩
    have made := reconstructDirectoryHashes_spec ran
    exact ⟨made,made.accepted⟩

end Acceptance

section Samples

def plainDigests : ToolDigests where
  directory _ := "directory"
  package _ := []
  content _ _ _ _ := "content"

/-- A directory that holds a link to its sibling, and a link to it. -/
def linkedFiles : List ToolFile :=
  [.symlinkDirectory ['l'] ['d'] ['d'] "", .directory ['d'], .directory ['e'],
    .symlinkDirectory ['d','/','k'] ['e'] ['e'] "", .symlinkFile ['d','/','g'] ['f'] ['f'] "hash" 1 false,
    .file ['f'] "hash" 1 false]

theorem toolIdentity_checked_sample :
    ∃ out, reconstructDirectoryHashes plainDigests linkedFiles = .ok out ∧
      ∃ done, checkLinks plainDigests out = .ok done := by
  have ran : (reconstructDirectoryHashes plainDigests linkedFiles).isOk = true := by decide +kernel
  have good : ∀ entry ∈ linkedFiles, AliasGood linkedFiles entry := by decide +kernel
  cases same : reconstructDirectoryHashes plainDigests linkedFiles with
  | error stop =>
    rw [same] at ran
    cases ran
  | ok out =>
    exact ⟨out,rfl,((toolIdentity_checked plainDigests).2 linkedFiles).2 out same |>.2 good⟩

/-- One executable file whose version probe failed. -/
def failedProbe : Identity where
  kind := .executable
  files := [.file ['.'] "hash" 1 true]
  packages := []
  version := some 1
  discovery := []
  systemDependencies := "[]"
  digest := "content"
  filled := by decide
  ascending := List.pairwise_singleton _ _

def wrongAlias : List ToolFile :=
  [.file ['a'] "hash" 1 false, .symlinkFile ['b'] ['a'] ['a'] "hash" 2 false]

/-- The rules about the list do not settle acceptance, and the producer does not compare an alias
that lies below no hashed directory. -/
theorem toolIdentity_refused : ListRules plainDigests failedProbe ∧
    validateToolIdentity plainDigests failedProbe =
      .error (.refused "tool probe did not complete successfully") ∧
    sets plainDigests failedProbe =
      .error (.refused "tool version probe did not complete successfully") ∧
    reconstructDirectoryHashes plainDigests wrongAlias = .ok wrongAlias ∧
    checkLinks plainDigests wrongAlias = .error (.refused "tool symlink-file target mismatch") := by
  refine ⟨⟨?_,?_,?_,?_,nofun,rfl⟩,by decide +kernel,by decide +kernel,by decide +kernel,
    by decide +kernel⟩
  · intro file inside above under
    obtain rfl := List.mem_singleton.mp inside
    have separated : '/' ∈ ['.'] := separated_of_under under
    cases List.mem_singleton.mp separated
  · intro path target resolved hash size executable inside
    cases List.mem_singleton.mp inside
  · intro a path
    obtain ⟨b,⟨target,resolved,hash,inside,_⟩,_⟩ := TransGen.head'_iff.mp path
    cases List.mem_singleton.mp inside
  · intro path target resolved hash inside
    cases List.mem_singleton.mp inside

end Samples

end ToolManifest

end EvidenceV4
