import EvidenceV4.ToolLinks
import EvidenceV4.Utf8Order

/-!
# Hashing the directories of a tool

The producer settles each link to a directory with the digest of that directory,
which settles the links below it first. A digest is sealed once its directory is
hashed: every entry below is settled by digests that were sealed before.
-/

set_option autoImplicit false

namespace EvidenceV4

namespace ToolManifest

open CheckedExcept
open PolicyDocument (mapGet mapGet_isSome)
open Relation (TransGen)

section Model

/-- The entries so far and the memo of the digests. -/
structure Hashing where
  entries : List ToolFile
  hashes : List (FilePath × Hash)

def ToolFile.settle (hash : Hash) : ToolFile → ToolFile
  | .symlinkDirectory path target resolved _ => .symlinkDirectory path target resolved hash
  | entry => entry

def settleAt (name : FilePath) (hash : Hash) (entry : ToolFile) : ToolFile :=
  if entry.path = name then entry.settle hash else entry

/-- An alias states the facts of the file it resolves to. -/
def AliasGood (files : List ToolFile) : ToolFile → Prop
  | .symlinkFile _ _ resolved hash size executable =>
    byPath files resolved = some (.file resolved hash size executable)
  | _ => True

instance (files : List ToolFile) : (file : ToolFile) → Decidable (AliasGood files file)
  | .file .. => inferInstanceAs (Decidable True)
  | .directory _ => inferInstanceAs (Decidable True)
  | .symlinkFile .. => inferInstanceAs (Decidable (_ = _))
  | .symlinkDirectory .. => inferInstanceAs (Decidable True)

abbrev Call := Hashing → FilePath → Except Stop (Hash × Hashing)

def settleLink (call : Call) (state : Hashing) (name : FilePath) : Except Stop Hashing :=
  match byPath state.entries name with
  | some (.symlinkDirectory _ _ resolved _) => do
    let (hash,state) ← call state resolved
    pure { state with entries := state.entries.map (settleAt name hash) }
  | _ => pure state

/-- One step of the loop over the entries below a directory. -/
def hashBelow (call : Call) (directory : FilePath) (s : List ToolFile × Hashing) (name : FilePath) :
    Except Stop (List ToolFile × Hashing) :=
  if Below directory name then do
    let state ← settleLink call s.2 name
    demand (∀ entry ∈ byPath state.entries name, AliasGood state.entries entry)
      ("Contradictory tool file alias: " ++ String.ofList name)
    pure (s.1 ++ (byPath state.entries name).toList.map (relative directory),state)
  else pure s

variable (D : ToolDigests)

def directoryHash : ℕ → List FilePath → Call
  | fuel, active, state, directory =>
    match state.hashes.lookup directory with
    | some hash => pure (hash,state)
    | none =>
      match fuel with
      | 0 => throw .exhausted
      | fuel+1 => do
        demand (byPath state.entries directory = some (.directory directory))
          ("Missing tool directory: " ++ String.ofList directory)
        demand (directory ∉ active) ("Tool symlink hash cycle: " ++ String.ofList directory)
        let (found,state) ← (state.entries.map ToolFile.path).foldlM
          (hashBelow (directoryHash fuel (directory :: active)) directory) ([],state)
        let hash := D.directory (sorted found)
        pure (hash,{ state with hashes := (directory,hash) :: state.hashes })

def reconstructDirectoryHashes (files : List ToolFile) : Except Stop (List ToolFile) := do
  demand (files.map ToolFile.path).Nodup "Duplicate tool manifest path"
  let state ← (files.map ToolFile.path).foldlM
    (settleLink (directoryHash D (files.length + 1) [])) ⟨files,[]⟩
  pure (sorted state.entries)

end Model

section Entries

variable {files files' : List ToolFile} {name path : FilePath} {entry : ToolFile}

@[simp]
theorem settle_path (hash : Hash) (entry : ToolFile) : (entry.settle hash).path = entry.path := by
  cases entry with
  | file => rfl
  | directory => rfl
  | symlinkFile => rfl
  | symlinkDirectory => rfl

@[simp]
theorem settleAt_path (name : FilePath) (hash : Hash) (entry : ToolFile) :
    (settleAt name hash entry).path = entry.path := by
  unfold settleAt
  split_ifs
  · exact settle_path hash entry
  · rfl

theorem byPath_map {f : ToolFile → ToolFile} (same : ∀ entry, (f entry).path = entry.path) :
    byPath (files.map f) path = (byPath files path).map f := by
  unfold byPath mapGet
  simp only [List.map_map, ← List.map_reverse, List.find?_map, Option.map_map, Function.comp_def, same]

theorem byPath_names (inside : path ∈ files.map ToolFile.path) : ∃ entry, byPath files path = some entry := by
  apply Option.isSome_iff_exists.mp
  apply mapGet_isSome.mpr
  rw [List.map_map]
  exact inside

theorem descendants_eq (distinct : (files.map ToolFile.path).Nodup) (directory : FilePath) :
    descendants files directory =
      ((files.map ToolFile.path).filter (fun path => Below directory path)).filterMap (byPath files) := by
  rw [List.filter_map, List.filterMap_map]
  have found : ∀ entry ∈ descendants files directory, (byPath files ∘ ToolFile.path) entry = some entry := by
    intro entry below
    exact byPath_of distinct (List.mem_of_mem_filter below)
  symm
  calc (descendants files directory).filterMap (byPath files ∘ ToolFile.path)
      = (descendants files directory).filterMap some := List.filterMap_congr found
    _ = descendants files directory := List.filterMap_some

theorem descendants_same (distinct : (files.map ToolFile.path).Nodup)
    (names : files'.map ToolFile.path = files.map ToolFile.path) {directory : FilePath}
    (kept : ∀ entry ∈ descendants files directory, byPath files' entry.path = some entry) :
    descendants files' directory = descendants files directory := by
  rw [descendants_eq (names ▸ distinct), descendants_eq distinct, names]
  apply List.filterMap_congr
  intro path inside
  have ⟨known,below⟩ := List.mem_filter.mp inside
  obtain ⟨entry,member,rfl⟩ := List.mem_map.mp known
  rw [byPath_of distinct member, kept entry (List.mem_filter.mpr ⟨member,below⟩)]

end Entries

section Sealing

variable {D : ToolDigests} {files files' : List ToolFile} {hashes : List (FilePath × Hash)}
  {entry : ToolFile}

/-- The entry is settled by the digests so far. -/
def Settled (files : List ToolFile) (hashes : List (FilePath × Hash)) : ToolFile → Prop
  | .symlinkDirectory _ _ resolved hash => hashes.lookup resolved = some hash
  | entry => AliasGood files entry

/-- Each digest is that of a directory whose entries were settled before. -/
def Sealed (D : ToolDigests) (files : List ToolFile) : List (FilePath × Hash) → Prop
  | [] => True
  | (directory,hash) :: hashes => directory ∉ hashes.map Prod.fst ∧
    byPath files directory = some (.directory directory) ∧
    hash = directoryDigest D files directory ∧
    (∀ entry ∈ descendants files directory, Settled files hashes entry) ∧ Sealed D files hashes

theorem lookup_key {key : FilePath} {hash : Hash} (found : hashes.lookup key = some hash) :
    key ∈ hashes.map Prod.fst := by
  induction hashes with
  | nil => cases found
  | cons pair hashes ih =>
    obtain ⟨key',hash'⟩ := pair
    rw [List.lookup_cons] at found
    by_cases same : key = key'
    · exact List.mem_cons.mpr (.inl same)
    · rw [beq_eq_false_iff_ne.mpr same] at found
      exact List.mem_cons_of_mem _ (ih found)

theorem lookup_missing {key : FilePath} (missing : hashes.lookup key = none) :
    key ∉ hashes.map Prod.fst := by
  intro inside
  obtain ⟨pair,member,named⟩ := List.mem_map.mp inside
  have different := List.lookup_eq_none_iff.mp missing pair member
  rw [named] at different
  exact bne_iff_ne.mp different rfl

theorem lookup_later {key directory : FilePath} {hash hash' : Hash}
    (fresh : directory ∉ hashes.map Prod.fst) (found : hashes.lookup key = some hash) :
    ((directory,hash') :: hashes).lookup key = some hash := by
  have different : key ≠ directory := fun same => fresh (same ▸ lookup_key found)
  rw [List.lookup_cons, beq_eq_false_iff_ne.mpr different]
  exact found

/-- More digests, and the files keep what is settled. -/
structure Keeps (files : List ToolFile) (hashes : List (FilePath × Hash)) (files' : List ToolFile)
    (hashes' : List (FilePath × Hash)) : Prop where
  blank : files'.map (ToolFile.settle "") = files.map (ToolFile.settle "")
  kept : ∀ path entry, byPath files path = some entry → Settled files hashes entry →
    byPath files' path = some entry
  found : ∀ directory hash, hashes.lookup directory = some hash → hashes'.lookup directory = some hash

theorem Keeps.refl : Keeps files hashes files hashes :=
  ⟨rfl,fun _ _ found _ => found,fun _ _ found => found⟩

theorem Keeps.names {hashes' : List (FilePath × Hash)} (keeps : Keeps files hashes files' hashes') :
    files'.map ToolFile.path = files.map ToolFile.path := by
  have same := congrArg (List.map ToolFile.path) keeps.blank
  rw [List.map_map, List.map_map] at same
  simpa only [Function.comp_def, settle_path] using same

theorem Keeps.settled {hashes' : List (FilePath × Hash)} (keeps : Keeps files hashes files' hashes')
    (settled : Settled files hashes entry) : Settled files' hashes' entry := by
  cases entry with
  | file => trivial
  | directory => trivial
  | symlinkFile path target resolved hash size executable => exact keeps.kept _ _ settled trivial
  | symlinkDirectory path target resolved hash => exact keeps.found _ _ settled

theorem Keeps.trans {files'' : List ToolFile} {hashes' hashes'' : List (FilePath × Hash)}
    (first : Keeps files hashes files' hashes') (second : Keeps files' hashes' files'' hashes'') :
    Keeps files hashes files'' hashes'' := by
  constructor
  · exact second.blank.trans first.blank
  · intro path entry found settled
    exact second.kept _ _ (first.kept _ _ found settled) (first.settled settled)
  · exact fun directory hash found => second.found _ _ (first.found _ _ found)

theorem Keeps.blanked {hashes' : List (FilePath × Hash)} (keeps : Keeps files hashes files' hashes')
    {path : FilePath} (found : byPath files path = some entry) :
    ∃ entry', byPath files' path = some entry' ∧ entry'.settle "" = entry.settle "" := by
  have same : byPath (files'.map (ToolFile.settle "")) path = byPath (files.map (ToolFile.settle "")) path := by
    rw [keeps.blank]
  rw [byPath_map (settle_path ""), byPath_map (settle_path ""), found] at same
  exact Option.map_eq_some_iff.mp same

theorem settled_later {directory : FilePath} {hash : Hash} (fresh : directory ∉ hashes.map Prod.fst)
    (settled : Settled files hashes entry) : Settled files ((directory,hash) :: hashes) entry := by
  cases entry with
  | file => trivial
  | directory => trivial
  | symlinkFile => exact settled
  | symlinkDirectory => exact lookup_later fresh settled

/-- Files that keep what is settled keep what is sealed. -/
theorem Sealed.keeps (distinct : (files.map ToolFile.path).Nodup) (isSealed : Sealed D files hashes)
    (keeps : Keeps files hashes files' hashes) : Sealed D files' hashes := by
  induction hashes with
  | nil => trivial
  | cons pair hashes ih =>
    obtain ⟨directory,hash⟩ := pair
    obtain ⟨fresh,present,digest,settled,rest⟩ := isSealed
    have keeps' : Keeps files hashes files' hashes := by
      refine ⟨keeps.blank,?_,fun _ _ found => found⟩
      exact fun path entry found settled => keeps.kept _ _ found (settled_later fresh settled)
    have same : descendants files' directory = descendants files directory := by
      apply descendants_same distinct keeps.names
      intro entry below
      exact keeps'.kept _ _ (byPath_of distinct (List.mem_of_mem_filter below)) (settled entry below)
    refine ⟨fresh,keeps.kept _ _ present trivial,?_,?_,ih rest keeps'⟩
    · rw [digest, directoryDigest, directoryDigest, same]
    · rw [same]
      exact fun entry below => keeps'.settled (settled entry below)

/-- What a sealed digest says about its directory. -/
theorem Sealed.directory (isSealed : Sealed D files hashes) {directory : FilePath} {hash : Hash}
    (found : hashes.lookup directory = some hash) :
    byPath files directory = some (.directory directory) ∧ hash = directoryDigest D files directory ∧
      ∀ entry ∈ descendants files directory, AliasGood files entry := by
  induction hashes with
  | nil => cases found
  | cons pair hashes ih =>
    obtain ⟨directory',hash'⟩ := pair
    obtain ⟨fresh,present,digest,settled,rest⟩ := isSealed
    rw [List.lookup_cons] at found
    by_cases same : directory = directory'
    · subst same
      rw [beq_self_eq_true] at found
      obtain rfl := Option.some.inj found
      refine ⟨present,digest,fun entry below => ?_⟩
      have now := settled entry below
      cases entry with
      | file => trivial
      | directory => trivial
      | symlinkFile => exact now
      | symlinkDirectory => trivial
    · rw [beq_eq_false_iff_ne.mpr same] at found
      exact ih rest found

/-- The links below a hashed directory resolve to directories that were hashed before. -/
theorem Sealed.rank (isSealed : Sealed D files hashes) : ∃ rank : FilePath → ℕ,
    ∀ directory ∈ hashes.map Prod.fst, rank directory < hashes.length ∧
      ∀ path target resolved hash,
        ToolFile.symlinkDirectory path target resolved hash ∈ descendants files directory →
          resolved ∈ hashes.map Prod.fst ∧ rank resolved < rank directory := by
  induction hashes with
  | nil => exact ⟨fun _ => 0,nofun⟩
  | cons pair hashes ih =>
    obtain ⟨newest,digest⟩ := pair
    obtain ⟨fresh,_,_,settled,rest⟩ := isSealed
    obtain ⟨rank,ranked⟩ := ih rest
    let rank' : FilePath → ℕ := fun directory =>
      if directory = newest then hashes.length else rank directory
    have now : rank' newest = hashes.length := if_pos rfl
    have before : ∀ directory ∈ hashes.map Prod.fst, rank' directory = rank directory :=
      fun directory inside =>
        if_neg (fun same : directory = newest => fresh (same ▸ inside))
    refine ⟨rank',fun directory inside => ?_⟩
    rcases List.mem_cons.mp inside with rfl | inside
    · constructor
      · rw [now]
        exact Nat.lt_succ_self _
      · intro path target resolved hash below
        have older := lookup_key (settled _ below)
        refine ⟨List.mem_cons_of_mem _ older,?_⟩
        rw [now, before resolved older]
        exact (ranked resolved older).1
    · obtain ⟨short,links⟩ := ranked directory inside
      constructor
      · rw [before directory inside]
        exact short.trans (Nat.lt_succ_self _)
      · intro path target resolved hash below
        obtain ⟨older,less⟩ := links path target resolved hash below
        refine ⟨List.mem_cons_of_mem _ older,?_⟩
        rw [before directory inside, before resolved older]
        exact less

/-- Links whose directories are all hashed depend on one another without a cycle. -/
theorem Sealed.acyclic (distinct : (files.map ToolFile.path).Nodup) (isSealed : Sealed D files hashes)
    (all : ∀ path target resolved hash,
      ToolFile.symlinkDirectory path target resolved hash ∈ files → resolved ∈ hashes.map Prod.fst) :
    ∀ a, ¬ TransGen (Depends files) a a := by
  obtain ⟨rank,ranked⟩ := isSealed.rank
  let height : FilePath → ℕ := fun path =>
    match byPath files path with
    | some (.symlinkDirectory _ _ resolved _) => rank resolved + 1
    | _ => 0
  have linked : ∀ path target resolved hash,
      ToolFile.symlinkDirectory path target resolved hash ∈ files → height path = rank resolved + 1 := by
    intro path target resolved hash inside
    have found : byPath files path = some (.symlinkDirectory path target resolved hash) :=
      byPath_of distinct inside
    show (match byPath files path with
      | some (.symlinkDirectory _ _ resolved _) => rank resolved + 1
      | _ => 0) = _
    rw [found]
  have drops : ∀ a b, Depends files a b → height b < height a := by
    rintro a b ⟨target,resolved,hash,inside,entry,below,link,rfl⟩
    rw [linked a target resolved hash inside]
    have found := byPath_of distinct (List.mem_of_mem_filter below)
    cases entry with
    | file => cases link
    | directory => cases link
    | symlinkFile =>
      show (match byPath files _ with
        | some (.symlinkDirectory _ _ resolved _) => rank resolved + 1
        | _ => 0) < _
      rw [found]
      exact Nat.succ_pos _
    | symlinkDirectory path' target' resolved' hash' =>
      show height path' < _
      rw [linked path' target' resolved' hash' (List.mem_of_mem_filter below)]
      exact Nat.succ_lt_succ ((ranked resolved (all a target resolved hash inside)).2 _ _ _ _ below).2
  have falls : ∀ a b, TransGen (Depends files) a b → height b < height a := by
    intro a b path
    induction path with
    | single step => exact drops _ _ step
    | tail _ step ih => exact (drops _ _ step).trans ih
  exact fun a path => Nat.lt_irrefl _ (falls a a path)

end Sealing

section Run

variable {D : ToolDigests} {active : List FilePath} {state state' : Hashing}

/-- What holds while the directories on the stack are being hashed. -/
structure Inv (D : ToolDigests) (active : List FilePath) (state : Hashing) : Prop where
  distinct : (state.entries.map ToolFile.path).Nodup
  isSealed : Sealed D state.entries state.hashes
  unhashed : ∀ directory ∈ active, directory ∉ state.hashes.map Prod.fst

abbrev Hashing.Keeps (state state' : Hashing) : Prop :=
  ToolManifest.Keeps state.entries state.hashes state'.entries state'.hashes

/-- A call hashes its directory and keeps the rest. -/
def Hashes (D : ToolDigests) (active : List FilePath) (call : Call) : Prop :=
  ∀ state directory hash state', Inv D active state → call state directory = .ok (hash,state') →
    Inv D active state' ∧ state.Keeps state' ∧ state'.hashes.lookup directory = some hash

theorem settleAt_keeps {files : List ToolFile} {hashes : List (FilePath × Hash)} {name : FilePath}
    {path target resolved : FilePath} {hash hash' : Hash}
    (found : byPath files name = some (.symlinkDirectory path target resolved hash'))
    (settled : hashes.lookup resolved = some hash) :
    Keeps files hashes (files.map (settleAt name hash)) hashes := by
  refine ⟨?_,?_,fun _ _ found => found⟩
  · rw [List.map_map]
    apply List.map_congr_left
    intro entry _
    show (settleAt name hash entry).settle "" = entry.settle ""
    unfold settleAt
    split_ifs
    · cases entry with
      | file => rfl
      | directory => rfl
      | symlinkFile => rfl
      | symlinkDirectory => rfl
    · rfl
  · intro other entry present before
    rw [byPath_map (settleAt_path name hash), present]
    apply congrArg some
    unfold settleAt
    split_ifs with same
    · obtain rfl : other = name := (byPath_mem present).2.symm.trans same
      obtain rfl := Option.some.inj (found.symm.trans present)
      obtain rfl := Option.some.inj (settled.symm.trans before)
      rfl
    · rfl

/-- Settling a link keeps the rest, and leaves the entry settled unless it is an alias. -/
theorem settleLink_spec {call : Call} (hashed : Hashes D active call) {name : FilePath}
    (inv : Inv D active state) (ran : settleLink call state name = .ok state') :
    Inv D active state' ∧ state.Keeps state' ∧ ∀ entry, byPath state'.entries name = some entry →
      AliasGood state'.entries entry → Settled state'.entries state'.hashes entry := by
  unfold settleLink at ran
  split at ran
  · rename_i path target resolved hash' found
    obtain ⟨⟨hash,mid⟩,called,ran⟩ := (bind_ok _ _ _).mp ran
    obtain rfl := (pure_ok _ _).mp ran
    obtain ⟨inv',keeps,looked⟩ := hashed _ _ _ _ inv called
    obtain ⟨entry',found',blank⟩ := keeps.blanked found
    obtain ⟨hash'',rfl⟩ : ∃ hash'', entry' = .symlinkDirectory path target resolved hash'' := by
      cases entry' with
      | file => cases blank
      | directory => cases blank
      | symlinkFile => cases blank
      | symlinkDirectory path' target' resolved' hash'' =>
        cases blank
        exact ⟨hash'',rfl⟩
    have settles := settleAt_keeps found' looked
    refine ⟨⟨?_,inv'.isSealed.keeps inv'.distinct settles,inv'.unhashed⟩,keeps.trans settles,?_⟩
    · show ((mid.entries.map (settleAt name hash)).map ToolFile.path).Nodup
      rw [settles.names]
      exact inv'.distinct
    · intro entry present _
      have named : path = name := (byPath_mem found').2
      have now : byPath (mid.entries.map (settleAt name hash)) name =
          some (.symlinkDirectory path target resolved hash) := by
        rw [byPath_map (settleAt_path name hash), found']
        exact congrArg some (if_pos named)
      obtain rfl := Option.some.inj (now.symm.trans present)
      exact looked
  · rename_i plain
    obtain rfl := (pure_ok _ _).mp ran
    refine ⟨inv,.refl,fun entry found good => ?_⟩
    cases entry with
    | file => trivial
    | directory => trivial
    | symlinkFile => exact good
    | symlinkDirectory path target resolved hash => exact absurd found (plain path target resolved hash)

/-- What the loop below a directory has found among the names it has passed. -/
structure Found (D : ToolDigests) (active : List FilePath) (directory : FilePath) (start : Hashing)
    (passed : List FilePath) (found : List ToolFile) (state : Hashing) : Prop where
  inv : Inv D active state
  keeps : start.Keeps state
  settled : ∀ name ∈ passed, Below directory name → ∀ entry, byPath state.entries name = some entry →
    Settled state.entries state.hashes entry
  gathered : found = ((passed.filter (fun path => Below directory path)).filterMap
    (byPath state.entries)).map (relative directory)

theorem settled_kept {files files' : List ToolFile} {hashes hashes' : List (FilePath × Hash)}
    (keeps : Keeps files hashes files' hashes') {name : FilePath} (known : name ∈ files.map ToolFile.path)
    (settled : ∀ entry, byPath files name = some entry → Settled files hashes entry) :
    byPath files' name = byPath files name ∧
      ∀ entry, byPath files' name = some entry → Settled files' hashes' entry := by
  obtain ⟨entry,found⟩ := byPath_names known
  have kept := keeps.kept _ _ found (settled entry found)
  refine ⟨kept.trans found.symm,fun entry' found' => ?_⟩
  obtain rfl := Option.some.inj (kept.symm.trans found')
  exact keeps.settled (settled entry found)

theorem hashBelow_step {call : Call} (hashed : Hashes D active call) {directory name : FilePath}
    {start : Hashing} {passed : List FilePath} {found found' : List ToolFile}
    (known : ∀ path ∈ passed, path ∈ start.entries.map ToolFile.path)
    (before : Found D active directory start passed found state)
    (ran : hashBelow call directory (found,state) name = .ok (found',state')) :
    Found D active directory start (passed ++ [name]) found' state' := by
  unfold hashBelow at ran
  by_cases below : Below directory name
  · rw [if_pos below] at ran
    obtain ⟨mid,linked,ran⟩ := (bind_ok _ _ _).mp ran
    obtain ⟨_,alias',ran⟩ := (bind_ok _ _ _).mp ran
    obtain ⟨rfl,rfl⟩ := Prod.mk.inj ((pure_ok _ _).mp ran)
    obtain ⟨inv,keeps,settled⟩ := settleLink_spec hashed before.inv linked
    have known' : ∀ path ∈ passed, path ∈ state.entries.map ToolFile.path := by
      rw [before.keeps.names]
      exact known
    refine ⟨inv,before.keeps.trans keeps,?_,?_⟩
    · intro other inside down
      rcases List.mem_append.mp inside with inside | inside
      · exact (settled_kept keeps (known' other inside) (before.settled other inside down)).2
      · obtain rfl := List.mem_singleton.mp inside
        intro entry present
        exact settled entry present (demand_ok.mp alias' entry present)
    · show found ++ _ = _
      rw [List.filter_append, List.filterMap_append, List.map_append, before.gathered]
      congr 1
      · apply congrArg
        apply List.filterMap_congr
        intro other inside
        have ⟨member,down⟩ := List.mem_filter.mp inside
        exact (settled_kept keeps (known' other member)
          (before.settled other member (of_decide_eq_true down))).1.symm
      · rw [List.filter_cons_of_pos (by simpa using below), List.filter_nil]
        cases present : byPath mid.entries name with
        | none => simp [present]
        | some entry => simp [present]
  · rw [if_neg below] at ran
    obtain ⟨rfl,rfl⟩ := Prod.mk.inj ((pure_ok _ _).mp ran)
    refine ⟨before.inv,before.keeps,?_,?_⟩
    · intro other inside down
      rcases List.mem_append.mp inside with inside | inside
      · exact before.settled other inside down
      · obtain rfl := List.mem_singleton.mp inside
        exact absurd down below
    · rw [List.filter_append, List.filter_cons_of_neg (by simp [below]), List.filter_nil,
        List.append_nil]
      exact before.gathered

theorem hashBelow_run {call : Call} (hashed : Hashes D active call) {directory : FilePath}
    {start : Hashing} {passed names : List FilePath} {found found' : List ToolFile}
    (known : ∀ path ∈ passed ++ names, path ∈ start.entries.map ToolFile.path)
    (before : Found D active directory start passed found state)
    (ran : names.foldlM (hashBelow call directory) (found,state) = .ok (found',state')) :
    Found D active directory start (passed ++ names) found' state' := by
  induction names generalizing passed found state with
  | nil =>
    obtain ⟨rfl,rfl⟩ := Prod.mk.inj ((pure_ok _ _).mp ran)
    rw [List.append_nil]
    exact before
  | cons name names ih =>
    rw [List.foldlM_cons] at ran
    obtain ⟨⟨found'',mid⟩,first,rest⟩ := (bind_ok _ _ _).mp ran
    have next := hashBelow_step hashed
      (fun path inside => known path (List.mem_append_left _ inside)) before first
    have shift : passed ++ name :: names = passed ++ [name] ++ names := by simp
    rw [shift] at known ⊢
    exact ih known next rest

/-- Hashing a directory seals its digest. -/
theorem directoryHash_hashes (fuel : ℕ) (active : List FilePath) :
    Hashes D active (directoryHash D fuel active) := by
  induction fuel generalizing active with
  | zero =>
    intro state directory hash state' inv ran
    unfold directoryHash at ran
    split at ran
    · rename_i cached
      obtain ⟨rfl,rfl⟩ := Prod.mk.inj ((pure_ok _ _).mp ran)
      exact ⟨inv,.refl,cached⟩
    · cases ran
  | succ fuel ih =>
    intro state directory hash state' inv ran
    unfold directoryHash at ran
    split at ran
    · rename_i cached
      obtain ⟨rfl,rfl⟩ := Prod.mk.inj ((pure_ok _ _).mp ran)
      exact ⟨inv,.refl,cached⟩
    · rename_i missing
      obtain ⟨_,present,ran⟩ := (bind_ok _ _ _).mp ran
      obtain ⟨_,fresh,ran⟩ := (bind_ok _ _ _).mp ran
      obtain ⟨⟨found,mid⟩,looped,ran⟩ := (bind_ok _ _ _).mp ran
      obtain ⟨rfl,rfl⟩ := Prod.mk.inj ((pure_ok _ _).mp ran)
      have unhashed : directory ∉ state.hashes.map Prod.fst := lookup_missing missing
      have inv' : Inv D (directory :: active) state :=
        ⟨inv.distinct,inv.isSealed,List.forall_mem_cons.mpr ⟨unhashed,inv.unhashed⟩⟩
      have start : Found D (directory :: active) directory state [] [] state := ⟨inv',.refl,nofun,rfl⟩
      have done := hashBelow_run (ih _) (fun path inside => inside) start looped
      rw [List.nil_append, ← done.keeps.names] at done
      have ⟨open',older⟩ := List.forall_mem_cons.mp done.inv.unhashed
      refine ⟨⟨done.inv.distinct,?_,?_⟩,?_,List.lookup_cons_self⟩
      · refine ⟨open',done.keeps.kept _ _ (demand_ok.mp present) trivial,?_,?_,done.inv.isSealed⟩
        · rw [directoryDigest, descendants_eq done.inv.distinct, done.gathered]
        · intro entry below
          have ⟨inside,down⟩ := List.mem_filter.mp below
          exact done.settled entry.path (List.mem_map.mpr ⟨entry,inside,rfl⟩) (of_decide_eq_true down)
            entry (byPath_of done.inv.distinct inside)
      · intro other inside hashed
        rcases List.mem_cons.mp hashed with rfl | hashed
        · exact demand_ok.mp fresh inside
        · exact older other inside hashed
      · apply done.keeps.trans
        exact ⟨rfl,fun _ _ found _ => found,fun _ _ found => lookup_later open' found⟩

end Run

end ToolManifest

end EvidenceV4
