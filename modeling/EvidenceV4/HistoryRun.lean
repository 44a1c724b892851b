import EvidenceV4.CandidateSelection
import EvidenceV4.HistoryAppend

/-!
# The history directory over whole runs

An append is interrupted in one place that matters: between the link that
makes the event visible and the removal of its staging name. The directory is
then a chain followed by one event that no reader accepts. Nothing is appended
behind such an event, so there is at most one, and it is the newest.
-/

set_option autoImplicit false

namespace EvidenceV4

namespace HistoryAppend

open CheckedExcept StoreDocument RetainedFiles RetainedHistory PrefixLog Transaction

variable {D : Digests} {s s' : Store} {kept before : List HistoryEvent}
  {tail : Option HistoryEvent} {event : HistoryEvent} {base : AppendBase}

section Names

theorem mem_historyNames {n : ℕ} : n ∈ historyNames s ↔ (lookup s (.history n)).isSome := by
  simp only [historyNames, List.mem_insertionSort, List.mem_filterMap]
  constructor
  · rintro ⟨f,hf,found⟩
    have at_ : f.path = .history n := by
      cases hp : f.path <;> simp [hp] at found
      rw [found]
    rw [← at_, lookup_of_mem hf]
    rfl
  · intro h
    obtain ⟨f,hf⟩ := Option.isSome_iff_exists.mp h
    exact ⟨f,lookup_mem hf,by simp [lookup_path hf]⟩

theorem historyNames_nodup (s : Store) : (historyNames s).Nodup := by
  refine (List.perm_insertionSort _ _).nodup_iff.mpr ?_
  have distinct := s.distinct
  rw [List.Nodup, List.pairwise_map] at distinct
  refine List.Pairwise.filterMap _ (fun f g ne n hn m hm e => ne ?_) distinct
  cases hf : f.path <;> simp [hf] at hn
  cases hg : g.path <;> simp [hg] at hm
  rw [hn, hm, e]

/-- The names run from one to `n` when exactly these files are there. -/
theorem historyNames_range {n : ℕ} :
    historyNames s = List.range' 1 n ↔
      ∀ k, (lookup s (.history k)).isSome ↔ 1 ≤ k ∧ k ≤ n := by
  constructor
  · intro e k
    rw [← mem_historyNames, e, List.mem_range'_1]
    omega
  · intro h
    have perm : (historyNames s).Perm (List.range' 1 n) := by
      refine (List.perm_ext_iff_of_nodup (historyNames_nodup s) List.nodup_range').mpr (fun k => ?_)
      rw [mem_historyNames, h, List.mem_range'_1]
      omega
    refine perm.eq_of_pairwise' (List.pairwise_insertionSort _ _) ?_
    exact List.pairwise_le_range'

end Names

section Directory

/-- The event is visible behind the events in `before`, and its staging name is still there. -/
structure Interrupted (D : Digests) (s : Store) (before : List HistoryEvent)
    (event : HistoryEvent) : Prop where
  stored : lookup s (.history event.sequence) =
    some ⟨.history event.sequence,canonical (.event event),2⟩
  document : validateHistoryEvent D event = .ok ()
  sequence : event.sequence = before.length+1
  previous : event.previous = headOf D s before
  bindings : validateEventBindings D s event before = .ok ()

/-- The directory holds a chain, and behind it at most one interrupted event. -/
structure Retained (D : Digests) (s : Store) (kept : List HistoryEvent)
    (tail : Option HistoryEvent) : Prop where
  names : historyNames s = List.range' 1 (kept ++ tail.toList).length
  chain : Chain D s kept
  interrupted : ∀ event ∈ tail, Interrupted D s kept event

/-- The cached tail was read from this directory. -/
structure Cached (D : Digests) (s : Store) (base : AppendBase) : Prop where
  chain : Chain D s base.events
  head : base.head = headOf D s base.events

theorem Cached.extends (h : Cached D s base) (extended : Extends s s') : Cached D s' base :=
  ⟨chain_extends extended h.chain,
    by rw [h.head, headOf, headOf, chain_references extended h.chain]⟩

theorem headOf_extends (extended : Extends s s') (chain : Chain D s kept) :
    headOf D s' kept = headOf D s kept := by
  rw [headOf, headOf, chain_references extended chain]

theorem chain_getElem (h : Chain D s kept) (i : ℕ) (hi : i < kept.length) :
    (kept[i]).sequence = i+1 ∧ ∃ spelling,
      lookup s (.history (i+1)) = some ⟨.history (i+1),⟨.event kept[i],spelling⟩,1⟩ := by
  have at_ := numbered_getElem (chain_numbered h) i hi
  obtain ⟨_,_,_,accepted⟩ := chain_mem h (List.getElem_mem hi)
  obtain ⟨spelling,stored⟩ := accepted.stored
  rw [at_] at stored
  exact ⟨at_,spelling,stored⟩

/-- Two chains of one directory with the same length are the same. -/
theorem chain_unique {other : List HistoryEvent} (h : Chain D s kept) (h' : Chain D s other)
    (lengths : kept.length = other.length) : kept = other := by
  refine List.ext_getElem lengths (fun i hi hi' => ?_)
  obtain ⟨_,_,stored⟩ := chain_getElem h i hi
  obtain ⟨_,_,stored'⟩ := chain_getElem h' i hi'
  rw [stored] at stored'
  simp only [Option.some.injEq, File.mk.injEq, Bytes.mk.injEq, Content.event.injEq] at stored'
  exact stored'.2.1.1

theorem Retained.fresh (r : Retained D s kept none) :
    lookup s (.history (kept.length+1)) = none := by
  have range := historyNames_range.mp r.names (kept.length+1)
  simp only [Option.toList_none, List.append_nil] at range
  cases found : lookup s (.history (kept.length+1)) with
  | none => rfl
  | some f =>
    rw [found] at range
    have := range.mp rfl
    omega

/-- No chain of the directory goes past an interrupted event. -/
theorem Retained.covers {other : List HistoryEvent} (r : Retained D s kept tail)
    (h : Chain D s other) : other.length ≤ kept.length := by
  by_contra longer
  obtain ⟨_,_,stored⟩ := chain_getElem h kept.length (by omega)
  cases tail with
  | none =>
    rw [r.fresh] at stored
    simp at stored
  | some event =>
    have cut := r.interrupted event rfl
    have at_ := cut.stored
    rw [cut.sequence, stored] at at_
    simp at at_

/-- Only the interrupted event still has its staging name. -/
theorem Retained.settled (r : Retained D s kept tail) {n : ℕ} {f : File}
    (found : lookup s (.history n) = some f) (other : ∀ event ∈ tail, event.sequence ≠ n) :
    f.links = 1 := by
  have range := (historyNames_range.mp r.names n).mp (by rw [found]; rfl)
  rw [List.length_append] at range
  have inside : n ≤ kept.length := by
    cases tail with
    | none => simpa using range.2
    | some event =>
      have differ := other event rfl
      rw [(r.interrupted event rfl).sequence] at differ
      simp only [Option.toList_some, List.length_singleton] at range
      omega
  obtain ⟨_,_,stored⟩ := chain_getElem r.chain (n-1) (by omega)
  rw [Nat.sub_add_cancel range.1, found] at stored
  exact (congrArg File.links (Option.some.inj stored))

theorem Retained.extends (r : Retained D s kept tail) (extended : Extends s s')
    (same : ∀ n, lookup s' (.history n) = lookup s (.history n)) : Retained D s' kept tail := by
  refine ⟨?_,chain_extends extended r.chain,fun event hm => ?_⟩
  · rw [historyNames_range]
    intro k
    rw [same, historyNames_range.mp r.names]
  · have cut := r.interrupted event hm
    refine ⟨by rw [same, cut.stored],cut.document,cut.sequence,?_,
      validateEventBindings_stable D event kept s s' () extended cut.bindings⟩
    rw [cut.previous, headOf_extends extended r.chain]

theorem Retained.names_insert (r : Retained D s kept none) {f : File}
    (at_ : f.path = .history (kept.length+1)) (fresh : lookup s f.path = none) :
    historyNames (s.insert f fresh) = List.range' 1 (kept.length+1) := by
  have range := historyNames_range.mp r.names
  rw [historyNames_range]
  intro k
  rw [lookup_insert fresh, at_]
  split
  · next e =>
    obtain rfl : k = kept.length+1 := by simpa using e
    simp
  · next ne =>
    have differ : k ≠ kept.length+1 := fun e => ne (e ▸ rfl)
    simp only [Option.toList_none, List.append_nil] at range
    rw [range]
    omega

/-- An event that may follow the chain. -/
structure Follows (D : Digests) (s : Store) (kept : List HistoryEvent) (event : HistoryEvent) :
    Prop where
  document : validateHistoryEvent D event = .ok ()
  sequence : event.sequence = kept.length+1
  previous : event.previous = headOf D s kept
  bindings : validateEventBindings D s event kept = .ok ()

theorem Follows.extends (h : Follows D s kept event) (extended : Extends s s')
    (chain : Chain D s kept) : Follows D s' kept event :=
  ⟨h.document,h.sequence,h.previous.trans (headOf_extends extended chain).symm,
    validateEventBindings_stable D event kept _ _ () extended h.bindings⟩

def eventFile (event : HistoryEvent) (links : ℕ) : File :=
  ⟨.history event.sequence,canonical (.event event),links⟩

/-- A published event makes the chain longer. -/
theorem Retained.accept (r : Retained D s kept none) (h : Follows D s kept event)
    (fresh : lookup s (eventFile event 1).path = none) :
    Retained D (s.insert (eventFile event 1) fresh) (kept ++ [event]) none := by
  have extended := insert_extends fresh trivial
  have names := r.names_insert (congrArg Path.history h.sequence) fresh
  have here : lookup (s.insert (eventFile event 1) fresh) (.history event.sequence) =
      some (eventFile event 1) := (lookup_insert fresh).trans (if_pos rfl)
  have follows := h.extends extended r.chain
  refine ⟨by simpa using names,?_,by simp⟩
  exact chain_concat.mpr ⟨chain_extends extended r.chain,⟨_,here⟩,follows.document,
    follows.sequence,follows.previous,follows.bindings⟩

/-- A visible event whose staging name is left is the interrupted one. -/
theorem Retained.interrupt (r : Retained D s kept none) (h : Follows D s kept event)
    (fresh : lookup s (eventFile event 2).path = none) :
    Retained D (s.insert (eventFile event 2) fresh) kept (some event) := by
  have extended := insert_extends fresh trivial
  have names := r.names_insert (congrArg Path.history h.sequence) fresh
  have here : lookup (s.insert (eventFile event 2) fresh) (.history event.sequence) =
      some (eventFile event 2) := (lookup_insert fresh).trans (if_pos rfl)
  have follows := h.extends extended r.chain
  refine ⟨by simpa using names,chain_extends extended r.chain,?_⟩
  intro other same
  obtain rfl := Option.some.inj same
  exact ⟨here,follows.document,follows.sequence,follows.previous,follows.bindings⟩

theorem headOf_accept (fresh : lookup s (eventFile event 1).path = none) :
    headOf D (s.insert (eventFile event 1) fresh) (kept ++ [event]) =
      some ⟨event.sequence,event.eventId,.history event.sequence,
        D.bytes (canonical (.event event))⟩ := by
  have here : lookup (s.insert (eventFile event 1) fresh) (.history event.sequence) =
      some (eventFile event 1) := (lookup_insert fresh).trans (if_pos rfl)
  rw [headOf, List.map_append, List.map_singleton, List.getLast?_concat]
  exact congrArg some (reference_eq here)

end Directory

section Retirement

theorem lookup_retire {path p : Path} :
    lookup (s.retire path) p =
      (lookup s p).map (fun f => if f.path = path then { f with links := 1 } else f) := by
  have same : ((fun f : File => decide (f.path = p)) ∘
      fun f => if f.path = path then { f with links := 1 } else f) = fun f => decide (f.path = p) := by
    funext f
    simp only [Function.comp_apply]
    split <;> rfl
  rw [lookup, Store.retire, List.find?_map, same, lookup]

theorem retire_extends (s : Store) (n : ℕ) : Extends s (s.retire (.history n)) where
  kept p b h := by
    rw [readBytes_ok] at h ⊢
    rw [lookup_retire, h]
    simp
  closed key attempt _ := by
    have under : ((fun f : File => underExecution key attempt f.path) ∘
        fun f => if f.path = .history n then { f with links := 1 } else f) =
          fun f => underExecution key attempt f.path := by
      funext f
      simp only [Function.comp_apply]
      split <;> rfl
    rw [executionFiles, Store.retire, List.filter_map, under, executionFiles]
    refine (List.map_congr_left (fun f hf => if_neg (fun e => ?_))).trans (List.map_id _)
    have inside := (List.mem_filter.mp hf).2
    simp [e, underExecution] at inside

theorem lookup_retire_other {m n : ℕ} (ne : m ≠ n) :
    lookup (s.retire (.history n)) (.history m) = lookup s (.history m) := by
  rw [lookup_retire]
  cases found : lookup s (.history m) with
  | none => rfl
  | some f => simp [lookup_path found, ne]

/-- Without its staging name the interrupted event is part of the chain. -/
theorem Retained.complete (r : Retained D s kept (some event)) :
    Retained D (s.retire (.history event.sequence)) (kept ++ [event]) none := by
  have extended := retire_extends s event.sequence
  have interrupted := r.interrupted event rfl
  refine ⟨?_,chain_concat.mpr ⟨chain_extends extended r.chain,?_⟩,by simp⟩
  · rw [historyNames_range]
    intro k
    rw [lookup_retire, Option.isSome_map]
    simpa using historyNames_range.mp r.names k
  · refine ⟨⟨0,?_⟩,interrupted.document,interrupted.sequence,?_,
      validateEventBindings_stable D event kept _ _ () extended interrupted.bindings⟩
    · rw [lookup_retire, interrupted.stored]
      simp [canonical]
    · rw [interrupted.previous, headOf_extends extended r.chain]

/-- Removing a staging name completes the interrupted event, and changes nothing else. -/
theorem Retained.retire (r : Retained D s kept tail) (n : ℕ) :
    ∃ kept' tail', kept' ++ tail'.toList = kept ++ tail.toList ∧
      Retained D (s.retire (.history n)) kept' tail' := by
  have extended := retire_extends s n
  by_cases cut : ∃ event ∈ tail, event.sequence = n
  · obtain ⟨event,rfl,rfl⟩ := cut
    exact ⟨kept ++ [event],none,by simp,r.complete⟩
  · refine ⟨kept,tail,rfl,r.extends extended (fun m => ?_)⟩
    by_cases e : m = n
    · subst e
      rw [lookup_retire]
      cases found : lookup s (.history m) with
      | none => rfl
      | some f =>
        have whole := r.settled found (fun event hm e => cut ⟨event,hm,e⟩)
        obtain ⟨path,content,links⟩ := f
        subst whole
        simp
    · exact lookup_retire_other e

end Retirement

section Loading

theorem Retained.loads (r : Retained D s kept none) :
    loadHistory D s none true = .ok (snapshotOf D s kept) := by
  refine loadHistory_ok.mpr ⟨kept,rfl,?_,r.chain,by simp,by simp⟩
  simpa using r.names

theorem Retained.refuses (r : Retained D s kept (some event)) (captured : Option HistoryView)
    (allowUnaccounted : Bool) : ∃ message, loadHistory D s captured allowUnaccounted = .error message := by
  cases loaded : loadHistory D s captured allowUnaccounted with
  | error message => exact ⟨message,rfl⟩
  | ok snapshot =>
    obtain ⟨events,_,names,chain,_⟩ := loadHistory_ok.mp loaded
    have lengths := congrArg List.length (r.names.symm.trans names)
    simp only [List.length_range', List.length_append, Option.toList_some,
      List.length_singleton] at lengths
    have := r.covers chain
    omega

theorem rescan_ok {σ : Session} {snapshot : HistorySnapshot}
    (loaded : loadHistory D σ.store none true = .ok snapshot) :
    rescan D σ = (.ok ⟨snapshot.view.head,snapshot.events⟩,
      ⟨σ.store,some ⟨snapshot.view.head,snapshot.events⟩⟩) :=
  bind_of_ok (reading_of loaded)

theorem rescan_error {σ : Session} {message : String}
    (loaded : loadHistory D σ.store none true = .error message) :
    rescan D σ = (.error message,σ) :=
  bind_of_error (reading_of loaded)

/-- The head of a cached tail is there, so only the number of files is tested. -/
theorem unchanged_cached (c : Cached D s base) :
    unchanged D s base = .ok (decide ((historyNames s).length = base.events.length)) := by
  unfold unchanged
  split
  · next lengths =>
    rw [c.head, headOf, List.getLast?_map]
    cases last : base.events.getLast? with
    | none => simp [lengths]
    | some event =>
      obtain ⟨_,_,_,accepted⟩ := chain_mem c.chain (List.mem_of_getLast? last)
      obtain ⟨spelling,stored⟩ := accepted.stored
      have here : event.sequence ∈ historyNames s := mem_historyNames.mpr (by rw [stored]; rfl)
      have read := readBytes_ok.mpr stored
      simp only [Option.map_some, reference_eq stored, here, ite_true, read, lengths]
      simp
  · next lengths => simp [lengths]

theorem loadAppendBase_cached (r : Retained D s kept tail) (c : Cached D s base) :
    loadAppendBase D ⟨s,some base⟩ = loadAppendBase D ⟨s,none⟩ := by
  have again : loadAppendBase D ⟨s,none⟩ = rescan D ⟨s,none⟩ := rfl
  have first : loadAppendBase D ⟨s,some base⟩ =
      (if decide ((historyNames s).length = base.events.length) then
        (.ok base,⟨s,some base⟩)
      else rescan D ⟨s,none⟩) := by
    have tested : reading (fun σ : Session => unchanged D σ.store base) ⟨s,some base⟩ =
        (.ok (decide ((historyNames s).length = base.events.length)),⟨s,some base⟩) :=
      reading_of (unchanged_cached c)
    have cached : reading (fun σ : Session => pure σ.appendBase) ⟨s,some base⟩ =
        (.ok (some base),⟨s,some base⟩) := rfl
    rw [loadAppendBase, bind_of_ok cached]
    dsimp only
    rw [bind_of_ok tested]
    split <;> rfl
  rw [first, again, r.names, List.length_range']
  split
  · next same =>
    have lengths := of_decide_eq_true same
    have bound := r.covers c.chain
    cases tail with
    | some event =>
      simp at lengths
      omega
    | none =>
      have whole : base.events = kept := chain_unique c.chain r.chain (by simpa using lengths.symm)
      rw [rescan_ok r.loads, snapshotOf, ← whole, ← c.head]
  · rfl

end Loading

section Calls

/-- The directory is sound, nothing that could be read before the call has changed, and the
session has cached a tail of this directory. -/
structure Sound (D : Digests) (origin : Store) (σ : Session) : Prop where
  retained : ∃ kept tail, Retained D σ.store kept tail
  extended : Extends origin σ.store
  cached : ∀ base ∈ σ.appendBase, Cached D σ.store base

/-- The session works on the tail of a directory without interrupted event. -/
structure Loaded (D : Digests) (origin : Store) (base : AppendBase) (σ : Session) : Prop
    extends Sound D origin σ where
  complete : Retained D σ.store base.events none
  head : base.head = headOf D σ.store base.events

variable {origin : Store} {outcome : WriteOutcome} {input : EventInput} {owner : OwnerRecord}

theorem Sound.drop {σ : Session} (h : Sound D origin σ) : Sound D origin (dropBase σ) :=
  ⟨h.retained,h.extended,by simp [dropBase]⟩

/-- With or without its cached tail a session loads the same. -/
theorem loadAppendBase_eq (r : Retained D s kept tail) {cached : Option AppendBase}
    (c : ∀ base ∈ cached, Cached D s base) :
    loadAppendBase D ⟨s,cached⟩ = rescan D ⟨s,none⟩ := by
  cases cached with
  | none => rfl
  | some base => exact loadAppendBase_cached r (c base rfl)

theorem appendUnlocked_cached (r : Retained D s kept tail) {cached : Option AppendBase}
    (c : ∀ base ∈ cached, Cached D s base) :
    appendUnlocked D outcome input ⟨s,cached⟩ = appendUnlocked D outcome input ⟨s,none⟩ := by
  have none_cached : ∀ base ∈ (none : Option AppendBase), Cached D s base := by simp
  have same := (loadAppendBase_eq r c).trans (loadAppendBase_eq r none_cached).symm
  unfold appendUnlocked onFailure
  rw [bind_congr_run same]

theorem load_contract :
    Contract (Sound D origin) (loadAppendBase D) (Loaded D origin)
      (fun σ => Sound D origin (dropBase σ)) := by
  rintro ⟨s,cached⟩ ⟨⟨kept,tail,r⟩,extended,c⟩
  change Retained D s kept tail at r
  rw [loadAppendBase_eq r c]
  cases tail with
  | none =>
    rw [rescan_ok r.loads]
    refine ⟨fun base e => ?_,nofun⟩
    obtain rfl := Except.ok.inj e
    exact ⟨⟨⟨kept,none,r⟩,extended,fun base e => Option.some.inj e ▸ ⟨r.chain,rfl⟩⟩,r,rfl⟩
  | some event =>
    obtain ⟨message,refused⟩ := r.refuses none true
    rw [rescan_error refused]
    exact ⟨nofun,fun _ _ => ⟨⟨kept,some event,r⟩,extended,by simp [dropBase]⟩⟩

theorem publish_contract :
    Contract (fun σ => Loaded D origin base σ ∧ Follows D σ.store base.events event)
      (publishEvent D outcome base event) (fun _ => Sound D origin)
      (fun σ => Sound D origin (dropBase σ)) := by
  rintro ⟨s,cached⟩ ⟨loaded,follows⟩
  have complete : Retained D s base.events none := loaded.complete
  have published : onStore (writeImmutableJSON D outcome (.history event.sequence) (.event event))
      ⟨s,cached⟩ =
        ((immutableFile D outcome (.history event.sequence) (canonical (.event event)) s).1,
          ⟨(immutableFile D outcome (.history event.sequence) (canonical (.event event)) s).2,
            cached⟩) := rfl
  rcases immutableFile_cases D outcome (.history event.sequence) (canonical (.event event)) s with
    ⟨same,message,failed⟩ | ⟨fresh,visible,added,_⟩
  · rw [same, failed] at published
    rw [publishEvent, bind_of_error published]
    exact ⟨by rintro _ ⟨⟩,fun _ _ => loaded.toSound.drop⟩
  · rw [immutableFile_visible D fresh visible] at published
    have inserted : Extends s
        (s.insert ⟨.history event.sequence,canonical (.event event),linksAfter outcome⟩ fresh) :=
      insert_extends fresh trivial
    have extended := extends_trans loaded.extended inserted
    cases outcome with
    | failed => contradiction
    | linked =>
      rw [publishEvent, bind_of_error published]
      exact ⟨by rintro _ ⟨⟩,fun _ _ => ⟨⟨_,_,complete.interrupt follows fresh⟩,extended,by simp [dropBase]⟩⟩
    | unsynced =>
      rw [publishEvent, bind_of_error published]
      exact ⟨by rintro _ ⟨⟩,fun _ _ => ⟨⟨_,_,complete.accept follows fresh⟩,extended,by simp [dropBase]⟩⟩
    | durable =>
      have accepted := complete.accept follows fresh
      rw [publishEvent, bind_of_ok published]
      refine ⟨fun _ _ => ⟨⟨_,_,accepted⟩,extended,fun base' e => ?_⟩,by rintro _ ⟨⟩⟩
      obtain rfl := Option.some.inj e
      exact ⟨accepted.chain,(headOf_accept fresh).symm⟩

theorem append_contract :
    Contract (Sound D origin) (appendUnlocked D outcome input) (fun _ => Sound D origin)
      (Sound D origin) := by
  have validated (base : AppendBase) : Contract (Loaded D origin base)
      (reading (fun _ => validateHistoryEvent D (nextEvent D base input)))
      (fun _ σ => Loaded D origin base σ ∧
        validateHistoryEvent D (nextEvent D base input) = .ok ())
      (fun σ => Sound D origin (dropBase σ)) :=
    contract_reading (fun _ _ loaded document => ⟨loaded,document⟩)
      (fun _ loaded => loaded.toSound.drop)
  have bound (base : AppendBase) : Contract (fun σ => Loaded D origin base σ ∧
        validateHistoryEvent D (nextEvent D base input) = .ok ())
      (reading (fun σ =>
        validateEventBindings D σ.store (nextEvent D base input) base.events))
      (fun _ σ => Loaded D origin base σ ∧
        Follows D σ.store base.events (nextEvent D base input))
      (fun σ => Sound D origin (dropBase σ)) :=
    contract_reading
      (fun _ _ h bindings => ⟨h.1,h.2,rfl,h.1.head,bindings⟩)
      (fun _ h => h.1.toSound.drop)
  refine contract_onFailure (contract_bind load_contract (fun base => ?_)) (fun _ h => h)
  exact contract_bind (validated base) (fun _ => contract_bind (bound base)
    (fun _ => publish_contract))

end Calls

section Recovery

variable {origin : Store} {outcome : WriteOutcome} {owner : OwnerRecord} {α : Type}

/-- The directory is sound, and nothing that could be read before has changed. -/
def Held (D : Digests) (origin : Store) (s : Store) : Prop :=
  (∃ kept tail, Retained D s kept tail) ∧ Extends origin s

theorem onStore_keeps {x : Transaction Store α} (h : ∀ origin, Keeps (Held D origin) x) :
    Keeps (Sound D origin) (onStore x) := by
  intro σ sound
  obtain ⟨retained,extended⟩ := h σ.store σ.store ⟨sound.retained,extends_refl _⟩
  exact ⟨retained,extends_trans sound.extended extended,
    fun base cached => (sound.cached base cached).extends extended⟩

/-- A file outside the history directory leaves the directory as it is. -/
theorem immutableFile_keeps {path : Path} {bytes : Bytes}
    (outside : ∀ s, OutsideCommitted s path) (other : ∀ n, path ≠ .history n) :
    Keeps (Held D origin) (immutableFile D outcome path bytes) := by
  rintro s ⟨⟨kept,tail,r⟩,extended⟩
  rcases immutableFile_cases D outcome path bytes s with ⟨same,_⟩ | ⟨fresh,_,added,_⟩
  · rw [same]
    exact ⟨⟨kept,tail,r⟩,extended⟩
  · rw [added]
    have grown : Extends s (s.insert ⟨path,bytes,linksAfter outcome⟩ fresh) :=
      insert_extends fresh (outside s)
    refine ⟨⟨kept,tail,r.extends grown (fun n => ?_)⟩,extends_trans extended grown⟩
    rw [lookup_insert fresh, if_neg (other n).symm]

theorem synced_keeps {σ : Type} {invariant : σ → Prop} (result : α) :
    Keeps invariant (synced outcome result : Transaction σ α) := by
  unfold synced
  split
  · exact keeps_pure result
  · exact keeps_fail _

theorem preserveRecoveredOwner_keeps :
    Keeps (Held D origin) (preserveRecoveredOwner D outcome owner) := by
  refine keeps_bind (keeps_reading _) (fun _ => keeps_bind (keeps_reading _) (fun present => ?_))
  split
  · refine keeps_bind (keeps_reading _) (fun existing => ?_)
    split
    · exact synced_keeps _
    · exact keeps_fail _
  · exact immutableFile_keeps (fun _ => trivial) (fun _ => by simp)

theorem provenAlias_path {f : File} (h : provenAlias D owner f = .ok ()) :
    ∃ n, f.path = .history n := by
  simp only [provenAlias, bind_ok, exists_unit, require_ok] at h
  obtain ⟨_,event,_,_,_,at_⟩ := h
  exact ⟨_,at_⟩

theorem retireAlias_keeps (f : File) : Keeps (Held D origin) (retireAlias D outcome owner f) := by
  refine keeps_bind_reading (fun _ s proven held => ?_)
  obtain ⟨n,at_⟩ := provenAlias_path proven
  refine (?_ : Keeps (Held D origin) _) s held
  split
  · exact keeps_fail _
  · refine keeps_bind (keeps_modify ?_) (fun _ => synced_keeps _)
    rintro s ⟨⟨kept,tail,r⟩,extended⟩
    obtain ⟨kept',tail',_,r'⟩ := r.retire n
    rw [at_]
    exact ⟨⟨kept',tail',r'⟩,extends_trans extended (retire_extends s n)⟩

theorem retireRecoveredHistoryAliases_keeps :
    Keeps (Held D origin) (retireRecoveredHistoryAliases D outcome owner) :=
  keeps_bind (keeps_reading _) (fun _ =>
    keeps_bind (keeps_mapM (fun f _ => retireAlias_keeps f)) (fun _ => keeps_pure _))

theorem accountResult_keeps (preserved : FileRef) (pending : PendingResult) :
    Keeps (Sound D origin) (accountResult D outcome owner preserved pending) := by
  refine keeps_bind (keeps_reading _) (fun snapshot => ?_)
  split
  · split
    · exact synced_keeps _
    · exact keeps_fail _
  · exact append_contract.keeps

theorem accountPending_keeps (faults : Faults) :
    Keeps (Sound D origin) (accountPending D faults owner) :=
  keeps_bind (onStore_keeps (fun _ => preserveRecoveredOwner_keeps)) (fun preserved =>
    keeps_bind (onStore_keeps (fun _ => retireRecoveredHistoryAliases_keeps)) (fun _ =>
      keeps_bind (keeps_mapM (fun pending _ => accountResult_keeps preserved pending)) (fun _ =>
        keeps_bind (keeps_onFailure (keeps_reading _) (fun _ => Sound.drop)) (fun _ =>
          keeps_pure _))))

end Recovery

section Runs

/-- What holds of the files and of all sessions in every state of a run. -/
structure Invariant (D : Digests) (σ : State) : Prop where
  retained : ∃ kept tail, Retained D σ.store kept tail
  cached : ∀ session, ∀ base ∈ σ.bases session, Cached D σ.store base

theorem call_self {α : Type} {x : Transaction Session α} {σ : State} {session : ℕ} :
    (call σ session x).bases session = (x ⟨σ.store,σ.bases session⟩).2.appendBase :=
  Function.update_self ..

theorem call_other {α : Type} {x : Transaction Session α} {σ : State} {session other : ℕ}
    (ne : other ≠ session) : (call σ session x).bases other = σ.bases other :=
  Function.update_of_ne ne ..

theorem call_keeps {α : Type} {x : Transaction Session α} {σ : State} {session : ℕ}
    (h : Invariant D σ) (keeps : Keeps (Sound D σ.store) x) : Invariant D (call σ session x) := by
  have sound := keeps ⟨σ.store,σ.bases session⟩
    ⟨h.retained,extends_refl _,fun base => h.cached session base⟩
  refine ⟨sound.retained,fun other base cached => ?_⟩
  by_cases same : other = session
  · subst same
    rw [call_self] at cached
    exact sound.cached base cached
  · rw [call_other same] at cached
    exact (h.cached other base cached).extends sound.extended

theorem step_keeps {σ σ' : State} {label : Label} (h : Invariant D σ) (ok : Immutable σ label)
    (moved : step D σ label = some σ') : Invariant D σ' := by
  cases label with
  | appendHistory session outcome input =>
    obtain rfl := Option.some.inj moved
    exact call_keeps h append_contract.keeps
  | accountPending session faults owner =>
    obtain rfl := Option.some.inj moved
    exact call_keeps h (accountPending_keeps faults)
  | publish store =>
    obtain rfl := Option.some.inj moved
    obtain ⟨kept,tail,r⟩ := h.retained
    exact ⟨⟨kept,tail,r.extends ok.1 ok.2⟩,
      fun session base cached => (h.cached session base cached).extends ok.1⟩

theorem initial_keeps (D : Digests) : Invariant D initial :=
  ⟨⟨[],none,rfl,prefixwise_nil _,by simp⟩,by simp [initial]⟩

theorem reaches_keeps {σ : State} (h : TransitionRun.Reaches (step D) Immutable initial σ) :
    Invariant D σ :=
  h.invariant (initial_keeps D) (fun _ _ _ => step_keeps)

end Runs

section History

/-- The file of the event holds its number, the reference to its predecessor and its digest. -/
structure Linked (D : Digests) (s : Store) (before : List HistoryEvent) (event : HistoryEvent) :
    Prop where
  stored : ∃ spelling links, lookup s (.history event.sequence) =
    some ⟨.history event.sequence,⟨.event event,spelling⟩,links⟩
  sequence : event.sequence = before.length+1
  previous : event.previous = headOf D s before
  identity : event.eventId = D.historyEvent event.toUnsignedEvent

/-- An attempt has one execution event, and none after an event that settles it as a whole. -/
def ExecutionsDistinct (events : List HistoryEvent) : Prop :=
  ∀ b ∈ events, b.kind = .execution →
    ∀ a ∈ events, SameAttempt b.toEventInput a.toEventInput →
      (a.kind = .execution → a = b) ∧
      (a.kind = .indeterminate → a.claimId = none → b.sequence < a.sequence)

/-- What is said of a member comes after the passing execution of its attempt. -/
def MembersPreceded (events : List HistoryEvent) : Prop :=
  ∀ event ∈ events, event.kind = .observation ∨ event.kind = .indeterminate ∧ event.claimId.isSome →
    ∃ a ∈ events, a.sequence < event.sequence ∧ SameAttempt event.toEventInput a.toEventInput ∧
      a.kind = .execution ∧ a.result = .pass ∧ a.members = event.members

theorem chain_distinct (h : Chain D s kept) : ExecutionsDistinct kept := by
  intro b hb kb a ha same
  exact ⟨fun ka => execution_unique h ha hb ka kb ⟨same.1.symm,same.2.symm⟩,
    fun ka ca => execution_before_indeterminate h ha hb ka ca kb same⟩

theorem chain_preceded (h : Chain D s kept) : MembersPreceded kept := by
  intro event hm level
  have sooner : ∀ before after, kept = before ++ event :: after → ∀ a ∈ before,
      a ∈ kept ∧ a.sequence < event.sequence := by
    intro before after e a ha
    have inside : a ∈ kept := by simp [e, ha]
    exact ⟨inside,(numbered_of_before (chain_numbered h) e inside).mp ha⟩
  obtain ⟨before,after,e,accepted⟩ := chain_mem h hm
  rcases level with k | ⟨k,some⟩
  · obtain ⟨a,ha,same,ka,pass,members,_⟩ := (accepted_observation accepted k).actual
    obtain ⟨inside,earlier⟩ := sooner before after e a ha
    exact ⟨a,inside,earlier,same,ka,pass,members⟩
  · obtain ⟨a,ha,same,ka,pass,members⟩ := (accepted_indeterminate accepted k).actual some
    obtain ⟨inside,earlier⟩ := sooner before after e a ha
    exact ⟨a,inside,earlier,same,ka,pass,members⟩

theorem Retained.linked (r : Retained D s kept tail) :
    Prefixwise (Linked D s) (kept ++ tail.toList) := by
  have inside : Prefixwise (Linked D s) kept := by
    refine prefixwise_mono (fun before event accepted => ?_) r.chain
    obtain ⟨spelling,stored⟩ := accepted.stored
    exact ⟨⟨spelling,1,stored⟩,accepted.sequence,accepted.previous,
      document_digest accepted.document⟩
  cases tail with
  | none => simpa using inside
  | some event =>
    have cut := r.interrupted event rfl
    refine (prefixwise_concat _ _ _).mpr ⟨inside,⟨0,2,cut.stored⟩,cut.sequence,cut.previous,
      document_digest cut.document⟩

theorem Retained.facts (r : Retained D s kept tail) :
    ExecutionsDistinct (kept ++ tail.toList) ∧ MembersPreceded (kept ++ tail.toList) := by
  cases tail with
  | none => simpa using And.intro (chain_distinct r.chain) (chain_preceded r.chain)
  | some event => exact ⟨chain_distinct r.complete.chain,chain_preceded r.complete.chain⟩

theorem provenAlias_owned {owner : OwnerRecord} (cut : Interrupted D s kept event)
    (owns : OwnsAlias owner event) : provenAlias D owner (eventFile event 2) = .ok () := by
  simp only [provenAlias, bind_ok, exists_unit, require_ok]
  exact ⟨rfl,event,rfl,cut.document,⟨document_digest cut.document,owns⟩,rfl⟩

/-- The interrupted event is the only history file with a staging name. -/
theorem Retained.aliases (r : Retained D s kept (some event)) :
    s.files.filter isAlias = [eventFile event 2] := by
  have cut := (r.interrupted event rfl).stored
  have only : ∀ f, f ∈ s.files.filter isAlias ↔ f = eventFile event 2 := by
    intro f
    rw [List.mem_filter]
    constructor
    · rintro ⟨hf,named⟩
      unfold isAlias at named
      split at named
      · next n at_ =>
        have found := at_ ▸ lookup_of_mem hf
        by_cases e : event.sequence = n
        · rw [← e, cut] at found
          exact (Option.some.inj found).symm
        · have whole := r.settled found (fun other same => Option.some.inj same ▸ e)
          simp [whole] at named
      · simp at named
    · rintro rfl
      exact ⟨lookup_mem cut,by simp [isAlias, eventFile]⟩
  have distinct : (s.files.filter isAlias).Nodup := (List.Nodup.of_map _ s.distinct).filter _
  refine List.perm_singleton.mp ((List.perm_ext_iff_of_nodup distinct (List.nodup_singleton _)).mpr ?_)
  intro f
  rw [only, List.mem_singleton]

theorem retireAlias_run {owner : OwnerRecord} {outcome : WriteOutcome} {f : File}
    (proven : provenAlias D owner f = .ok ()) (past : outcome ≠ .failed) :
    (retireAlias D outcome owner f s).2 = s.retire f.path := by
  have accepted : reading (fun _ : Store => provenAlias D owner f) s = (.ok (),s) :=
    reading_of proven
  rw [retireAlias, bind_of_ok accepted, if_neg past]
  cases outcome <;> rfl

theorem retire_run {owner : OwnerRecord} {outcome : WriteOutcome}
    (r : Retained D s kept (some event)) (owns : OwnsAlias owner event)
    (past : outcome ≠ .failed) :
    (retireRecoveredHistoryAliases D outcome owner s).2 = s.retire (.history event.sequence) := by
  have listed : reading (fun s : Store => pure (s.files.filter isAlias)) s =
      (.ok [eventFile event 2],s) := by
    rw [reading, r.aliases]
    rfl
  have ran := retireAlias_run (s := s) (provenAlias_owned (r.interrupted event rfl) owns) past
  rw [retireRecoveredHistoryAliases, bind_of_ok listed, List.mapM_cons, List.mapM_nil]
  rcases one : retireAlias D outcome owner (eventFile event 2) s with ⟨_ | _,s'⟩
  · rw [one] at ran
    rw [bind_of_error (bind_of_error one)]
    exact ran
  · rw [one] at ran
    rw [bind_assoc, bind_of_ok one]
    exact ran

/-- Either a full scan accepts the directory, or the newest event still has its staging name.
Then every scan and every append is refused, until recovery of an owner that recorded the event
as pending removes the name. -/
def Readable (D : Digests) (σ : State) (events : List HistoryEvent) : Prop :=
  loadHistory D σ.store none true = .ok (snapshotOf D σ.store events) ∨
  ∃ event, events.getLast? = some event ∧
    lookup σ.store (.history event.sequence) = some (eventFile event 2) ∧
    (∀ captured allowUnaccounted, ∃ message,
      loadHistory D σ.store captured allowUnaccounted = .error message) ∧
    (∀ session outcome input, ∃ message,
      (appendUnlocked D outcome input ⟨σ.store,σ.bases session⟩).1 = .error message) ∧
    ∀ owner outcome, OwnsAlias owner event → outcome ≠ .failed →
      ∃ snapshot, snapshot.events = events ∧
        loadHistory D (retireRecoveredHistoryAliases D outcome owner σ.store).2 none true =
          .ok snapshot

theorem Retained.append_refused {outcome : WriteOutcome} {input : EventInput}
    (r : Retained D s kept (some event)) :
    ∃ message, (appendUnlocked D outcome input ⟨s,none⟩).1 = .error message := by
  obtain ⟨message,refused⟩ := r.refuses none true
  have stopped : loadAppendBase D ⟨s,none⟩ = (.error message,⟨s,none⟩) := rescan_error refused
  refine ⟨message,?_⟩
  rw [appendUnlocked, onFailure_of_error (bind_of_error stopped)]

theorem Invariant.readable {σ : State} (h : Invariant D σ) (r : Retained D σ.store kept tail) :
    Readable D σ (kept ++ tail.toList) := by
  cases tail with
  | none =>
    left
    simpa using r.loads
  | some event =>
    right
    refine ⟨event,by simp,(r.interrupted event rfl).stored,r.refuses,?_,?_⟩
    · intro session outcome input
      rw [appendUnlocked_cached r (h.cached session)]
      exact r.append_refused
    · intro owner outcome owns past
      rw [retire_run r owns past]
      exact ⟨_,rfl,r.complete.loads⟩

/-- In every run of appends and recoveries by any sessions, with calls cut short at any write: the
directory is a chain from one to `n`, an attempt has one execution event and none after it was
given up, members are judged after a passing execution, the directory can be scanned but for the
staging name of the newest event, and a cached tail changes no append. -/
theorem history_sound {σ : State}
    (h : TransitionRun.Reaches (step D) Immutable initial σ) :
    (∃ events, historyNames σ.store = List.range' 1 events.length ∧
      Prefixwise (Linked D σ.store) events ∧ ExecutionsDistinct events ∧
      MembersPreceded events ∧ Readable D σ events) ∧
    ∀ session outcome input,
      appendUnlocked D outcome input ⟨σ.store,σ.bases session⟩ =
        appendUnlocked D outcome input ⟨σ.store,none⟩ := by
  have invariant := reaches_keeps h
  obtain ⟨kept,tail,r⟩ := invariant.retained
  obtain ⟨distinct,preceded⟩ := r.facts
  exact ⟨⟨_,r.names,r.linked,distinct,preceded,invariant.readable r⟩,
    fun session _ _ => appendUnlocked_cached r (invariant.cached session)⟩

def sampleInput (attempt : UUID) : EventInput where
  kind := .execution
  executionKey := "key"
  attemptId := attempt
  members := [⟨"claim","slot","tool"⟩]
  execution := none
  claimId := none
  slotId := none
  observation := none
  indeterminateOwner := none
  result := .cancelled

def sampleOwner : OwnerRecord :=
  ⟨"owner","run",[],[⟨.execution,"key","b",[⟨"claim","slot","tool"⟩],none,none⟩],""⟩

/-- A second append is cut before its staging name is removed; recovery of its owner follows. -/
def sampleCut : List Label :=
  [.appendHistory 0 .durable (sampleInput "a"),.appendHistory 1 .linked (sampleInput "b")]

def sampleRun : List Label :=
  sampleCut ++ [.accountPending 2 ⟨.durable,.durable,fun _ => .durable⟩ sampleOwner]

theorem history_sound_sample :
    ∃ σ, TransitionRun.run (step CandidateSelection.sampleDigests) sampleRun initial = some σ ∧
      historyNames σ.store = [1,2] ∧
      (∃ events, historyNames σ.store = List.range' 1 events.length ∧
        Prefixwise (Linked CandidateSelection.sampleDigests σ.store) events ∧
        ExecutionsDistinct events ∧ MembersPreceded events ∧
        Readable CandidateSelection.sampleDigests σ events) := by
  have listed : (TransitionRun.run (step CandidateSelection.sampleDigests) sampleRun initial).map
      (fun σ => historyNames σ.store) = some [1,2] := by decide +kernel
  obtain ⟨σ,ran,names⟩ := Option.map_eq_some_iff.mp listed
  have meets : TransitionRun.Meets (step CandidateSelection.sampleDigests) Immutable sampleRun
      initial :=
    ⟨trivial,fun _ _ => ⟨trivial,fun _ _ => ⟨trivial,fun _ _ => trivial⟩⟩⟩
  exact ⟨σ,ran,names,(history_sound (TransitionRun.reaches_run .start meets ran)).1⟩

/-- Between the link and the removal of the staging name no scan accepts the directory. -/
theorem history_unreadable :
    ¬∀ σ, TransitionRun.Reaches (step CandidateSelection.sampleDigests) Immutable initial σ →
      ∃ snapshot, loadHistory CandidateSelection.sampleDigests σ.store none true = .ok snapshot := by
  intro claimed
  have refused : (TransitionRun.run (step CandidateSelection.sampleDigests) sampleCut initial).map
      (fun σ => (loadHistory CandidateSelection.sampleDigests σ.store none true).isOk) =
        some false := by decide +kernel
  obtain ⟨σ,ran,unread⟩ := Option.map_eq_some_iff.mp refused
  have meets : TransitionRun.Meets (step CandidateSelection.sampleDigests) Immutable sampleCut
      initial :=
    ⟨trivial,fun _ _ => ⟨trivial,fun _ _ => trivial⟩⟩
  obtain ⟨snapshot,loaded⟩ := claimed σ (TransitionRun.reaches_run .start meets ran)
  rw [loaded] at unread
  exact absurd unread (by simp [Except.isOk, Except.toBool])

end History

end HistoryAppend

end EvidenceV4
