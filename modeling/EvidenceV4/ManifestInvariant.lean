import EvidenceV4.ManifestRecord

/-!
# What the moves of a run keep

An operation in progress changes no voice but its own, and no file but the
output and the next attempt of that voice. So a complete voice keeps its output,
and an output that was moved aside stays where it is.
-/

set_option autoImplicit false

namespace EvidenceV4

namespace RunManifest

open CheckerJson (PyString points)

variable {setup : Setup} {record : Record} {v w voice : Voice}

section Voices

theorem record_static (setup : Setup) (record : Record) : (record.voices setup).map (fun voice => (voice.id,voice.file)) =
    setup.manifest.voices.map (fun voice => (voice.id,voice.file)) :=
  applyAll_static

theorem mem_static (known : v ∈ record.voices setup) :
    ∃ w ∈ setup.manifest.voices, w.id = v.id ∧ w.file = v.file := by
  have listed : (v.id,v.file) ∈ (record.voices setup).map (fun voice => (voice.id,voice.file)) :=
    List.mem_map_of_mem known
  rw [record_static] at listed
  obtain ⟨w,member,same⟩ := List.mem_map.mp listed
  exact ⟨w,member,congrArg Prod.fst same,congrArg Prod.snd same⟩

variable (apart : Apart setup)

include apart

theorem voice_unique (first : v ∈ record.voices setup) (second : w ∈ record.voices setup)
    (same : v.id = w.id) : v = w := by
  have ids : ((record.voices setup).map Voice.id).Nodup := by
    have static : (record.voices setup).map Voice.id = setup.manifest.voices.map Voice.id := by
      simpa [Function.comp_def] using congrArg (List.map Prod.fst) (record_static setup record)
    rw [static]
    exact apart.ids
  exact List.inj_on_of_nodup_map ids first second same

theorem file_apart (first : v ∈ record.voices setup) (second : w ∈ record.voices setup)
    (same : setup.locate v.file = setup.locate w.file) : v = w := by
  obtain ⟨v',known,id,file⟩ := mem_static first
  obtain ⟨w',known',id',file'⟩ := mem_static second
  apply voice_unique apart first second
  rw [← id, ← id']
  exact apart.files v' known w' known' (by rw [file, file', same])

theorem aside_apart (first : v ∈ record.voices setup) (second : w ∈ record.voices setup) (n : ℕ) :
    setup.locate (attemptFile v.file n) ≠ setup.locate w.file := by
  obtain ⟨v',known,_,file⟩ := mem_static first
  obtain ⟨w',known',_,file'⟩ := mem_static second
  rw [← file, ← file']
  exact apart.asides v' known w' known' n

theorem attempt_apart (first : v ∈ record.voices setup) (second : w ∈ record.voices setup) {n k : ℕ}
    (same : setup.locate (attemptFile v.file n) = setup.locate (attemptFile w.file k)) :
    v = w ∧ n = k := by
  obtain ⟨v',known,id,file⟩ := mem_static first
  obtain ⟨w',known',id',file'⟩ := mem_static second
  obtain ⟨ids,counts⟩ := apart.attempts v' known w' known' n k (by rw [file, file', same])
  exact ⟨voice_unique apart first second (by rw [← id, ← id', ids]),counts⟩

end Voices

section Steps

variable (apart : Apart setup) (good : Good setup record)

theorem moving_free (free : record.pending = none) {id : PyString} : ¬ record.Moving id := by
  rintro ⟨commit,found,_⟩
  rw [free] at found
  exact absurd found (by simp)

theorem completes_voice {op : Op} {id : PyString} (h : op.completes id = true) : op.voice = id := by
  cases op with
  | complete voice elapsed finishReason => simpa [Op.completes, Op.voice] using h
  | _ => simp [Op.completes] at h

theorem reset_completes {id other : PyString} : (Op.reset id).completes other = false := rfl

theorem put_elsewhere {file : PyString} {location : Location} {output : Option Output}
    (different : location ≠ setup.locate file) :
    (record.put setup file output).outputs location = record.outputs location :=
  Function.update_of_ne different _ _

theorem put_here {file : PyString} {output : Option Output} :
    (record.put setup file output).outputs (setup.locate file) = output :=
  Function.update_self _ _ _

include good

theorem good_tick (nanoseconds : ℕ) :
    Good setup { record with clock := record.clock + nanoseconds } where
  times := fun entry known => (good.times entry known).trans (Nat.le_add_right _ _)
  pendingTime := fun commit found => (good.pendingTime commit found).trans (Nat.le_add_right _ _)
  complete := good.complete
  fresh := good.fresh
  pendingComplete := good.pendingComplete
  pendingFresh := good.pendingFresh
  preserved := good.preserved
  named := good.named
  distinct := good.distinct
  kept := good.kept
  pendingKept := good.pendingKept

theorem good_begin {op : Op} (free : record.pending = none) (kind : ∀ id, op ≠ .reset id)
    (ready : ∀ voice ∈ record.voices setup, op.completes voice.id = true → Filled setup record voice) :
    Good setup (record.begin op false) where
  times := good.times
  pendingTime := by
    rintro _ ⟨rfl⟩
    exact le_refl _
  complete := fun v known done => .inr ((good.complete v known done).resolve_left (moving_free free))
  fresh := good.fresh
  pendingComplete := by
    rintro v known _ ⟨rfl⟩ done
    exact ready v known done
  pendingFresh := by
    rintro v known _ ⟨rfl⟩ reset
    exact absurd reset (kind v.id)
  preserved := good.preserved
  named := by
    intro aside listed
    obtain ⟨v,known,n,name,low | ⟨_,moving⟩⟩ := good.named aside listed
    · exact ⟨v,known,n,name,.inl low⟩
    · exact absurd moving (moving_free free)
  distinct := good.distinct
  kept := good.kept
  pendingKept := by
    rintro v known ⟨_,⟨rfl⟩,reset,_⟩
    exact absurd reset (kind v.id)

theorem good_abandon {commit : Commit} (found : record.pending = some commit)
    (harmless : commit.moved = false) : Good setup { record with pending := none } := by
  have still {id : PyString} : ¬ record.Moving id := by
    rintro ⟨other,same,_,moved⟩
    rw [found, Option.some.injEq] at same
    rw [← same, harmless] at moved
    exact absurd moved (by decide)
  refine ⟨good.times,nofun,fun v known done => .inr ((good.complete v known done).resolve_left still),
    good.fresh,nofun,nofun,good.preserved,fun aside listed => ?_,good.distinct,good.kept,?_⟩
  · obtain ⟨v,known,n,name,low | ⟨_,moving⟩⟩ := good.named aside listed
    · exact ⟨v,known,n,name,.inl low⟩
    · exact absurd moving still
  · rintro v known ⟨_,free,_⟩
    exact absurd free (by simp)

include apart

theorem good_deliver {content : PyString} (known : voice ∈ record.voices setup)
    (unfinished : voice.status ≠ .complete)
    (idle : ∀ commit, record.pending = some commit → commit.op.completes voice.id = false) :
    Good setup (record.put setup voice.file (some ⟨content,record.clock⟩)) := by
  have elsewhere {v : Voice} (member : v ∈ record.voices setup) (other : v ≠ voice) :
      (record.put setup voice.file (some ⟨content,record.clock⟩)).outputs (setup.locate v.file) =
        record.outputs (setup.locate v.file) :=
    put_elsewhere (fun same => other (file_apart apart member known same))
  have filled {v : Voice} (member : v ∈ record.voices setup) (other : v ≠ voice)
      (old : Filled setup record v) :
      Filled setup (record.put setup voice.file (some ⟨content,record.clock⟩)) v := by
    rw [Filled, elsewhere member other]
    exact old
  have since {v : Voice} {time : ℕ} (member : v ∈ record.voices setup) (past : time ≤ record.clock)
      (old : Since setup record v time) :
      Since setup (record.put setup voice.file (some ⟨content,record.clock⟩)) v time := by
    intro output found
    by_cases same : v = voice
    · subst same
      rw [put_here, Option.some.injEq] at found
      rw [← found]
      exact past
    · rw [elsewhere member same] at found
      exact old output found
  refine ⟨good.times,good.pendingTime,fun v member done => ?_,fun v member entry logged reset => ?_,
    fun v member commit found done => ?_,fun v member commit found reset => ?_,
    fun aside listed => ?_,good.named,good.distinct,good.kept,good.pendingKept⟩
  · have other : v ≠ voice := fun same => unfinished (same ▸ done)
    exact (good.complete v member done).imp_right (filled member other)
  · exact since member (good.times entry logged) (good.fresh v member entry logged reset)
  · have other : v ≠ voice := by
      intro same
      subst same
      rw [idle commit found] at done
      exact absurd done (by decide)
    exact filled member other (good.pendingComplete v member commit found done)
  · exact since member (good.pendingTime commit found) (good.pendingFresh v member commit found reset)
  · obtain ⟨w,owner,n,name,_⟩ := good.named aside listed
    rw [put_elsewhere (name ▸ aside_apart apart owner known n)]
    exact good.preserved aside listed

theorem good_resetEmpty (free : record.pending = none) (known : voice ∈ record.voices setup)
    (empty : record.outputs (setup.locate voice.file) = none) :
    Good setup (record.begin (.reset voice.id) false) where
  times := good.times
  pendingTime := by
    rintro _ ⟨rfl⟩
    exact le_refl _
  complete := fun v member done => .inr ((good.complete v member done).resolve_left (moving_free free))
  fresh := good.fresh
  pendingComplete := by
    rintro v member _ ⟨rfl⟩ done
    exact absurd done (by simp [reset_completes])
  pendingFresh := by
    rintro v member _ ⟨rfl⟩ reset output found
    have same : voice = v := voice_unique apart known member (Op.reset.inj reset)
    rw [← same, show (record.begin (.reset voice.id) false).outputs = record.outputs from rfl, empty]
      at found
    exact absurd found (by simp)
  preserved := good.preserved
  named := by
    intro aside listed
    obtain ⟨v,member,n,name,low | ⟨_,moving⟩⟩ := good.named aside listed
    · exact ⟨v,member,n,name,.inl low⟩
    · exact absurd moving (moving_free free)
  distinct := good.distinct
  kept := good.kept
  pendingKept := by
    rintro v member ⟨_,⟨rfl⟩,_,moved⟩
    exact absurd moved (by simp)

/-- An output that a reset moves: its place is empty, and its name is new. -/
theorem good_reset {output : Output} (free : record.pending = none)
    (known : voice ∈ record.voices setup)
    (there : record.outputs (setup.locate voice.file) = some output) :
    Good setup (((record.setAside setup (attemptFile voice.file (voice.history.length + 1)) output).put
      setup voice.file none).begin (.reset voice.id) true) := by
  have unmoved {id : PyString} : ¬ record.Moving id := moving_free free
  have still {v : Voice} (member : v ∈ record.voices setup) (other : v ≠ voice) :
      (((record.setAside setup (attemptFile voice.file (voice.history.length + 1)) output).put
        setup voice.file none).begin (.reset voice.id) true).outputs (setup.locate v.file) =
        record.outputs (setup.locate v.file) := by
    have place : setup.locate v.file ≠ setup.locate voice.file :=
      fun same => other (file_apart apart member known same)
    exact (put_elsewhere place).trans
      (put_elsewhere (fun same => aside_apart apart known member _ same.symm))
  have gone : (((record.setAside setup (attemptFile voice.file (voice.history.length + 1)) output).put
      setup voice.file none).begin (.reset voice.id) true).outputs (setup.locate voice.file) = none :=
    put_here
  have aside (location : Location) (place : location ≠ setup.locate voice.file)
      (name : location ≠ setup.locate (attemptFile voice.file (voice.history.length + 1))) :
      (((record.setAside setup (attemptFile voice.file (voice.history.length + 1)) output).put
        setup voice.file none).begin (.reset voice.id) true).outputs location = record.outputs location :=
    (put_elsewhere place).trans (put_elsewhere name)
  have fresh : ∀ old ∈ record.asides,
      setup.locate old.1 ≠ setup.locate (attemptFile voice.file (voice.history.length + 1)) := by
    intro old listed same
    obtain ⟨w,owner,n,name,low | ⟨_,moving⟩⟩ := good.named old listed
    · rw [name] at same
      obtain ⟨rfl,count⟩ := attempt_apart apart owner known same
      omega
    · exact unmoved moving
  refine ⟨good.times,?_,fun v member done => ?_,fun v member entry logged reset => ?_,
    fun v member commit found done => ?_,fun v member commit found reset => ?_,fun old listed => ?_,
    fun old listed => ?_,?_,fun v member i attempt recorded moved => ?_,fun v member moving => ?_⟩
  · rintro _ ⟨rfl⟩
    exact le_refl _
  · by_cases same : v = voice
    · exact .inl ⟨_,rfl,by rw [same],rfl⟩
    · right
      rw [Filled, still member same]
      exact (good.complete v member done).resolve_left unmoved
  · intro found read
    by_cases same : v = voice
    · subst same
      rw [gone] at read
      exact absurd read (by simp)
    · rw [still member same] at read
      exact good.fresh v member entry logged reset found read
  · cases found
    exact absurd done (by simp [reset_completes])
  · intro found' read
    cases found
    have same : voice = v := voice_unique apart known member (Op.reset.inj reset)
    rw [← same, gone] at read
    exact absurd read (by simp)
  · rcases List.mem_append.mp listed with earlier | now
    · obtain ⟨w,owner,n,name,_⟩ := good.named old earlier
      rw [aside _ (name ▸ aside_apart apart owner known n) (fresh old earlier)]
      exact good.preserved old earlier
    · rw [List.mem_singleton.mp now]
      exact (put_elsewhere (aside_apart apart known known _)).trans put_here
  · rcases List.mem_append.mp listed with earlier | now
    · obtain ⟨w,owner,n,name,low | ⟨_,moving⟩⟩ := good.named old earlier
      · exact ⟨w,owner,n,name,.inl low⟩
      · exact absurd moving unmoved
    · rw [List.mem_singleton.mp now]
      exact ⟨voice,known,_,rfl,.inr ⟨rfl,_,rfl,rfl,rfl⟩⟩
  · show ((record.asides ++ [(_,output)]).map Prod.fst).Nodup
    rw [List.map_append, List.nodup_append]
    refine ⟨good.distinct,List.nodup_singleton _,fun name earlier other now same => ?_⟩
    obtain ⟨old,listed,rfl⟩ := List.mem_map.mp earlier
    rw [List.map_singleton, List.mem_singleton] at now
    exact fresh old listed (by rw [same, now])
  · obtain ⟨saved,listed⟩ := good.kept v member i attempt recorded moved
    exact ⟨saved,List.mem_append_left _ listed⟩
  · obtain ⟨_,found,reset,_⟩ := moving
    cases found
    have same : voice = v := voice_unique apart known member (Op.reset.inj reset)
    exact ⟨output,List.mem_append_right _ (by rw [same]; exact List.mem_singleton_self _)⟩

end Steps

section Finishes

variable {p : ℕ} {commit : Commit}

theorem finish_current : (record.finish p commit).current setup = apply (record.current setup) commit := by
  rw [Record.current, Record.finish, List.map_append, List.map_singleton, applyAll_snoc, Record.current]

theorem mem_finish : w ∈ (record.finish p commit).voices setup ↔
    ∃ v ∈ record.voices setup, applyTo commit v = w := by
  rw [Record.voices, finish_current, mem_apply, Record.voices]

/-- A history that is recorded anew is the old one, or has the attempt that a reset retains. -/
theorem applyTo_attempt {i : ℕ} {attempt : Attempt}
    (found : (applyTo commit voice).history[i]? = some attempt) :
    voice.history[i]? = some attempt ∨ commit.op = .reset voice.id ∧ i = voice.history.length ∧
      attempt = retained commit.time commit.moved voice := by
  rw [applyTo_history] at found
  split at found
  · rename_i reset
    rcases Nat.lt_trichotomy i voice.history.length with less | same | more
    · rw [List.getElem?_append_left less] at found
      exact .inl found
    · rw [same, List.getElem?_append_right (le_refl _), Nat.sub_self] at found
      exact .inr ⟨reset,same,by simpa using found.symm⟩
    · rw [List.getElem?_eq_none] at found
      · exact absurd found (by simp)
      · rw [List.length_append, List.length_singleton]
        omega
  · exact .inl found

theorem applyTo_history_le : voice.history.length ≤ (applyTo commit voice).history.length := by
  rw [applyTo_history]
  split
  · rw [List.length_append]
    omega
  · exact le_refl _

theorem good_finish (good : Good setup record) (found : record.pending = some commit) :
    Good setup (record.finish p commit) where
  times := by
    intro entry listed
    rcases List.mem_append.mp listed with earlier | now
    · exact good.times entry earlier
    · rw [List.mem_singleton.mp now]
      exact good.pendingTime commit found
  pendingTime := nofun
  complete := by
    intro w member done
    obtain ⟨v,known,rfl⟩ := mem_finish.mp member
    right
    rw [Filled, applyTo_file]
    rcases applyTo_complete done with completes | ⟨other,before⟩
    · exact good.pendingComplete v known commit found completes
    · rcases good.complete v known before with ⟨same,again,reset,_⟩ | filled
      · rw [found, Option.some.injEq] at again
        rw [again, reset] at other
        exact absurd rfl other
      · exact filled
  fresh := by
    intro w member entry listed reset
    obtain ⟨v,known,rfl⟩ := mem_finish.mp member
    rw [applyTo_id] at reset
    rw [Since, applyTo_file]
    rcases List.mem_append.mp listed with earlier | now
    · exact good.fresh v known entry earlier reset
    · rw [List.mem_singleton.mp now] at reset ⊢
      exact good.pendingFresh v known commit found reset
  pendingComplete := nofun
  pendingFresh := nofun
  preserved := good.preserved
  named := by
    intro aside listed
    obtain ⟨v,known,n,name,low | ⟨last,other,same,reset,_⟩⟩ := good.named aside listed
    · exact ⟨_,mem_finish.mpr ⟨v,known,rfl⟩,n,by rw [applyTo_file, name],
        .inl (low.trans applyTo_history_le)⟩
    · rw [found, Option.some.injEq] at same
      refine ⟨_,mem_finish.mpr ⟨v,known,rfl⟩,n,by rw [applyTo_file, name],.inl ?_⟩
      rw [applyTo_history, if_pos (by rw [same, reset]), List.length_append, List.length_singleton, last]
  distinct := good.distinct
  kept := by
    intro w member i attempt recorded moved
    obtain ⟨v,known,rfl⟩ := mem_finish.mp member
    rw [applyTo_file]
    rcases applyTo_attempt recorded with earlier | ⟨reset,last,rfl⟩
    · exact good.kept v known i attempt earlier moved
    · have aside : commit.moved = true := by
        by_contra unmoved
        exact moved (by simp [retained, unmoved])
      rw [last]
      exact good.pendingKept v known ⟨commit,found,reset,aside⟩
  pendingKept := by
    rintro w member ⟨_,free,_⟩
    exact absurd free (by simp [Record.finish])

/-- Every move keeps what holds of the outputs and the attempts of a run. -/
theorem good_moves {record' : Record} (apart : Apart setup) (good : Good setup record)
    (moves : Moves setup record record') : Good setup record' := by
  cases moves with
  | stay => exact good
  | tick nanoseconds => exact good_tick good nanoseconds
  | deliver voice content known unfinished idle => exact good_deliver apart good known unfinished idle
  | begin op free kind ready => exact good_begin good free kind ready
  | reset voice output free known there => exact good_reset apart good free known there
  | resetEmpty voice free known empty => exact good_resetEmpty apart good free known empty
  | finish p commit found => exact good_finish good found
  | abandon commit found harmless => exact good_abandon good found harmless

end Finishes

end RunManifest

end EvidenceV4
