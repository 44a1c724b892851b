import EvidenceV4.ManifestProtocol

/-!
# The record of a run

Seen from its lock, a run has at most one operation in progress. It begins on
what all earlier operations have left, and either takes place as a whole or is
given up. What holds of voices, outputs and attempts is kept by these moves as
long as no reset is given up that has moved an output.
-/

set_option autoImplicit false

namespace EvidenceV4

namespace RunManifest

open CheckerJson (PyString points)
open PythonData

section Names

variable {file other : PyString} {n k : ℕ}

def isDigit (c : ℕ) : Bool := 48 ≤ c && c ≤ 57

theorem number_eq (n : ℕ) : number n = (Nat.toDigits 10 n).map Char.toNat := by
  show (Nat.repr n).toList.map Char.toNat = _
  rw [Nat.repr_eq_ofList_toDigits, String.toList_ofList]

theorem number_digits (n : ℕ) : ∀ c ∈ number n, isDigit c = true := by
  intro c member
  rw [number_eq] at member
  obtain ⟨digit,known,rfl⟩ := List.mem_map.mp member
  have numeral := Nat.isDigit_of_mem_toDigits (by decide) (by decide) known
  simp only [Char.isDigit, Bool.and_eq_true, decide_eq_true_eq] at numeral
  simp only [isDigit, Bool.and_eq_true, decide_eq_true_eq]
  exact ⟨numeral.1,numeral.2⟩

/-- The value that decimal digits are read as. -/
def valueOf (digits : PyString) : ℕ := digits.foldl (fun value c => 10 * value + (c - 48)) 0

theorem valueOf_number (n : ℕ) : valueOf (number n) = n := by
  rw [number_eq]
  induction n using Nat.strong_induction_on with
  | _ n ih =>
    by_cases small : n < 10
    · rw [Nat.toDigits_of_lt_base small]
      simp [valueOf, Nat.toNat_digitChar_sub_48_of_lt_ten small]
    · have less : n / 10 < n := by omega
      have front := ih _ less
      rw [Nat.toDigits_of_base_le (by omega) (by omega), List.map_append]
      simp only [valueOf, List.foldl_append, List.map_cons, List.map_nil, List.foldl_cons,
        List.foldl_nil] at front ⊢
      rw [front, Nat.toNat_digitChar_sub_48_of_lt_ten (by omega)]
      omega

theorem number_injective (h : number n = number k) : n = k := by
  rw [← valueOf_number n, h, valueOf_number]

theorem number_ne_nil (n : ℕ) : number n ≠ [] := by
  rw [number_eq]
  intro empty
  exact Nat.toDigits_ne_nil (List.map_eq_nil_iff.mp empty)

theorem attemptFile_reverse (file : PyString) (n : ℕ) : (attemptFile file n).reverse =
    (number n).reverse ++ 116 :: ((points ".attemp").reverse ++ file.reverse) := by
  have letters : points ".attempt" = points ".attemp" ++ [116] := by decide +kernel
  simp [attemptFile, say, letters]

/-- The count of an attempt can be read off its name. -/
theorem attemptFile_injective (h : attemptFile file n = attemptFile other k) :
    file = other ∧ n = k := by
  have turned := congrArg List.reverse h
  rw [attemptFile_reverse, attemptFile_reverse] at turned
  have digits (m : ℕ) : ∀ c ∈ (number m).reverse, isDigit c = true :=
    fun c member => number_digits m c (List.mem_reverse.mp member)
  have counts := congrArg (List.takeWhile isDigit) turned
  rw [List.takeWhile_append_of_pos (digits n), List.takeWhile_append_of_pos (digits k),
    List.takeWhile_cons_of_neg (by decide), List.takeWhile_cons_of_neg (by decide),
    List.append_nil, List.append_nil, List.reverse_inj] at counts
  have rests := congrArg (List.dropWhile isDigit) turned
  rw [List.dropWhile_append_of_pos (digits n), List.dropWhile_append_of_pos (digits k),
    List.dropWhile_cons_of_neg (by decide), List.dropWhile_cons_of_neg (by decide),
    List.cons.injEq, List.append_right_inj, List.reverse_inj] at rests
  exact ⟨rests.2,number_injective counts⟩

theorem slug_ends (voiceId harness : PyString) : ∃ front, slugForVoice voiceId harness = front ++ [100] := by
  unfold slugForVoice
  dsimp only
  split
  · exact ⟨points "claude.m",by decide +kernel⟩
  · refine ⟨harness ++ [45] ++ voiceId.map (fun c => if c = 47 ∨ c = 58 then 45 else c) ++ points ".m",?_⟩
    have letters : points ".md" = points ".m" ++ [100] := by decide +kernel
    have dash : points "-" = [45] := by decide +kernel
    simp [say, letters, dash]

/-- No attempt has the name of an output. -/
theorem attemptFile_ne_slug {voiceId harness : PyString} :
    attemptFile file n ≠ slugForVoice voiceId harness := by
  intro same
  obtain ⟨front,ends⟩ := slug_ends voiceId harness
  have turned := congrArg List.reverse (same.trans ends)
  rw [attemptFile_reverse, List.reverse_append, List.reverse_singleton, List.singleton_append] at turned
  cases digits : (number n).reverse with
  | nil => exact number_ne_nil n (List.reverse_eq_nil_iff.mp digits)
  | cons c rest =>
    rw [digits, List.cons_append, List.cons.injEq] at turned
    have numeral := number_digits n c (by rw [← List.mem_reverse, digits]; exact List.mem_cons_self)
    rw [turned.1] at numeral
    exact absurd numeral (by decide)

end Names

section Entries

variable {manifest : Manifest} {commits : List Commit} {commit : Commit} {voice other : Voice}

@[simp] theorem applyTo_id : (applyTo commit voice).id = voice.id := by
  unfold applyTo Commit.update
  split
  · cases commit.op <;> rfl
  · rfl

@[simp] theorem applyTo_file : (applyTo commit voice).file = voice.file := by
  unfold applyTo Commit.update
  split
  · cases commit.op <;> rfl
  · rfl

theorem applyTo_other (different : voice.id ≠ commit.op.voice) : applyTo commit voice = voice :=
  if_neg different

theorem mem_apply : voice ∈ (apply manifest commit).voices ↔
    ∃ before ∈ manifest.voices, applyTo commit before = voice := List.mem_map

theorem applyAll_snoc : applyAll manifest (commits ++ [commit]) = apply (applyAll manifest commits) commit := by
  rw [applyAll, List.foldl_append]
  rfl

theorem apply_static : (apply manifest commit).voices.map (fun voice => (voice.id,voice.file)) =
    manifest.voices.map (fun voice => (voice.id,voice.file)) := by
  rw [apply, List.map_map]
  apply List.map_congr_left
  intro voice _
  simp

/-- Operations change neither the names nor the order of the voices. -/
theorem applyAll_static : (applyAll manifest commits).voices.map (fun voice => (voice.id,voice.file)) =
    manifest.voices.map (fun voice => (voice.id,voice.file)) := by
  induction commits generalizing manifest with
  | nil => rfl
  | cons commit rest ih => exact ih.trans apply_static

/-- Only a reset changes the history of a voice, and it adds to its end. -/
theorem applyTo_history : (applyTo commit voice).history =
    if commit.op = .reset voice.id then voice.history ++ [retained commit.time commit.moved voice]
    else voice.history := by
  unfold applyTo Commit.update
  cases kind : commit.op with
  | reset id =>
    by_cases same : voice.id = id
    · subst same
      simp [resetVoice, Op.voice]
    · have different : id ≠ voice.id := fun e => same e.symm
      simp [same, different, Op.voice]
  | complete id elapsed finishReason => by_cases same : voice.id = id <;> simp [same, completeVoice, Op.voice]
  | error id detail elapsed => by_cases same : voice.id = id <;> simp [same, errorVoice, Op.voice]

/-- A voice is complete after an operation that completes it, or one of another voice. -/
theorem applyTo_complete (h : (applyTo commit voice).status = .complete) :
    commit.op.completes voice.id = true ∨ voice.id ≠ commit.op.voice ∧ voice.status = .complete := by
  unfold applyTo Commit.update at h
  cases kind : commit.op with
  | complete id elapsed finishReason =>
    by_cases same : voice.id = id
    · exact .inl (by simp [Op.completes, same])
    · simp only [kind, Op.voice, if_neg same] at h
      exact .inr ⟨same,h⟩
  | error id detail elapsed =>
    by_cases same : voice.id = id
    · simp [kind, same, errorVoice, Op.voice] at h
    · simp only [kind, Op.voice, if_neg same] at h
      exact .inr ⟨same,h⟩
  | reset id =>
    by_cases same : voice.id = id
    · simp [kind, same, resetVoice, Op.voice] at h
    · simp only [kind, Op.voice, if_neg same] at h
      exact .inr ⟨same,h⟩

end Entries

section Moves

/-- A run directory as its lock shows it: the operations that took place, the outputs that were
moved aside, and the operation that has done all but its save. -/
structure Record where
  clock : ℕ
  outputs : Location → Option Output
  log : List (ℕ × Commit)
  asides : List (PyString × Output)
  pending : Option Commit

variable (setup : Setup)

def Record.current (record : Record) : Manifest :=
  applyAll setup.manifest (record.log.map Prod.snd)

def Record.voices (record : Record) : List Voice := (record.current setup).voices

/-- A reset of the voice has moved its output and has not been saved. -/
def Record.Moving (record : Record) (id : PyString) : Prop :=
  ∃ commit, record.pending = some commit ∧ commit.op = .reset id ∧ commit.moved = true

def Record.begin (record : Record) (op : Op) (moved : Bool) : Record :=
  { record with pending := some ⟨op,record.clock,moved⟩ }

def Record.put (record : Record) (file : PyString) (output : Option Output) : Record :=
  { record with outputs := Function.update record.outputs (setup.locate file) output }

def Record.setAside (record : Record) (aside : PyString) (output : Output) : Record :=
  { record.put setup aside (some output) with asides := record.asides ++ [(aside,output)] }

def Record.finish (record : Record) (p : ℕ) (commit : Commit) : Record :=
  { record with pending := none, log := record.log ++ [(p,commit)] }

/-- The output of a voice lies in its place and is not empty. -/
def Filled (record : Record) (voice : Voice) : Prop :=
  ∃ output, record.outputs (setup.locate voice.file) = some output ∧ output.content ≠ []

/-- The output of a voice, where there is one, is not older than a time. -/
def Since (record : Record) (voice : Voice) (time : ℕ) : Prop :=
  ∀ output, record.outputs (setup.locate voice.file) = some output → time ≤ output.mtime

/-- The moves of a run directory. -/
inductive Moves : Record → Record → Prop
  | stay (record : Record) : Moves record record
  | tick (record : Record) (nanoseconds : ℕ) :
    Moves record { record with clock := record.clock + nanoseconds }
  | deliver (record : Record) (voice : Voice) (content : PyString) : voice ∈ record.voices setup →
    voice.status ≠ .complete →
    (∀ commit, record.pending = some commit → commit.op.completes voice.id = false) →
    Moves record (record.put setup voice.file (some ⟨content,record.clock⟩))
  | begin (record : Record) (op : Op) : record.pending = none → (∀ id, op ≠ .reset id) →
    (∀ voice ∈ record.voices setup, op.completes voice.id = true → Filled setup record voice) →
    Moves record (record.begin op false)
  | reset (record : Record) (voice : Voice) (output : Output) : record.pending = none →
    voice ∈ record.voices setup → record.outputs (setup.locate voice.file) = some output →
    Moves record (((record.setAside setup (attemptFile voice.file (voice.history.length + 1)) output).put
      setup voice.file none).begin (.reset voice.id) true)
  | resetEmpty (record : Record) (voice : Voice) : record.pending = none →
    voice ∈ record.voices setup → record.outputs (setup.locate voice.file) = none →
    Moves record (record.begin (.reset voice.id) false)
  | finish (record : Record) (p : ℕ) (commit : Commit) : record.pending = some commit →
    Moves record (record.finish p commit)
  | abandon (record : Record) (commit : Commit) : record.pending = some commit →
    commit.moved = false → Moves record { record with pending := none }

end Moves

section Invariants

variable (setup : Setup)

/-- The names of outputs and attempts denote different files. -/
structure Apart : Prop where
  ids : (setup.manifest.voices.map Voice.id).Nodup
  files : ∀ v ∈ setup.manifest.voices, ∀ w ∈ setup.manifest.voices,
    setup.locate v.file = setup.locate w.file → v.id = w.id
  asides : ∀ v ∈ setup.manifest.voices, ∀ w ∈ setup.manifest.voices, ∀ n,
    setup.locate (attemptFile v.file n) ≠ setup.locate w.file
  attempts : ∀ v ∈ setup.manifest.voices, ∀ w ∈ setup.manifest.voices, ∀ n k,
    setup.locate (attemptFile v.file n) = setup.locate (attemptFile w.file k) → v.id = w.id ∧ n = k

structure Good (record : Record) : Prop where
  times : ∀ entry ∈ record.log, entry.2.time ≤ record.clock
  pendingTime : ∀ commit, record.pending = some commit → commit.time ≤ record.clock
  complete : ∀ v ∈ record.voices setup, v.status = .complete → record.Moving v.id ∨ Filled setup record v
  fresh : ∀ v ∈ record.voices setup, ∀ entry ∈ record.log, entry.2.op = .reset v.id →
    Since setup record v entry.2.time
  pendingComplete : ∀ v ∈ record.voices setup, ∀ commit, record.pending = some commit →
    commit.op.completes v.id = true → Filled setup record v
  pendingFresh : ∀ v ∈ record.voices setup, ∀ commit, record.pending = some commit →
    commit.op = .reset v.id → Since setup record v commit.time
  preserved : ∀ aside ∈ record.asides, record.outputs (setup.locate aside.1) = some aside.2
  named : ∀ aside ∈ record.asides, ∃ v ∈ record.voices setup, ∃ n, aside.1 = attemptFile v.file n ∧
    (n ≤ v.history.length ∨ n = v.history.length + 1 ∧ record.Moving v.id)
  distinct : (record.asides.map Prod.fst).Nodup
  kept : ∀ v ∈ record.voices setup, ∀ i attempt, v.history[i]? = some attempt →
    attempt.outputMovedTo ≠ none → ∃ output, (attemptFile v.file (i + 1),output) ∈ record.asides
  pendingKept : ∀ v ∈ record.voices setup, record.Moving v.id →
    ∃ output, (attemptFile v.file (v.history.length + 1),output) ∈ record.asides

end Invariants

end RunManifest

end EvidenceV4
