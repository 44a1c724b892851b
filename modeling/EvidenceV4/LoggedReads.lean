import EvidenceV4.CheckedExcept
import Mathlib.Data.List.Basic

/-!
# Readings of a byte string

A reading is a computation that asks for ranges of a file of known length. It
keeps the ranges that it has asked the file for, also where it fails later. The
rules give the result of a composed reading and that all its ranges lie within
the file. Numbers are read from bytes in either order.
-/

set_option autoImplicit false

namespace LoggedReads

open CheckedExcept

section Bytes

def slice (bytes : List UInt8) (offset width : ℕ) : List UInt8 := (bytes.drop offset).take width

/-- The value of bytes, the lowest byte first or last. -/
def number (little : Bool) (bytes : List UInt8) : ℕ :=
  (if little then bytes.reverse else bytes).foldl (fun n b => 256 * n + b.toNat) 0

variable {bytes front back : List UInt8} {offset width start size : ℕ}

@[simp] theorem slice_zero : slice bytes offset 0 = [] := by simp [slice]

theorem length_slice (within : offset + width ≤ bytes.length) :
    (slice bytes offset width).length = width := by
  simp only [slice, List.length_take, List.length_drop]
  omega

theorem slice_front (within : offset + width ≤ front.length) :
    slice (front ++ back) offset width = slice front offset width := by
  rw [slice, slice, List.drop_append_of_le_length (by omega), List.take_append_of_le_length]
  simp only [List.length_drop]
  omega

theorem slice_back : slice (front ++ back) (front.length + offset) width =
    slice back offset width := by
  rw [slice, slice, ← List.drop_drop, List.drop_left]

/-- A slice of a slice is a slice of the whole. -/
theorem slice_slice (within : offset + width ≤ size) :
    slice (slice bytes start size) offset width = slice bytes (start + offset) width := by
  simp only [slice, List.drop_take, List.take_take, List.drop_drop]
  congr 1
  omega

theorem slice_split (first second : ℕ) :
    slice bytes offset (first + second) =
      slice bytes offset first ++ slice bytes (offset + first) second := by
  simp only [slice, List.take_add, List.drop_drop]

theorem slice_replicate {n : ℕ} (b : UInt8) (within : offset + width ≤ n) :
    slice (List.replicate n b) offset width = List.replicate width b := by
  simp only [slice, List.drop_replicate, List.take_replicate]
  congr 1
  omega

theorem number_zeros (little : Bool) (n : ℕ) : number little (List.replicate n 0) = 0 := by
  have run : ∀ k, (List.replicate k (0 : UInt8)).foldl (fun n b => 256 * n + b.toNat) 0 = 0 := by
    intro k
    induction k with
    | zero => rfl
    | succ k ih => simpa [List.replicate_succ] using ih
  cases little <;> simp [number, run]

end Bytes

section Readings

/-- The ranges asked for, and the result. -/
structure Reading (ε α : Type) where
  log : List (ℕ × ℕ)
  result : Except ε α

variable {ε α β σ : Type}

instance : Monad (Reading ε) where
  pure a := ⟨[],pure a⟩
  bind x f :=
    match x.result with
    | .ok a => ⟨x.log ++ (f a).log,(f a).result⟩
    | .error e => ⟨x.log,.error e⟩

def fail (e : ε) : Reading ε α := ⟨[],throw e⟩

/-- A computation that asks for nothing. -/
def settle (x : Except ε α) : Reading ε α := ⟨[],x⟩

/-- A range of the file, or a failure before anything is asked for. -/
def readAt (file : List UInt8) (permitted : Bool) (escape : ε) (offset length : ℕ) :
    Reading ε (List UInt8) :=
  if permitted ∧ offset + length ≤ file.length then
    ⟨[(offset,length)],pure (slice file offset length)⟩
  else fail escape

@[simp] theorem pure_result (a : α) : (pure a : Reading ε α).result = .ok a := rfl

@[simp] theorem settle_result (x : Except ε α) : (settle x).result = x := rfl

@[simp] theorem fail_result (e : ε) : (fail e : Reading ε α).result = .error e := rfl

theorem bind_result (x : Reading ε α) (f : α → Reading ε β) :
    (x >>= f).result = x.result >>= fun a => (f a).result := by
  show (match x.result with
    | .ok a => (⟨x.log ++ (f a).log,(f a).result⟩ : Reading ε β)
    | .error e => ⟨x.log,.error e⟩).result = _
  cases x.result with
  | ok a => rfl
  | error e => rfl

theorem read_bind {x : Reading ε α} {a : α} (known : x.result = .ok a) (f : α → Reading ε β) :
    (x >>= f).result = (f a).result := by
  rw [bind_result, known]
  rfl

theorem readAt_result {file : List UInt8} {escape : ε} {offset length : ℕ} {permitted : Bool}
    (allowed : permitted = true) (within : offset + length ≤ file.length) :
    (readAt file permitted escape offset length).result = .ok (slice file offset length) := by
  rw [readAt, if_pos ⟨allowed,within⟩]
  rfl

theorem foldlM_result {f : σ → α → Reading ε σ} {xs : List α} {s : σ} :
    (xs.foldlM f s).result = xs.foldlM (fun s x => (f s x).result) s := by
  induction xs generalizing s with
  | nil => rfl
  | cons x xs ih =>
    rw [List.foldlM_cons, List.foldlM_cons, bind_result]
    exact bind_congr_ok rfl fun _ _ => ih

/-- Every range that is asked for lies within the file. -/
def Bounded (size : ℕ) (x : Reading ε α) : Prop := ∀ range ∈ x.log, range.1 + range.2 ≤ size

variable {size : ℕ}

theorem bounded_pure (a : α) : Bounded size (pure a : Reading ε α) := nofun

theorem bounded_fail (e : ε) : Bounded size (fail e : Reading ε α) := nofun

theorem bounded_settle (x : Except ε α) : Bounded size (settle x) := nofun

theorem bounded_ite {c : Prop} [Decidable c] {x y : Reading ε α} (first : Bounded size x)
    (second : Bounded size y) : Bounded size (if c then x else y) := by
  split
  · exact first
  · exact second

theorem bounded_readAt (file : List UInt8) (permitted : Bool) (escape : ε) (offset length : ℕ) :
    Bounded file.length (readAt file permitted escape offset length) := by
  rw [readAt]
  split_ifs with within
  · intro range member
    rw [List.mem_singleton.mp member]
    exact within.2
  · exact bounded_fail escape

theorem bounded_bind {x : Reading ε α} {f : α → Reading ε β} (first : Bounded size x)
    (second : ∀ a, Bounded size (f a)) : Bounded size (x >>= f) := by
  show Bounded size (match x.result with
    | .ok a => ⟨x.log ++ (f a).log,(f a).result⟩
    | .error e => ⟨x.log,.error e⟩)
  cases x.result with
  | error e => exact first
  | ok a =>
    intro range member
    rcases List.mem_append.mp member with member | member
    · exact first range member
    · exact second a range member

theorem bounded_foldlM {f : σ → α → Reading ε σ} {xs : List α} {s : σ}
    (each : ∀ s a, Bounded size (f s a)) : Bounded size (xs.foldlM f s) := by
  induction xs generalizing s with
  | nil => exact bounded_pure s
  | cons x xs ih => exact bounded_bind (each s x) (fun _ => ih)

/-- The results of a reading, one after another. -/
def each (f : α → Reading ε β) (xs : List α) : Reading ε (List β) :=
  xs.foldlM (fun done x => do
    let y ← f x
    pure (done ++ [y])) []

theorem bounded_each {f : α → Reading ε β} {xs : List α} (bounded : ∀ a, Bounded size (f a)) :
    Bounded size (each f xs) :=
  bounded_foldlM fun _ x => bounded_bind (bounded x) fun _ => bounded_pure _

theorem each_result {f : α → Reading ε β} {xs : List α} {ys : List β}
    (read : List.Forall₂ (fun x y => (f x).result = .ok y) xs ys) : (each f xs).result = .ok ys := by
  have run : ∀ done, (xs.foldlM (fun done x => do
      let y ← f x
      pure (done ++ [y])) done : Reading ε (List β)).result = .ok (done ++ ys) := by
    induction read with
    | nil => simp
    | cons first _ ih =>
      intro done
      rw [List.foldlM_cons, bind_result, read_bind first]
      show (Except.bind (.ok _) _) = _
      exact (ih _).trans (by simp)
  exact run []

end Readings

end LoggedReads
