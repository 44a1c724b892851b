import EvidenceV4.EvidenceArtifact
import EvidenceV4.Utf16

/-!
# Strings of code units in a file

A string of code units may hold half of a surrogate pair. Written to a file it
keeps its characters, and each half that stands alone is replaced. Decoding the
bytes gives back what was written, so that a part of the string is found in the
file exactly when it holds no such half.
-/

set_option autoImplicit false

namespace EvidenceV4

namespace ScalarText

open EvidenceArtifact
open JsonText (CodeUnit isHigh isLow isSurrogate pairPoint)

abbrev JsString := List CodeUnit

/-- The code points of a string; a half that stands alone is one of them. -/
def unitPoints : JsString → List ℕ
  | [] => []
  | [u] => [u.val]
  | u :: l :: rest =>
    if isHigh u && isLow l then pairPoint u l :: unitPoints rest else u.val :: unitPoints (l :: rest)

def scalar (p : ℕ) : ℕ := if isSurrogate p then replacement else p

/-- The characters that a file keeps of a string. -/
def scalars (s : JsString) : List ℕ := (unitPoints s).map scalar

def encodePoint (p : ℕ) : List ℕ :=
  if p < 0x80 then [p]
  else if p < 0x800 then [0xc0 + p/64,0x80 + p%64]
  else if p < 0x10000 then [0xe0 + p/4096,0x80 + p/64%64,0x80 + p%64]
  else [0xf0 + p/262144,0x80 + p/4096%64,0x80 + p/64%64,0x80 + p%64]

def encode (ps : List ℕ) : List UInt8 := (ps.flatMap encodePoint).map UInt8.ofNat

/-- The bytes that are written for a string. -/
def fileBytes (s : JsString) : List UInt8 := encode (scalars s)

section Points

theorem unitPoints_cons {u : CodeUnit} {s : JsString}
    (apart : isHigh u = true → ∀ l ∈ s.head?, isLow l = false) :
    unitPoints (u :: s) = u.val :: unitPoints s := by
  cases s with
  | nil => rfl
  | cons l rest =>
    have unpaired : (isHigh u && isLow l) = false := by
      cases high : isHigh u with
      | false => rfl
      | true => exact apart high l rfl
    rw [unitPoints, unpaired]
    rfl

/-- No pair spans the two parts. -/
def Apart (a b : JsString) : Prop :=
  ∀ u ∈ a.getLast?, isHigh u = true → ∀ l ∈ b.head?, isLow l = false

theorem unitPoints_append {a b : JsString} (apart : Apart a b) :
    unitPoints (a ++ b) = unitPoints a ++ unitPoints b := by
  induction a using unitPoints.induct with
  | case1 => rfl
  | case2 u =>
    have single : unitPoints [u] = [u.val] := rfl
    rw [single, List.singleton_append, List.singleton_append]
    exact unitPoints_cons (apart u rfl)
  | case3 u l rest pair ih =>
    have rest' : Apart rest b := by
      intro v last
      apply apart v
      rw [List.getLast?_cons_cons]
      cases rest with
      | nil => cases last
      | cons w rest => rwa [List.getLast?_cons_cons]
    rw [List.cons_append, List.cons_append, unitPoints, if_pos pair, ih rest', unitPoints,
      if_pos pair, List.cons_append]
  | case4 u l rest unpaired ih =>
    have rest' : Apart (l :: rest) b := by
      intro v last
      apply apart v
      rwa [List.getLast?_cons_cons]
    have later := ih rest'
    rw [List.cons_append] at later
    rw [List.cons_append, List.cons_append, unitPoints, if_neg unpaired, later, unitPoints,
      if_neg unpaired, List.cons_append]

theorem scalars_append {a b : JsString} (apart : Apart a b) :
    scalars (a ++ b) = scalars a ++ scalars b := by
  simp [scalars, unitPoints_append apart]

theorem pairPoint_valid {u l : CodeUnit} (pair : (isHigh u && isLow l) = true) :
    pairPoint u l < 0x110000 := by
  simp only [isHigh, isLow, Bool.and_eq_true, decide_eq_true_eq] at pair
  unfold pairPoint
  omega

theorem mem_unitPoints_valid {s : JsString} {p : ℕ} (member : p ∈ unitPoints s) : p < 0x110000 := by
  induction s using unitPoints.induct with
  | case1 => cases member
  | case2 u =>
    rw [List.mem_singleton.mp member]
    omega
  | case3 u l rest pair ih =>
    rw [unitPoints, if_pos pair] at member
    rcases List.mem_cons.mp member with same | member
    · rw [same]
      exact pairPoint_valid pair
    · exact ih member
  | case4 u l rest unpaired ih =>
    rw [unitPoints, if_neg unpaired] at member
    rcases List.mem_cons.mp member with rfl | member
    · omega
    · exact ih member

/-- A character: a code point that is no half of a pair. -/
def IsScalar (p : ℕ) : Prop := p < 0x110000 ∧ isSurrogate p = false

theorem scalar_isScalar {p : ℕ} (valid : p < 0x110000) : IsScalar (scalar p) := by
  unfold scalar
  cases half : isSurrogate p with
  | true =>
    rw [if_pos rfl]
    exact ⟨by decide,by decide⟩
  | false => exact ⟨valid,half⟩

theorem mem_scalars {s : JsString} {p : ℕ} (member : p ∈ scalars s) : IsScalar p := by
  obtain ⟨q,inside,rfl⟩ := List.mem_map.mp member
  exact scalar_isScalar (mem_unitPoints_valid inside)

end Points

section Bytes

theorem payload_add (n : ℕ) : payload (0x80 + n) = n := Nat.add_sub_cancel_left _ _

theorem decodePoint_two {p : ℕ} (low : 0x80 ≤ p) (high : p < 0x800) (rest : List ℕ) :
    decodePoint (0xc0 + p/64) ((0x80 + p%64) :: rest) = (p,rest) := by
  have lead : ¬ 0xc0 + p/64 < 0x80 := by omega
  have range : 0xc2 ≤ 0xc0 + p/64 ∧ 0xc0 + p/64 ≤ 0xdf := by omega
  have tail : continues (0x80 + p%64) = true := by
    simp only [continues, Bool.and_eq_true, decide_eq_true_eq]
    omega
  have value : (0xc0 + p/64 - 0xc0)*64 + payload (0x80 + p%64) = p := by
    simp only [payload_add, Nat.add_sub_cancel_left]
    omega
  simp only [decodePoint, if_neg lead, if_pos range, decodeThird, if_pos tail, value]

theorem decodePoint_three {p : ℕ} (low : 0x800 ≤ p) (high : p < 0x10000)
    (whole : p < 0xd800 ∨ 0xdfff < p) (rest : List ℕ) :
    decodePoint (0xe0 + p/4096) ((0x80 + p/64%64) :: (0x80 + p%64) :: rest) = (p,rest) := by
  have lead : ¬ 0xe0 + p/4096 < 0x80 := by omega
  have range₂ : ¬ (0xc2 ≤ 0xe0 + p/4096 ∧ 0xe0 + p/4096 ≤ 0xdf) := by omega
  have range : 0xe0 ≤ 0xe0 + p/4096 ∧ 0xe0 + p/4096 ≤ 0xef := by omega
  have second : continuesLead (0xe0 + p/4096) (0x80 + p/64%64) = true := by
    simp only [continuesLead, continues, Bool.and_eq_true, Bool.or_eq_true, decide_eq_true_eq,
      bne_iff_ne]
    omega
  have third : continues (0x80 + p%64) = true := by
    simp only [continues, Bool.and_eq_true, decide_eq_true_eq]
    omega
  have value : ((0xe0 + p/4096 - 0xe0)*64 + payload (0x80 + p/64%64))*64 + payload (0x80 + p%64) =
      p := by
    simp only [payload_add, Nat.add_sub_cancel_left]
    omega
  simp only [decodePoint, if_neg lead, if_neg range₂, if_pos range, decodeSecond, if_pos second,
    decodeThird, if_pos third, value]

theorem decodePoint_four {p : ℕ} (low : 0x10000 ≤ p) (high : p < 0x110000) (rest : List ℕ) :
    decodePoint (0xf0 + p/262144)
      ((0x80 + p/4096%64) :: (0x80 + p/64%64) :: (0x80 + p%64) :: rest) = (p,rest) := by
  have lead : ¬ 0xf0 + p/262144 < 0x80 := by omega
  have range₂ : ¬ (0xc2 ≤ 0xf0 + p/262144 ∧ 0xf0 + p/262144 ≤ 0xdf) := by omega
  have range₃ : ¬ (0xe0 ≤ 0xf0 + p/262144 ∧ 0xf0 + p/262144 ≤ 0xef) := by omega
  have range : 0xf0 ≤ 0xf0 + p/262144 ∧ 0xf0 + p/262144 ≤ 0xf4 := by omega
  have second : continuesLead (0xf0 + p/262144) (0x80 + p/4096%64) = true := by
    simp only [continuesLead, continues, Bool.and_eq_true, Bool.or_eq_true, decide_eq_true_eq,
      bne_iff_ne]
    omega
  have third : continues (0x80 + p/64%64) = true := by
    simp only [continues, Bool.and_eq_true, decide_eq_true_eq]
    omega
  have fourth : continues (0x80 + p%64) = true := by
    simp only [continues, Bool.and_eq_true, decide_eq_true_eq]
    omega
  have value : (((0xf0 + p/262144 - 0xf0)*64 + payload (0x80 + p/4096%64))*64 +
      payload (0x80 + p/64%64))*64 + payload (0x80 + p%64) = p := by
    simp only [payload_add, Nat.add_sub_cancel_left]
    omega
  simp only [decodePoint, if_neg lead, if_neg range₂, if_neg range₃, if_pos range, decodeLong,
    if_pos second, if_pos third, decodeThird, if_pos fourth, value]

theorem decodePoint_encode {p : ℕ} (valid : IsScalar p) (rest : List ℕ) :
    ∃ lead tail, encodePoint p = lead :: tail ∧ decodePoint lead (tail ++ rest) = (p,rest) := by
  have whole := valid.2
  simp only [isSurrogate, Bool.and_eq_false_iff, decide_eq_false_iff_not, not_le] at whole
  unfold encodePoint
  by_cases one : p < 0x80
  · rw [if_pos one]
    exact ⟨p,[],rfl,if_pos one⟩
  rw [if_neg one]
  by_cases two : p < 0x800
  · rw [if_pos two]
    exact ⟨_,_,rfl,decodePoint_two (not_lt.mp one) two rest⟩
  rw [if_neg two]
  by_cases three : p < 0x10000
  · rw [if_pos three]
    exact ⟨_,_,rfl,decodePoint_three (not_lt.mp two) three whole rest⟩
  rw [if_neg three]
  exact ⟨_,_,rfl,decodePoint_four (not_lt.mp three) valid.1 rest⟩

theorem decodeBytes_encode {ps : List ℕ} (valid : ∀ p ∈ ps, IsScalar p) (fuel : ℕ)
    (enough : (ps.flatMap encodePoint).length ≤ fuel) :
    decodeBytes fuel (ps.flatMap encodePoint) = ps := by
  induction ps generalizing fuel with
  | nil => cases fuel <;> rfl
  | cons p ps ih =>
    obtain ⟨now,later⟩ := List.forall_mem_cons.mp valid
    obtain ⟨lead,tail,written,decoded⟩ := decodePoint_encode now (ps.flatMap encodePoint)
    rw [List.flatMap_cons, written, List.cons_append] at enough ⊢
    cases fuel with
    | zero => simp at enough
    | succ fuel =>
      rw [List.length_cons, List.length_append] at enough
      rw [decodeBytes, decoded]
      exact congrArg (p :: ·) (ih later fuel (by omega))

theorem encodePoint_byte {p b : ℕ} (valid : p < 0x110000) (member : b ∈ encodePoint p) : b < 256 := by
  unfold encodePoint at member
  split_ifs at member <;> simp only [List.mem_cons, List.not_mem_nil, or_false] at member <;> omega

/-- Decoding gives back the characters that were written. -/
theorem decode_encode {ps : List ℕ} (valid : ∀ p ∈ ps, IsScalar p) : decode (encode ps) = ps := by
  have bytes : (encode ps).map (fun b => b.toNat) = ps.flatMap encodePoint := by
    rw [encode, List.map_map]
    apply (List.map_congr_left _).trans (List.map_id _)
    intro b member
    obtain ⟨p,inside,written⟩ := List.mem_flatMap.mp member
    have byte := encodePoint_byte (valid p inside).1 written
    simp [UInt8.toNat_ofNat', Nat.mod_eq_of_lt byte]
  rw [decode, bytes]
  apply decodeBytes_encode valid
  simp [encode]

end Bytes

end ScalarText

end EvidenceV4
