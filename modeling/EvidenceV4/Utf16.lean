import EvidenceV4.CheckedExcept
import EvidenceV4.JsonText

/-!
# Code units and code points of string literals

An escape names a code unit, and two escapes may name the halves of one
character. One decoder collects code units and pairs surrogates afterwards,
another pairs adjacent escapes while it reads. They accept the same literals
and give the same characters.
-/

set_option autoImplicit false

namespace JsonText

open CheckedExcept

abbrev CodeUnit := Fin 65536

instance lawfulUnit : LawfulBEq CodeUnit := inferInstance

instance lawfulUnits : LawfulBEq (List CodeUnit) := inferInstance

def isHigh (u : CodeUnit) : Bool := 0xd800 ≤ u.val && u.val ≤ 0xdbff

def isLow (u : CodeUnit) : Bool := 0xdc00 ≤ u.val && u.val ≤ 0xdfff

def isSurrogate (p : ℕ) : Bool := 0xd800 ≤ p && p ≤ 0xdfff

/-- The code point of a surrogate pair. -/
def pairPoint (high low : CodeUnit) : ℕ :=
  0x10000 + (high.val - 0xd800) * 1024 + (low.val - 0xdc00)

def highUnit (c : Char) : CodeUnit := Fin.ofNat 65536 (0xd800 + (c.toNat - 0x10000) / 1024)

def lowUnit (c : Char) : CodeUnit := Fin.ofNat 65536 (0xdc00 + (c.toNat - 0x10000) % 1024)

def charUnits (c : Char) : List CodeUnit :=
  if c.toNat < 0x10000 then [Fin.ofNat 65536 c.toNat] else [highUnit c,lowUnit c]

def lexemeUnits : Lexeme → List CodeUnit
  | .plain c => charUnits c
  | .short c => charUnits c
  | .unicode u => [u]

/-- Pair surrogates, with the message for a half that stands alone. -/
def decodeUnits : List CodeUnit → Except String (List Char)
  | [] => pure []
  | u :: rest =>
    if isHigh u then
      match rest with
      | [] => throw "lone high surrogate"
      | l :: rest =>
        if isLow l then do
          let text ← decodeUnits rest
          pure (Char.ofNat (pairPoint u l) :: text)
        else throw "lone high surrogate"
    else if isLow u then throw "lone low surrogate"
    else do
      let text ← decodeUnits rest
      pure (Char.ofNat u.val :: text)

/-- Pair a high escape with a low escape right behind it and keep any other half as it is. -/
def codePoints : List Lexeme → List ℕ
  | [] => []
  | .plain c :: rest => c.toNat :: codePoints rest
  | .short c :: rest => c.toNat :: codePoints rest
  | .unicode u :: rest =>
    match rest with
    | .unicode l :: rest' =>
      if isHigh u && isLow l then pairPoint u l :: codePoints rest'
      else u.val :: codePoints (.unicode l :: rest')
    | rest => u.val :: codePoints rest

theorem char_range (c : Char) : c.toNat < 0xd800 ∨ 0xdfff < c.toNat ∧ c.toNat < 0x110000 := c.valid

theorem char_not_surrogate (c : Char) : isSurrogate c.toNat = false := by
  have range := char_range c
  simp only [isSurrogate, Bool.and_eq_false_iff, decide_eq_false_iff_not]
  omega

theorem decodeUnits_plain {u : CodeUnit} (rest : List CodeUnit) (h : isSurrogate u.val = false) :
    decodeUnits (u :: rest) = (Char.ofNat u.val :: ·) <$> decodeUnits rest := by
  have high : isHigh u = false := by
    simp only [isHigh, isSurrogate, Bool.and_eq_false_iff, decide_eq_false_iff_not] at h ⊢
    omega
  have low : isLow u = false := by
    simp only [isLow, isSurrogate, Bool.and_eq_false_iff, decide_eq_false_iff_not] at h ⊢
    omega
  rw [decodeUnits.eq_def]
  simp only [high, low]
  rfl

theorem decodeUnits_pair {u l : CodeUnit} (rest : List CodeUnit) (hu : isHigh u) (hl : isLow l) :
    decodeUnits (u :: l :: rest) = (Char.ofNat (pairPoint u l) :: ·) <$> decodeUnits rest := by
  simp only [decodeUnits, hu, hl]
  rfl

theorem unit_val {n : ℕ} (h : n < 65536) : (Fin.ofNat 65536 n).val = n := by
  rw [Fin.val_ofNat, Nat.mod_eq_of_lt h]

theorem highUnit_val (c : Char) : (highUnit c).val = 0xd800 + (c.toNat - 0x10000) / 1024 := by
  have range := char_range c
  exact unit_val (by omega)

theorem lowUnit_val (c : Char) : (lowUnit c).val = 0xdc00 + (c.toNat - 0x10000) % 1024 := by
  exact unit_val (by omega)

theorem highUnit_isHigh (c : Char) : isHigh (highUnit c) := by
  have range := char_range c
  simp only [isHigh, highUnit_val, Bool.and_eq_true, decide_eq_true_eq]
  omega

theorem lowUnit_isLow (c : Char) : isLow (lowUnit c) := by
  simp only [isLow, lowUnit_val, Bool.and_eq_true, decide_eq_true_eq]
  omega

theorem pairPoint_units {c : Char} (large : 0x10000 ≤ c.toNat) :
    pairPoint (highUnit c) (lowUnit c) = c.toNat := by
  have high := highUnit_val c
  have low := lowUnit_val c
  unfold pairPoint
  generalize (highUnit c).val = h at *
  generalize (lowUnit c).val = l at *
  generalize c.toNat = n at *
  omega

/-- The units of a character are read back as that character. -/
theorem decodeUnits_char (c : Char) (rest : List CodeUnit) :
    decodeUnits (charUnits c ++ rest) = (c :: ·) <$> decodeUnits rest := by
  unfold charUnits
  split
  · next small =>
    rw [List.singleton_append, decodeUnits_plain, unit_val small, Char.ofNat_toNat]
    rw [unit_val small]
    exact char_not_surrogate c
  · next large =>
    rw [List.cons_append, List.singleton_append,
      decodeUnits_pair rest (highUnit_isHigh c) (lowUnit_isLow c),
      pairPoint_units (not_lt.mp large), Char.ofNat_toNat]

/-- A unit that does not continue a pair, at the front of what the remaining lexemes give. -/
theorem lexemeUnits_head (lexemes : List Lexeme)
    (h : ∀ l rest, lexemes = .unicode l :: rest → isLow l = false) :
    ∀ l us, lexemes.flatMap lexemeUnits = l :: us → isLow l = false := by
  intro l us e
  cases lexemes with
  | nil => simp at e
  | cons x rest =>
    have plain : ∀ c : Char, ∀ us', charUnits c ++ us' = l :: us → isLow l = false := by
      intro c us' e
      have range := char_range c
      unfold charUnits at e
      split at e
      · next small =>
        obtain ⟨rfl,_⟩ := List.cons.inj e
        simp only [isLow, unit_val small, Bool.and_eq_false_iff, decide_eq_false_iff_not]
        omega
      · obtain ⟨rfl,_⟩ := List.cons.inj e
        simp only [isLow, highUnit_val, Bool.and_eq_false_iff, decide_eq_false_iff_not]
        omega
    rw [List.flatMap_cons] at e
    cases x with
    | plain c => exact plain c _ e
    | short c => exact plain c _ e
    | unicode u =>
      obtain ⟨rfl,_⟩ := List.cons.inj e
      exact h u rest rfl

/-- A unit that starts no pair is read on its own. -/
theorem decodeUnits_single {u : CodeUnit} {us : List CodeUnit} (text : List Char)
    (alone : isHigh u → ∀ l rest, us = l :: rest → isLow l = false) :
    decodeUnits (u :: us) = .ok text ↔ isSurrogate u.val = false ∧
      ∃ later, decodeUnits us = .ok later ∧ Char.ofNat u.val :: later = text := by
  by_cases surrogate : isSurrogate u.val
  · simp only [surrogate, Bool.true_eq_false, false_and, iff_false]
    rw [decodeUnits.eq_def]
    by_cases high : isHigh u
    · have lone := alone high
      cases us with
      | nil => simp [high]
      | cons l rest => simp [high, lone l rest rfl]
    · have low : isLow u := by
        simp only [isHigh, isLow, isSurrogate, Bool.and_eq_true, decide_eq_true_eq] at *
        omega
      simp [high, low]
  · have plain : isSurrogate u.val = false := by simpa using surrogate
    rw [decodeUnits_plain us plain, map_ok]
    simp [plain]

theorem pairPoint_valid (h l : CodeUnit) :
    isSurrogate (pairPoint h l) = false := by
  have large : 0x10000 ≤ pairPoint h l := by
    unfold pairPoint
    exact Nat.le_add_right_of_le (Nat.le_add_right _ _)
  simp only [isSurrogate, Bool.and_eq_false_iff, decide_eq_false_iff_not]
  exact Or.inr (by omega)

/-- The decoder of units refuses exactly the literals in which the decoder of escapes leaves a
surrogate, and otherwise both give the same characters. -/
theorem decodeUnits_lexemes (lexemes : List Lexeme) (text : List Char) :
    decodeUnits (lexemes.flatMap lexemeUnits) = .ok text ↔
      (∀ p ∈ codePoints lexemes, isSurrogate p = false) ∧
        (codePoints lexemes).map Char.ofNat = text := by
  have character : ∀ (c : Char) (rest : List Lexeme) (text : List Char),
      (∀ text, decodeUnits (rest.flatMap lexemeUnits) = .ok text ↔
        (∀ p ∈ codePoints rest, isSurrogate p = false) ∧
          (codePoints rest).map Char.ofNat = text) →
      (decodeUnits (charUnits c ++ rest.flatMap lexemeUnits) = .ok text ↔
        (∀ p ∈ c.toNat :: codePoints rest, isSurrogate p = false) ∧
          (c.toNat :: codePoints rest).map Char.ofNat = text) := by
    intro c rest text ih
    rw [decodeUnits_char, map_ok]
    simp [ih, char_not_surrogate, Char.ofNat_toNat]
  induction lexemes using codePoints.induct generalizing text with
  | case1 => simp [decodeUnits, codePoints]
  | case2 c rest ih => exact character c rest text ih
  | case3 c rest ih => exact character c rest text ih
  | case4 u l rest both ih =>
    obtain ⟨high,low⟩ := Bool.and_eq_true_iff.mp both
    rw [List.flatMap_cons, List.flatMap_cons, codePoints, if_pos both]
    change decodeUnits (u :: l :: rest.flatMap lexemeUnits) = _ ↔ _
    rw [decodeUnits_pair _ high low, map_ok]
    simp [ih, pairPoint_valid u l]
  | case5 u l rest apart ih =>
    rw [List.flatMap_cons, codePoints, if_neg apart]
    change decodeUnits (u :: (Lexeme.unicode l :: rest).flatMap lexemeUnits) = _ ↔ _
    rw [decodeUnits_single]
    · simp only [ih]
      simp [and_assoc]
    · intro high k us e
      obtain ⟨rfl,_⟩ := List.cons.inj e
      simpa [high] using apart
  | case6 u rest other ih =>
    have points : codePoints (.unicode u :: rest) = u.val :: codePoints rest := by
      rw [codePoints]
      exact other
    rw [List.flatMap_cons, points]
    change decodeUnits (u :: rest.flatMap lexemeUnits) = _ ↔ _
    rw [decodeUnits_single]
    · simp [ih, and_assoc]
    · exact fun _ => lexemeUnits_head rest (fun l later e => absurd e (fun e => other l later e))

end JsonText
