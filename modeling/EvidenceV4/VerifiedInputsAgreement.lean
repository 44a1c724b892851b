import EvidenceV4.VerifiedInputs
import EvidenceV4.Utf8Order
import Mathlib.Data.List.Sort

/-!
# Both sides read one policy

Writing a text in UTF-16 turns every operation of the checker on characters into
the operation of the producer on code units. Texts on which the two languages
would differ are rejected by the scan that both start with.
-/

set_option autoImplicit false

namespace EvidenceV4

namespace VerifiedInputsAgreement

open CheckedExcept JsonText TextCode VerifiedInputs
open Schema (utf8Bytes)

section Encoding

theorem charUnits_separate (a b : Char) (x y : List CodeUnit)
    (h : charUnits a ++ x = charUnits b ++ y) : a = b := by
  have small : ∀ {c : Char}, c.toNat < 0x10000 → (Fin.ofNat 65536 c.toNat).val = c.toNat :=
    fun hc => unit_val hc
  have high : ∀ {c d : Char}, c.toNat < 0x10000 → Fin.ofNat 65536 c.toNat ≠ highUnit d := by
    intro c d hc e
    have surrogate := highUnit_isHigh d
    rw [← e] at surrogate
    have plain := char_not_surrogate c
    simp only [isHigh, isSurrogate, small hc, Bool.and_eq_true, Bool.and_eq_false_iff,
      decide_eq_true_eq, decide_eq_false_iff_not] at surrogate plain
    omega
  unfold charUnits at h
  split_ifs at h with ha hb hb
  · have same := congrArg Fin.val (List.cons.inj h).1
    rw [small ha, small hb] at same
    exact Char.toNat_inj.mp same
  · exact absurd (List.cons.inj h).1 (high ha)
  · exact absurd (List.cons.inj h).1.symm (high hb)
  · obtain ⟨first,rest⟩ := List.cons.inj h
    have second := (List.cons.inj rest).1
    apply Char.toNat_inj.mp
    rw [← pairPoint_units (not_lt.mp ha), ← pairPoint_units (not_lt.mp hb), first, second]

theorem charUnits_ne_nil (c : Char) : charUnits c ≠ [] := by
  unfold charUnits
  split <;> simp

/-- UTF-16 as a code of characters. -/
def utf16Code : Code Char CodeUnit := ⟨charUnits,charUnits_ne_nil,charUnits_separate⟩

def utf16 (s : Text) : Units := utf16Code.text s

theorem units_eq (s : String) : units s = utf16 s.toList := rfl

/-- A test of small code points that no surrogate passes reads the same on both sides. -/
theorem marks_of {p : Char → Bool} {q : CodeUnit → Bool} (t : ℕ → Bool)
    (hp : ∀ c, p c = t c.toNat) (hq : ∀ u, q u = t u.val)
    (surrogates : ∀ n, isSurrogate n = true → t n = false)
    (bound : ∀ n, t n = true → n < 0x10000) : utf16Code.Marks p q := by
  intro c
  constructor
  · intro marked
    rw [hp] at marked
    have small := bound _ marked
    refine ⟨Fin.ofNat 65536 c.toNat,if_pos small,?_⟩
    rw [hq, unit_val small]
    exact marked
  · intro plain u hu
    rw [hp] at plain
    change u ∈ charUnits c at hu
    unfold charUnits at hu
    rw [hq]
    split_ifs at hu with small
    · obtain rfl := List.mem_singleton.mp hu
      rw [unit_val small]
      exact plain
    · apply surrogates
      have range := char_range c
      simp only [List.mem_cons, List.not_mem_nil, or_false] at hu
      rcases hu with rfl | rfl
      · simp only [isSurrogate, highUnit_val, Bool.and_eq_true, decide_eq_true_eq]
        omega
      · simp only [isSurrogate, lowUnit_val, Bool.and_eq_true, decide_eq_true_eq]
        omega

theorem marks_char (a : Char) (u : CodeUnit) (same : a.toNat = u.val) :
    utf16Code.Marks (· == a) (· == u) := by
  apply marks_of (· == u.val)
  · intro c
    rw [← same]
    exact Bool.eq_iff_iff.mpr (by simp [Char.toNat_inj])
  · intro v
    exact Bool.eq_iff_iff.mpr (by simp [Fin.ext_iff])
  · intro n surrogate
    have plain := char_not_surrogate a
    rw [same] at plain
    apply beq_false_of_ne
    rintro rfl
    rw [plain] at surrogate
    exact Bool.false_ne_true surrogate
  · intro n h
    rw [beq_iff_eq] at h
    exact h ▸ u.isLt

theorem marks_space : utf16Code.Marks FvProject.isSpace EvidenceRun.pythonWhitespaceClass := by
  apply marks_of (fun n => (9 ≤ n && n ≤ 13) || (0x1c ≤ n && n ≤ 0x20) || n == 0x85 ||
    n == 0xa0 || n == 0x1680 || (0x2000 ≤ n && n ≤ 0x200a) || n == 0x2028 || n == 0x2029 ||
    n == 0x202f || n == 0x205f || n == 0x3000)
  · intro c
    rfl
  · intro u
    have list : u ∈ ([0x09,0x0a,0x0b,0x0c,0x0d] : List CodeUnit) ↔ 9 ≤ u.val ∧ u.val ≤ 13 := by
      simp only [List.mem_cons, List.not_mem_nil, or_false, Fin.ext_iff]
      change u.val = 9 ∨ u.val = 10 ∨ u.val = 11 ∨ u.val = 12 ∨ u.val = 13 ↔ _
      omega
    apply Bool.eq_iff_iff.mpr
    simp only [EvidenceRun.pythonWhitespaceClass, list, Bool.or_eq_true, Bool.and_eq_true,
      decide_eq_true_eq, beq_iff_eq]
    omega
  · intro n surrogate
    simp only [isSurrogate, Bool.and_eq_true, decide_eq_true_eq] at surrogate
    simp only [Bool.or_eq_false_iff, Bool.and_eq_false_iff, decide_eq_false_iff_not,
      beq_eq_false_iff_ne]
    omega
  · intro n h
    simp only [Bool.or_eq_true, Bool.and_eq_true, decide_eq_true_eq, beq_iff_eq] at h
    omega

end Encoding

section Scan

def rejection : Rejection Text → Rejection Units
  | .terminator lineno char => .terminator lineno (utf16 char)
  | .byteOrderMark lineno => .byteOrderMark lineno
  | .control lineno char => .control lineno (utf16 char)
  | .lateDirective lineno => .lateDirective lineno
  | .unknownMode lineno value => .unknownMode lineno (utf16 value)
  | .wholeProject lineno verb => .wholeProject lineno verb
  | .absolute lineno entry => .absolute lineno (utf16 entry)
  | .escapes lineno entry => .escapes lineno (utf16 entry)
  | .policyMode mode => .policyMode (utf16 mode)
  | .noPath => .noPath

variable {α β γ δ : Type}

/-- A result of the checker in the representation of the producer. -/
def recode (f : α → β) : Except (Rejection Text) α → Except (Rejection Units) β
  | .ok a => .ok (f a)
  | .error e => .error (rejection e)

@[simp] theorem recode_pure (f : α → β) (a : α) : recode f (pure a) = pure (f a) := rfl

@[simp] theorem recode_throw (f : α → β) (e : Rejection Text) :
    recode f (throw e) = throw (rejection e) := rfl

theorem recode_ite (f : α → β) (c : Prop) [Decidable c] (x y : Except (Rejection Text) α) :
    recode f (if c then x else y) = if c then recode f x else recode f y :=
  apply_ite _ _ _ _

theorem recode_bind {f : α → β} {g : γ → δ} {x : Except (Rejection Text) α}
    {x' : Except (Rejection Units) β} {next : α → Except (Rejection Text) γ}
    {next' : β → Except (Rejection Units) δ} (first : x' = recode f x)
    (later : ∀ a, x = .ok a → next' (f a) = recode g (next a)) :
    x' >>= next' = recode g (x >>= next) := by
  subst first
  cases x with
  | error e => rfl
  | ok a => exact later a rfl

theorem unit_eq {c : Char} {u : CodeUnit} (spelled : u.val = c.toNat) (a : Char) (v : CodeUnit)
    (same : a.toNat = v.val) : u = v ↔ c = a := by
  rw [← Char.toNat_inj, same, ← spelled, Fin.ext_iff]

theorem head_feed (s : Text) :
    (utf16 s).head? = some EvidenceRun.lineFeed ↔ s.head? = some '\n' := by
  have marks := marks_char '\n' EvidenceRun.lineFeed rfl
  cases s with
  | nil => exact iff_of_false (by simp [utf16]) (by simp)
  | cons c s =>
    by_cases feed : c = '\n'
    · subst feed
      exact iff_of_true rfl rfl
    · have plain := (marks c).2 (by simpa using feed)
      obtain ⟨u,us,e⟩ := List.exists_cons_of_ne_nil (utf16Code.filled c)
      have hu := plain u (by simp [e])
      rw [utf16, text_cons, e]
      exact iff_of_false (by simpa using hu) (by simpa using feed)

theorem scan_surrogate (lineno : ℕ) {u : CodeUnit} (s : Units) (h : isSurrogate u.val = true) :
    EvidenceRun.scan lineno (u :: s) = EvidenceRun.scan lineno s := by
  have other : ∀ v : CodeUnit, isSurrogate v.val = false → u ≠ v := by
    rintro v plain rfl
    rw [h] at plain
    exact Bool.noConfusion plain
  have control : EvidenceRun.isControlChar u = false := by
    simp only [isSurrogate, EvidenceRun.isControlChar, Bool.and_eq_true, Bool.or_eq_false_iff,
      Bool.and_eq_false_iff, decide_eq_true_eq, decide_eq_false_iff_not] at h ⊢
    omega
  have ambiguous : u ∉ EvidenceRun.ambiguousLineChars := by
    intro inside
    have plain : ∀ v ∈ EvidenceRun.ambiguousLineChars, isSurrogate v.val = false := by
      simp [EvidenceRun.ambiguousLineChars, isSurrogate]
    exact other u (plain u inside) rfl
  have carriage := other EvidenceRun.carriageReturn (by decide)
  rw [EvidenceRun.scan, if_neg (other EvidenceRun.lineFeed (by decide)),
    if_neg (fun both => carriage both.1),
    if_neg (not_or.mpr ⟨carriage,ambiguous⟩), if_neg (other EvidenceRun.bomChar (by decide)),
    if_neg (by simp [control])]

/-- The scans agree on every text. -/
theorem scan_agrees (lineno : ℕ) (s : Text) : EvidenceRun.scan lineno (utf16 s) =
    recode id (FvProject.rejectAmbiguousCharacters lineno s) := by
  induction s generalizing lineno with
  | nil => rfl
  | cons c s ih =>
    by_cases small : c.toNat < 0x10000
    · have word : utf16 (c :: s) = Fin.ofNat 65536 c.toNat :: utf16 s := by
        show charUnits c ++ utf16 s = _
        rw [charUnits, if_pos small]
        rfl
      have spelled : (Fin.ofNat 65536 c.toNat).val = c.toNat := unit_val small
      have char : utf16 [c] = [Fin.ofNat 65536 c.toNat] := by
        show charUnits c ++ [] = _
        rw [charUnits, if_pos small]
        rfl
      have feed := unit_eq spelled '\n' EvidenceRun.lineFeed rfl
      have carriage := unit_eq spelled '\r' EvidenceRun.carriageReturn rfl
      have mark := unit_eq spelled FvProject.bomChar EvidenceRun.bomChar rfl
      have ambiguous : Fin.ofNat 65536 c.toNat ∈ EvidenceRun.ambiguousLineChars ↔
          c ∈ FvProject.ambiguousLineChars := by
        simp only [EvidenceRun.ambiguousLineChars, FvProject.ambiguousLineChars, List.mem_cons,
          List.not_mem_nil, or_false, unit_eq spelled '\x0b' 0x0b rfl,
          unit_eq spelled '\x0c' 0x0c rfl, unit_eq spelled '\x1c' 0x1c rfl,
          unit_eq spelled '\x1d' 0x1d rfl, unit_eq spelled '\x1e' 0x1e rfl,
          unit_eq spelled '\x85' 0x85 rfl, unit_eq spelled '\u2028' 0x2028 rfl,
          unit_eq spelled '\u2029' 0x2029 rfl]
      have control : EvidenceRun.isControlChar (Fin.ofNat 65536 c.toNat) =
          FvProject.isControl c := by
        rw [EvidenceRun.isControlChar, spelled, FvProject.isControl]
      rw [word, EvidenceRun.scan, FvProject.rejectAmbiguousCharacters]
      simp only [feed, carriage, mark, ambiguous, control, head_feed, or_comm, recode_ite,
        recode_throw, rejection, char, ih]
    · have range := char_range c
      have other : ∀ d : Char, d.toNat < 0x10000 → c ≠ d := by
        rintro d hd rfl
        exact small hd
      have ambiguous : c ∉ FvProject.ambiguousLineChars := by
        intro inside
        have low : ∀ d ∈ FvProject.ambiguousLineChars, d.toNat < 0x10000 := by
          simp [FvProject.ambiguousLineChars]
        exact small (low c inside)
      have control : FvProject.isControl c = false := by
        simp only [FvProject.isControl, Bool.or_eq_false_iff, Bool.and_eq_false_iff,
          decide_eq_false_iff_not]
        omega
      have word : utf16 (c :: s) = highUnit c :: lowUnit c :: utf16 s := by
        show charUnits c ++ utf16 s = _
        rw [charUnits, if_neg small]
        rfl
      have high : isSurrogate (highUnit c).val = true := by
        simp only [isSurrogate, highUnit_val, Bool.and_eq_true, decide_eq_true_eq]
        omega
      have low : isSurrogate (lowUnit c).val = true := by
        simp only [isSurrogate, lowUnit_val, Bool.and_eq_true, decide_eq_true_eq]
        omega
      have carriage := other '\r' (by decide)
      rw [word, scan_surrogate lineno _ high, scan_surrogate lineno _ low, ih,
        FvProject.rejectAmbiguousCharacters, if_neg (other '\n' (by decide)),
        if_neg (fun both => carriage both.1), if_neg (not_or.mpr ⟨ambiguous,carriage⟩),
        if_neg (other FvProject.bomChar (by decide)), if_neg (by simp [control])]

end Scan

section Lines

theorem splitlines_eq_nil {s : Text} (h : FvProject.splitlines s = []) : s = [] := by
  unfold FvProject.splitlines at h
  split at h
  · rfl
  · next c s =>
    split_ifs at h
    · split at h
      · simp at h
      · split_ifs at h
    · cases e : FvProject.splitlines s <;> simp [e, consHead] at h

theorem splitlines_break {c : Char} (s : Text) (other : c ≠ '\r')
    (marked : FvProject.isLineBreak c = true) :
    FvProject.splitlines (c :: s) = [] :: FvProject.splitlines s := by
  rw [FvProject.splitlines.eq_def]
  simp [other, marked]

theorem splitlines_plain {c : Char} (s : Text) (other : c ≠ '\r')
    (plain : FvProject.isLineBreak c = false) :
    FvProject.splitlines (c :: s) = consHead c (FvProject.splitlines s) := by
  rw [FvProject.splitlines.eq_def]
  simp [other, plain]

theorem splitlines_pair (s : Text) :
    FvProject.splitlines ('\r' :: '\n' :: s) = [] :: FvProject.splitlines s := by
  rw [FvProject.splitlines.eq_def]
  simp

/-- On a text that passes the scan, both ways of splitting give the same lines and perhaps an
empty one at the end. -/
theorem splitlines_scanned (lineno : ℕ) (s : Text)
    (h : FvProject.rejectAmbiguousCharacters lineno s = .ok ()) :
    ∃ tail, splitBreaks (· == '\r') (· == '\n') s = FvProject.splitlines s ++ tail ∧
      ∀ line ∈ tail, line = [] := by
  induction s generalizing lineno with
  | nil => exact ⟨[[]],rfl,by simp⟩
  | cons c s ih =>
    rw [FvProject.rejectAmbiguousCharacters] at h
    split_ifs at h with feed pair bad mark control
    · subst feed
      obtain ⟨tail,split,blank⟩ := ih _ h
      refine ⟨tail,?_,blank⟩
      rw [splitBreaks_feed s rfl, splitlines_break s (by decide) (by decide), split]
      rfl
    · obtain ⟨rfl,next⟩ := pair
      obtain ⟨s,rfl⟩ := List.head?_eq_some_iff.mp next
      obtain ⟨tail,split,blank⟩ := ih _ h
      refine ⟨tail,?_,blank⟩
      rw [splitBreaks_feed s rfl, splitlines_break s (by decide) (by decide)] at split
      rw [splitBreaks_pair s (by decide) rfl rfl, splitlines_pair, split]
    · obtain ⟨ambiguous,carriage⟩ := not_or.mp bad
      obtain ⟨tail,split,blank⟩ := ih _ h
      have plain : FvProject.isLineBreak c = false := by
        simp only [FvProject.ambiguousLineChars, List.mem_cons, List.not_mem_nil, or_false,
          not_or] at ambiguous
        simp [FvProject.isLineBreak, feed, carriage, ambiguous]
      rw [splitBreaks_plain s (by simpa using feed) (by simp [carriage]),
        splitlines_plain s carriage plain, split]
      cases lines : FvProject.splitlines s with
      | nil =>
        obtain rfl := splitlines_eq_nil lines
        obtain rfl : tail = [[]] := split.symm
        exact ⟨[],rfl,by simp⟩
      | cons line lines => exact ⟨tail,rfl,blank⟩

theorem readLine_blank (l : LowerCase) (lineno : ℕ) (s : Reading Text) :
    FvProject.readLine l lineno s [] = .ok s := rfl

theorem readLines_blank (l : LowerCase) (lineno : ℕ) (s : Reading Text) {tail : List Text}
    (blank : ∀ line ∈ tail, line = []) : FvProject.readLines l lineno s tail = .ok s := by
  induction tail generalizing lineno with
  | nil => rfl
  | cons line tail ih =>
    rw [List.forall_mem_cons] at blank
    obtain ⟨rfl,blank⟩ := blank
    rw [FvProject.readLines, readLine_blank]
    exact ih (lineno+1) blank

theorem readLines_tail (l : LowerCase) (lineno : ℕ) (s : Reading Text) (lines : List Text)
    {tail : List Text} (blank : ∀ line ∈ tail, line = []) :
    FvProject.readLines l lineno s (lines ++ tail) = FvProject.readLines l lineno s lines := by
  induction lines generalizing lineno s with
  | nil => exact readLines_blank l lineno s blank
  | cons line lines ih =>
    rw [List.cons_append, FvProject.readLines, FvProject.readLines]
    exact bind_congr_ok rfl (fun s' _ => ih (lineno+1) s')

end Lines

section Lower

/-- Letters that only their ASCII spellings lower to. -/
def Plain (t : Text) : Prop := ∀ x ∈ t, x.toNat < 128 ∧ x ≠ 'k'

theorem toLower_large {c : Char} (large : 128 ≤ c.toNat) : c.toLower = c := by
  have value : 128 ≤ c.val.toNat := large
  unfold Char.toLower
  split
  · next h =>
    have bound := h.2
    rw [UInt32.le_iff_toNat_le] at bound
    change c.val.toNat ≤ 90 at bound
    omega
  · rfl

theorem lower_eq (l : LowerCase) {t : Text} (plain : Plain t) (before : List ℕ) (s : Text) :
    FvProject.lower l before s = t ↔ s.map Char.toLower = t := by
  induction s generalizing before t with
  | nil => rfl
  | cons c s ih =>
    rw [FvProject.lower, List.map_cons]
    by_cases ascii : c.toNat < 128
    · rw [l.ascii _ _ c ascii, List.singleton_append]
      cases t with
      | nil => simp
      | cons x t =>
        rw [List.cons.injEq, List.cons.injEq, ih (fun y hy => plain y (List.mem_cons_of_mem _ hy))]
    · have large := not_lt.mp ascii
      apply iff_of_false
      · rintro rfl
        rcases l.other before (s.map Char.toNat) c large with kelvin | ⟨x,hx,high⟩
        · exact (plain 'k' (by simp [kelvin])).2 rfl
        · exact absurd (plain x (List.mem_append_left _ hx)).1 (not_lt.mpr high)
      · rintro rfl
        rw [toLower_large large] at plain
        exact ascii (plain c List.mem_cons_self).1

theorem stringPoints_single {u : CodeUnit} (s : Units) (plain : isSurrogate u.val = false) :
    EvidenceRun.stringPoints (u :: s) = .inl (Char.ofNat u.val) :: EvidenceRun.stringPoints s := by
  have high : isHigh u = false := by
    simp only [isHigh, isSurrogate, Bool.and_eq_false_iff, decide_eq_false_iff_not] at plain ⊢
    omega
  cases s with
  | nil => simp [EvidenceRun.stringPoints, EvidenceRun.singlePoint, plain]
  | cons l s => simp [EvidenceRun.stringPoints, EvidenceRun.singlePoint, plain, high]

theorem stringPoints_char (c : Char) (s : Units) :
    EvidenceRun.stringPoints (charUnits c ++ s) = .inl c :: EvidenceRun.stringPoints s := by
  unfold charUnits
  split_ifs with small
  · have spelled := unit_val small
    rw [List.singleton_append, stringPoints_single, spelled, Char.ofNat_toNat]
    rw [spelled]
    exact char_not_surrogate c
  · rw [List.cons_append, List.singleton_append, EvidenceRun.stringPoints.eq_def]
    simp [highUnit_isHigh, lowUnit_isLow, pairPoint_units (not_lt.mp small), Char.ofNat_toNat]

theorem stringPoints_append (s : Text) (tail : Units) :
    EvidenceRun.stringPoints (utf16 s ++ tail) =
      s.map Sum.inl ++ EvidenceRun.stringPoints tail := by
  induction s with
  | nil => rfl
  | cons c s ih =>
    rw [utf16, text_cons, List.append_assoc]
    exact (stringPoints_char c _).trans (congrArg _ ih)

theorem stringPoints_utf16 (s : Text) : EvidenceRun.stringPoints (utf16 s) = s.map Sum.inl := by
  have whole := stringPoints_append s []
  rw [List.append_nil] at whole
  rw [whole]
  exact List.append_nil _

theorem lowerPoints_chars (l : LowerCase) (before : List ℕ) (s : Text) :
    EvidenceRun.lowerPoints l before (s.map Sum.inl) = utf16 (FvProject.lower l before s) := by
  induction s generalizing before with
  | nil => rfl
  | cons c s ih =>
    have after : (s.map Sum.inl).map EvidenceRun.pointNumber = s.map Char.toNat := by
      rw [List.map_map]
      rfl
    rw [List.map_cons, EvidenceRun.lowerPoints, ih, after, FvProject.lower]
    exact (text_append utf16Code _ _).symm

theorem lowerPoints_lone (l : LowerCase) (before : List ℕ) {points : List (Char ⊕ CodeUnit)}
    {u : CodeUnit} (h : .inr u ∈ points) : u ∈ EvidenceRun.lowerPoints l before points := by
  induction points generalizing before with
  | nil => simp at h
  | cons p points ih =>
    cases p with
    | inl c =>
      have later : .inr u ∈ points := by simpa using h
      rw [EvidenceRun.lowerPoints]
      exact List.mem_append_right _ (ih _ later)
    | inr v =>
      rw [EvidenceRun.lowerPoints]
      rcases List.mem_cons.mp h with same | later
      · exact List.mem_cons.mpr (Or.inl (Sum.inr.inj same))
      · exact List.mem_cons_of_mem _ (ih _ later)

/-- A cut through the units of a text keeps whole characters and perhaps half of one more. -/
theorem take_utf16 (n : ℕ) (s : Text) : ∃ m tail, (utf16 s).take n = utf16 (s.take m) ++ tail ∧
    (tail = [] ∨ ∃ c, tail = [highUnit c]) := by
  induction s generalizing n with
  | nil => exact ⟨0,[],by simp [utf16],Or.inl rfl⟩
  | cons c s ih =>
    cases n with
    | zero => exact ⟨0,[],rfl,Or.inl rfl⟩
    | succ n =>
      by_cases small : c.toNat < 0x10000
      · have word : charUnits c = [Fin.ofNat 65536 c.toNat] := if_pos small
        obtain ⟨m,tail,cut,half⟩ := ih n
        refine ⟨m+1,tail,?_,half⟩
        show (charUnits c ++ utf16 s).take (n+1) = charUnits c ++ utf16 (s.take m) ++ tail
        rw [word, List.singleton_append, List.take_succ_cons, cut]
        rfl
      · have word : charUnits c = [highUnit c,lowUnit c] := if_neg small
        cases n with
        | zero =>
          refine ⟨0,[highUnit c],?_,Or.inr ⟨c,rfl⟩⟩
          show (charUnits c ++ utf16 s).take 1 = _
          rw [word]
          rfl
        | succ n =>
          obtain ⟨m,tail,cut,half⟩ := ih n
          refine ⟨m+1,tail,?_,half⟩
          show (charUnits c ++ utf16 s).take (n+2) = charUnits c ++ utf16 (s.take m) ++ tail
          rw [word, List.cons_append, List.singleton_append, List.take_succ_cons,
            List.take_succ_cons, cut]
          rfl

end Lower

section Directive

theorem modeDirectivePrefix_plain : Plain FvProject.modeDirectivePrefix := by
  have each : FvProject.modeDirectivePrefix.all (fun x => x.toNat < 128 && x != 'k') := by decide
  intro x hx
  simpa using List.all_eq_true.mp each x hx

theorem utf16_injective : Function.Injective utf16 := text_injective utf16Code

theorem prefix_utf16 (s t : Text) : (utf16 s).isPrefixOf (utf16 t) = s.isPrefixOf t := by
  rw [Bool.eq_iff_iff, List.isPrefixOf_iff_prefix, List.isPrefixOf_iff_prefix]
  exact prefix_text utf16Code s t

theorem utf16_ascii {s : Text} (ascii : ∀ c ∈ s, c.toNat < 128) :
    (utf16 s).length = s.length := by
  induction s with
  | nil => rfl
  | cons c s ih =>
    rw [List.forall_mem_cons] at ascii
    have small : c.toNat < 0x10000 := by omega
    show (charUnits c ++ utf16 s).length = _
    rw [charUnits, if_pos small, List.length_append, ih ascii.2]
    simp [Nat.add_comm]

theorem utf16_small {s : Text} (ascii : ∀ c ∈ s, c.toNat < 128) : ∀ u ∈ utf16 s, u.val < 128 := by
  intro u hu
  obtain ⟨c,hc,inside⟩ := List.mem_flatMap.mp hu
  have small := ascii c hc
  change u ∈ charUnits c at inside
  rw [charUnits, if_pos (by omega)] at inside
  obtain rfl := List.mem_singleton.mp inside
  rw [unit_val (by omega)]
  exact small

/-- Letters that lower to plain ones are ASCII. -/
theorem ascii_of_toLower {s t : Text} (plain : Plain t) (h : s.map Char.toLower = t) :
    ∀ c ∈ s, c.toNat < 128 := by
  subst h
  intro c hc
  by_cases ascii : c.toNat < 128
  · exact ascii
  · have large := not_lt.mp ascii
    have inside := (plain c.toLower (List.mem_map_of_mem hc)).1
    rw [toLower_large large] at inside
    exact inside

theorem take_of_prefix {α : Type} {s t : List α} (h : s <+: t) : t.take s.length = s :=
  (List.prefix_iff_eq_take.mp h).symm

/-- The producer finds a directive where the checker finds one. -/
theorem head_agrees (js py : LowerCase) (line : Text) :
    EvidenceRun.toLowerCase js ((utf16 line).take EvidenceRun.modeDirectivePrefix.length) =
        EvidenceRun.modeDirectivePrefix ↔
      FvProject.lower py [] (line.take FvProject.modeDirectivePrefix.length) =
        FvProject.modeDirectivePrefix := by
  have plain := modeDirectivePrefix_plain
  rw [lower_eq py plain]
  have spelled : EvidenceRun.modeDirectivePrefix = utf16 FvProject.modeDirectivePrefix := rfl
  have long : EvidenceRun.modeDirectivePrefix.length = FvProject.modeDirectivePrefix.length := rfl
  constructor
  · intro h
    obtain ⟨m,tail,cut,half⟩ := take_utf16 EvidenceRun.modeDirectivePrefix.length line
    rw [EvidenceRun.toLowerCase, cut, stringPoints_append] at h
    rcases half with rfl | ⟨c,rfl⟩
    · rw [EvidenceRun.stringPoints, List.append_nil, lowerPoints_chars, spelled] at h
      have lowered := (lower_eq js plain _ _).mp (utf16_injective h)
      have size := congrArg List.length lowered
      rw [List.length_map] at size
      rw [← size, take_of_prefix (List.take_prefix m line)]
      exact lowered
    · have lone : EvidenceRun.stringPoints [highUnit c] = [.inr (highUnit c)] := by
        have range := char_range c
        have surrogate : isSurrogate (highUnit c).val = true := by
          simp only [isSurrogate, highUnit_val, Bool.and_eq_true, decide_eq_true_eq]
          omega
        simp [EvidenceRun.stringPoints, EvidenceRun.singlePoint, surrogate]
      have inside : highUnit c ∈ EvidenceRun.lowerPoints js []
          ((line.take m).map Sum.inl ++ EvidenceRun.stringPoints [highUnit c]) :=
        lowerPoints_lone js [] (by simp [lone])
      rw [h] at inside
      have low := utf16_small (fun x hx => (plain x hx).1) _ inside
      rw [highUnit_val] at low
      omega
  · intro lowered
    set s := line.take FvProject.modeDirectivePrefix.length with head
    have ascii := ascii_of_toLower plain lowered
    have size := congrArg List.length lowered
    rw [List.length_map] at size
    have below : utf16 s <+: utf16 line := (prefix_text utf16Code _ _).mpr (List.take_prefix _ _)
    rw [long, ← size, ← utf16_ascii ascii, take_of_prefix below, EvidenceRun.toLowerCase,
      stringPoints_utf16, lowerPoints_chars, spelled, (lower_eq js plain [] s).mpr lowered]

theorem drop_utf16 {s : Text} (ascii : ∀ c ∈ s, c.toNat < 128) (line : Text) (below : s <+: line) :
    (utf16 line).drop s.length = utf16 (line.drop s.length) := by
  obtain ⟨rest,rfl⟩ := below
  have whole : utf16 (s ++ rest) = utf16 s ++ utf16 rest := text_append utf16Code s rest
  rw [whole, ← utf16_ascii ascii, List.drop_left, utf16_ascii ascii, List.drop_left]

theorem directive_agrees (js py : LowerCase) (line : Text) :
    EvidenceRun.directiveValue js (utf16 line) =
      (FvProject.directiveValue py line).map utf16 := by
  have head := head_agrees js py line
  unfold EvidenceRun.directiveValue FvProject.directiveValue
  by_cases found : FvProject.lower py [] (line.take FvProject.modeDirectivePrefix.length) =
      FvProject.modeDirectivePrefix
  · have lowered := (lower_eq py modeDirectivePrefix_plain [] _).mp found
    have ascii := ascii_of_toLower modeDirectivePrefix_plain lowered
    have size := congrArg List.length lowered
    rw [List.length_map] at size
    have rest := drop_utf16 ascii line (List.take_prefix _ _)
    rw [size] at rest
    have rest' : (utf16 line).drop EvidenceRun.modeDirectivePrefix.length =
        utf16 (line.drop FvProject.modeDirectivePrefix.length) := rest
    simp only [head.mpr found, found, ne_eq, not_true_eq_false, if_false, rest', Option.map_some]
    exact congrArg some (marks_space.strip _)
  · simp only [found, ne_eq, not_false_eq_true, if_true, Option.map_none, mt head.mp found]

end Directive

section Reading

def reading (s : Reading Text) : Reading Units := ⟨s.mode.map utf16,s.prefixes.map utf16⟩

def policy (p : InputPolicy Text) : InputPolicy Units :=
  ⟨utf16 p.mode,p.prefixes.map utf16,p.structural.map utf16⟩

theorem utf16_mem {s : Text} {ts : List Text} : utf16 s ∈ ts.map utf16 ↔ s ∈ ts :=
  mem_map_text utf16Code

theorem utf16_eq {s t : Text} : utf16 s = utf16 t ↔ s = t := utf16_injective.eq_iff

theorem policyModes_agree : EvidenceRun.policyModes = FvProject.policyModes.map utf16 := rfl

theorem mode_mem {value : Text} :
    utf16 value ∈ EvidenceRun.policyModes ↔ value ∈ FvProject.policyModes := by
  rw [policyModes_agree]
  exact utf16_mem

theorem slash_marks : utf16Code.Marks (· == '/') (· == EvidenceRun.slash) := marks_char _ _ rfl

theorem utf16_isAbsolute (line : Text) :
    EvidenceRun.isAbsolute (utf16 line) = FvProject.isAbsolute line :=
  prefix_utf16 ['/'] line

/-- A relative entry leaves the project on one side exactly when it does on the other. -/
theorem escapes_agree {entry : Text} (relative : FvProject.isAbsolute entry = false) :
    [EvidenceRun.dot,EvidenceRun.dot] ∈ splitAt (· == EvidenceRun.slash) (utf16 entry) ↔
      ['.','.'] ∈ FvProject.pathParts entry := by
  have parts : splitAt (· == EvidenceRun.slash) (utf16 entry) =
      (splitAt (· == '/') entry).map utf16 := slash_marks.splitAt entry
  have dots : [EvidenceRun.dot,EvidenceRun.dot] = utf16 ['.','.'] := rfl
  rw [parts, dots, utf16_mem, FvProject.pathParts]
  simp only [relative, Bool.false_eq_true, if_false, List.mem_filter]
  exact ⟨fun h => ⟨h,by decide⟩,fun h => h.1⟩

theorem entry_agrees (line : Text) :
    (if (units "./").isPrefixOf (utf16 line) then (utf16 line).drop 2 else utf16 line) =
      utf16 (if ['.','/'].isPrefixOf line then line.drop 2 else line) := by
  have start : (units "./").isPrefixOf (utf16 line) = ['.','/'].isPrefixOf line :=
    prefix_utf16 ['.','/'] line
  rw [start]
  split_ifs with found
  · exact drop_utf16 (by simp) line (List.isPrefixOf_iff_prefix.mp found)
  · rfl

theorem modeInclude_agrees (m : Text) :
    utf16 m = EvidenceRun.modeInclude ↔ m = FvProject.modeInclude := utf16_eq

theorem mode_agrees (s : Reading Text) :
    (reading s).mode.getD EvidenceRun.modeExclude = utf16 (s.mode.getD FvProject.modeExclude) := by
  obtain ⟨mode,prefixes⟩ := s
  cases mode with
  | none => rfl
  | some m => rfl

theorem wholeProject_agrees (entry : Text) :
    (utf16 entry = [] ∨ utf16 entry = [EvidenceRun.dot] ∨ utf16 entry = [EvidenceRun.slash]) ↔
      (entry = [] ∨ entry ∈ [['.'],['/']]) := by
  have dot : [EvidenceRun.dot] = utf16 ['.'] := rfl
  have slash : [EvidenceRun.slash] = utf16 ['/'] := rfl
  have blank : utf16 entry = [] ↔ entry = [] := text_eq_nil utf16Code
  rw [dot, slash, blank, utf16_eq, utf16_eq]
  simp

theorem reading_add (s : Reading Text) (mode entry : Text) :
    (if utf16 entry ∈ (reading s).prefixes then
        (pure ⟨some (utf16 mode),(reading s).prefixes⟩ : Except (Rejection Units) (Reading Units))
      else pure ⟨some (utf16 mode),(reading s).prefixes ++ [utf16 entry]⟩) =
      recode reading (if entry ∈ s.prefixes then pure ⟨some mode,s.prefixes⟩
        else pure ⟨some mode,s.prefixes ++ [entry]⟩) := by
  have known : utf16 entry ∈ (reading s).prefixes ↔ entry ∈ s.prefixes := utf16_mem
  have added : (reading s).prefixes ++ [utf16 entry] = (s.prefixes ++ [entry]).map utf16 := by
    rw [List.map_append]
    rfl
  simp only [known, added, recode_ite]
  rfl

/-- A path entry is checked and kept alike. -/
theorem readEntry_agrees (lineno : ℕ) (s : Reading Text) (mode entry : Text) :
    (if utf16 entry = [] ∨ utf16 entry = [EvidenceRun.dot] ∨ utf16 entry = [EvidenceRun.slash] then
        throw (.wholeProject lineno
          (if utf16 mode = EvidenceRun.modeInclude then "selects" else "excludes"))
      else if EvidenceRun.isAbsolute (utf16 entry) then throw (.absolute lineno (utf16 entry))
      else if [EvidenceRun.dot,EvidenceRun.dot] ∈ splitAt (· == EvidenceRun.slash) (utf16 entry)
        then throw (.escapes lineno (utf16 entry))
      else if utf16 entry ∈ (reading s).prefixes then
        (pure ⟨some (utf16 mode),(reading s).prefixes⟩ : Except (Rejection Units) (Reading Units))
      else pure ⟨some (utf16 mode),(reading s).prefixes ++ [utf16 entry]⟩) =
    recode reading (if entry = [] ∨ entry ∈ [['.'],['/']] then
        throw (.wholeProject lineno (if mode = FvProject.modeInclude then "selects" else "excludes"))
      else if FvProject.isAbsolute entry then throw (.absolute lineno entry)
      else if ['.','.'] ∈ FvProject.pathParts entry then throw (.escapes lineno entry)
      else if entry ∈ s.prefixes then pure ⟨some mode,s.prefixes⟩
      else pure ⟨some mode,s.prefixes ++ [entry]⟩) := by
  have verb : (if utf16 mode = EvidenceRun.modeInclude then "selects" else "excludes") =
      if mode = FvProject.modeInclude then "selects" else "excludes" :=
    if_congr (modeInclude_agrees mode) rfl rfl
  rw [recode_ite]
  apply ite_congr (propext (wholeProject_agrees entry))
  · intro _
    rw [verb]
    rfl
  · intro _
    rw [recode_ite, utf16_isAbsolute]
    apply ite_congr rfl
    · intro _
      rfl
    · intro relative
      rw [recode_ite]
      apply ite_congr (propext (escapes_agree (by simpa using relative)))
      · intro _
        rfl
      · intro _
        exact reading_add s mode entry

/-- A directive is checked and kept alike. -/
theorem readDirective_agrees (lineno : ℕ) (s : Reading Text) (value : Text) :
    (if (reading s).mode ≠ none ∨ (reading s).prefixes ≠ [] then throw (.lateDirective lineno)
      else if utf16 value ∉ EvidenceRun.policyModes then throw (.unknownMode lineno (utf16 value))
      else (pure ⟨some (utf16 value),(reading s).prefixes⟩ :
        Except (Rejection Units) (Reading Units))) =
    recode reading (if s.mode ≠ none ∨ s.prefixes ≠ [] then throw (.lateDirective lineno)
      else if value ∉ FvProject.policyModes then throw (.unknownMode lineno value)
      else pure ⟨some value,s.prefixes⟩) := by
  have declared : ((reading s).mode ≠ none ∨ (reading s).prefixes ≠ []) ↔
      (s.mode ≠ none ∨ s.prefixes ≠ []) := by simp [reading]
  rw [recode_ite]
  apply ite_congr (propext declared)
  · intro _
    rfl
  · intro _
    rw [recode_ite]
    apply ite_congr (propext (not_congr mode_mem))
    · intro _
      rfl
    · intro _
      rfl

/-- One line is read alike. -/
theorem readLine_agrees (js py : LowerCase) (lineno : ℕ) (s : Reading Text) (raw : Text) :
    EvidenceRun.readLine js lineno (reading s) (utf16 raw) =
      recode reading (FvProject.readLine py lineno s raw) := by
  unfold EvidenceRun.readLine FvProject.readLine
  have stripped : strip EvidenceRun.pythonWhitespaceClass (utf16 raw) =
      utf16 (strip FvProject.isSpace raw) := marks_space.strip raw
  rw [stripped]
  generalize strip FvProject.isSpace raw = line
  have skipped : (utf16 line = [] ∨ (units "#").isPrefixOf (utf16 line) = true) ↔
      (line = [] ∨ ['#'].isPrefixOf line = true) :=
    or_congr (text_eq_nil utf16Code) (iff_of_eq (congrArg (· = true) (prefix_utf16 ['#'] line)))
  rw [recode_ite]
  apply ite_congr (propext skipped)
  · intro _
    rfl
  · intro _
    rw [directive_agrees js py line]
    cases FvProject.directiveValue py line with
    | some value => exact readDirective_agrees lineno s value
    | none =>
      simp only [Option.map_none, mode_agrees, entry_agrees]
      exact readEntry_agrees lineno s _ _

theorem readLines_agrees (js py : LowerCase) (lineno : ℕ) (s : Reading Text)
    (lines : List Text) :
    EvidenceRun.readLines js lineno (reading s) (lines.map utf16) =
      recode reading (FvProject.readLines py lineno s lines) := by
  induction lines generalizing lineno s with
  | nil => rfl
  | cons line lines ih =>
    rw [List.map_cons, EvidenceRun.readLines, FvProject.readLines]
    exact recode_bind (readLine_agrees js py lineno s line) (fun s' _ => ih (lineno+1) s')

end Reading

section Parse

/-- A declared mode is one of the two modes. -/
def Known (s : Reading Text) : Prop := ∀ m, s.mode = some m → m ∈ FvProject.policyModes

theorem modeExclude_known : FvProject.modeExclude ∈ FvProject.policyModes := by decide

theorem known_getD {s : Reading Text} (h : Known s) :
    s.mode.getD FvProject.modeExclude ∈ FvProject.policyModes := by
  cases mode : s.mode with
  | none => exact modeExclude_known
  | some m => exact h m mode

theorem readLine_known {l : LowerCase} {lineno : ℕ} {s s' : Reading Text} {raw : Text}
    (h : Known s) (read : FvProject.readLine l lineno s raw = .ok s') : Known s' := by
  have default := known_getD h
  unfold FvProject.readLine at read
  generalize strip FvProject.isSpace raw = line at read
  simp only at read
  split at read
  · exact (pure_ok _ _).mp read ▸ h
  · split at read
    · next value _ =>
      split_ifs at read with _ unknown
      obtain rfl := (pure_ok _ _).mp read
      intro m e
      obtain rfl := Option.some.inj e
      exact unknown
    · generalize (if ['.','/'].isPrefixOf line then line.drop 2 else line) = entry at read
      generalize (if s.mode.getD FvProject.modeExclude = FvProject.modeInclude then "selects"
        else "excludes") = verb at read
      have kept : s'.mode = some (s.mode.getD FvProject.modeExclude) := by
        split_ifs at read
        · rw [← (pure_ok _ _).mp read]
        · rw [← (pure_ok _ _).mp read]
      intro m e
      obtain rfl := Option.some.inj (kept.symm.trans e)
      exact default

theorem readLines_known {l : LowerCase} {lines : List Text} {lineno : ℕ} {s s' : Reading Text}
    (h : Known s) (read : FvProject.readLines l lineno s lines = .ok s') : Known s' := by
  induction lines generalizing lineno s with
  | nil => exact (pure_ok _ _).mp read ▸ h
  | cons line lines ih =>
    rw [FvProject.readLines, bind_ok] at read
    obtain ⟨middle,first,read⟩ := read
    exact ih (readLine_known h first) read

theorem modes_apart : FvProject.modeExclude ≠ FvProject.modeInclude := by decide

/-- The last checks, on lines that declare a mode of the format or none. -/
theorem inputPolicy_agrees {s : Reading Text} (h : Known s) :
    (if (reading s).mode = some EvidenceRun.modeInclude ∧ (reading s).prefixes = [] then
        throw Rejection.noPath
      else (pure ⟨(reading s).mode.getD EvidenceRun.modeExclude,(reading s).prefixes,
        EvidenceRun.defaultExclusions⟩ : Except (Rejection Units) (InputPolicy Units))) =
      recode policy (FvProject.inputPolicy (s.mode.getD FvProject.modeExclude) s.prefixes) := by
  have known := known_getD h
  have empty : ((reading s).mode = some EvidenceRun.modeInclude ∧ (reading s).prefixes = []) ↔
      (s.mode.getD FvProject.modeExclude = FvProject.modeInclude ∧ s.prefixes = []) := by
    apply and_congr
    · cases mode : s.mode with
      | none =>
        apply iff_of_false
        · simp [reading, mode]
        · exact modes_apart
      | some m =>
        have same := modeInclude_agrees m
        simpa [reading, mode] using same
    · simp [reading]
  rw [FvProject.inputPolicy, if_neg (not_not.mpr known), recode_ite]
  apply ite_congr (propext empty)
  · intro _
    rfl
  · intro _
    rw [mode_agrees]
    rfl

/-- The producer reads a text as the checker does, with the same rejection where it is one. -/
theorem parse_agrees (js py : LowerCase) (text : Text) :
    EvidenceRun.parseInputPolicy js (utf16 text) =
      recode policy (FvProject.parsePolicy py text) := by
  unfold EvidenceRun.parseInputPolicy FvProject.parsePolicy
  apply recode_bind (scan_agrees 1 text)
  intro _ scanned
  obtain ⟨tail,split,blank⟩ := splitlines_scanned 1 text scanned
  have lines : splitBreaks (· == EvidenceRun.carriageReturn) (· == EvidenceRun.lineFeed)
      (utf16 text) = (FvProject.splitlines text ++ tail).map utf16 := by
    rw [← split]
    exact splitBreaks_text (marks_char '\r' _ rfl) (marks_char '\n' _ rfl) text
  have start : (⟨none,[]⟩ : Reading Units) = reading ⟨none,[]⟩ := rfl
  simp only [lines, start]
  apply recode_bind
  · rw [readLines_agrees js py, readLines_tail py 1 _ _ blank]
  · intro s read
    have known : Known s := readLines_known (by simp [Known]) read
    exact inputPolicy_agrees known

end Parse

section Selection

theorem utf16_suffix_slash (entry : Text) :
    [EvidenceRun.slash].isSuffixOf (utf16 entry) = ['/'].isSuffixOf entry := by
  rw [Bool.eq_iff_iff, List.isSuffixOf_iff_suffix, List.isSuffixOf_iff_suffix,
    List.singleton_suffix_iff_getLast?_eq_some, List.singleton_suffix_iff_getLast?_eq_some]
  induction entry using List.reverseRecOn with
  | nil => exact iff_of_false (by simp [utf16]) (by simp)
  | append_singleton s a _ =>
    have whole : utf16 (s ++ [a]) = utf16 s ++ charUnits a := by
      rw [utf16, text_append, text_cons, text_nil, List.append_nil]
      rfl
    rw [whole, List.getLast?_append_of_ne_nil _ (charUnits_ne_nil a), List.getLast?_concat]
    by_cases last : a = '/'
    · subst last
      exact iff_of_true rfl rfl
    · have plain := (slash_marks a).2 (by simpa using last)
      apply iff_of_false
      · intro e
        have other := plain _ (List.mem_of_getLast? e)
        simp at other
      · simpa using last

theorem matches_agree (relative : Text) (prefixes : List Text) :
    EvidenceRun.matchesPrefixes (utf16 relative) (prefixes.map utf16) =
      FvProject.matchesPrefixes relative prefixes := by
  unfold EvidenceRun.matchesPrefixes FvProject.matchesPrefixes
  rw [List.any_map]
  apply congrArg (List.any prefixes)
  ext1 entry
  have below : utf16 entry ++ [EvidenceRun.slash] = utf16 (entry ++ ['/']) :=
    (text_append utf16Code entry ['/']).symm
  have same : (utf16 relative == utf16 entry) = (relative == entry) := by
    rw [Bool.eq_iff_iff, beq_iff_eq, beq_iff_eq, utf16_eq]
  simp only [Function.comp_apply, utf16_suffix_slash, prefix_utf16, below, same]

theorem verifiedInputs_agree :
    EvidenceRun.verifiedInputsRelative = utf16 FvProject.verifiedInputsRelative := rfl

theorem selectors_agree (p : InputPolicy Text) :
    EvidenceRun.policySelectors (policy p) = (FvProject.selectors p).map utf16 := by
  have mode : (policy p).mode = EvidenceRun.modeInclude ↔ p.mode = FvProject.modeInclude :=
    modeInclude_agrees p.mode
  have bound : EvidenceRun.verifiedInputsRelative ∈ (policy p).prefixes ↔
      FvProject.verifiedInputsRelative ∈ p.prefixes := by
    rw [verifiedInputs_agree]
    exact utf16_mem
  unfold EvidenceRun.policySelectors FvProject.selectors
  rw [apply_ite (List.map utf16), apply_ite (List.map utf16)]
  apply ite_congr (propext (not_congr mode))
  · intro _
    rfl
  · intro _
    apply ite_congr (propext bound)
    · intro _
      rfl
    · intro _
      rw [List.map_append]
      rfl

/-- Both sides select the same paths under a policy. -/
theorem selects_agree (p : InputPolicy Text) (relative : Text) :
    EvidenceRun.policySelects (utf16 relative) (policy p) = FvProject.selects p relative := by
  have mode : (policy p).mode = EvidenceRun.modeInclude ↔ p.mode = FvProject.modeInclude :=
    modeInclude_agrees p.mode
  have structural : EvidenceRun.matchesPrefixes (utf16 relative) (policy p).structural =
      FvProject.matchesPrefixes relative p.structural := matches_agree relative p.structural
  have declared : EvidenceRun.matchesPrefixes (utf16 relative) (policy p).prefixes =
      FvProject.matchesPrefixes relative p.prefixes := matches_agree relative p.prefixes
  unfold EvidenceRun.policySelects FvProject.selects
  rw [structural, declared, selectors_agree, matches_agree]
  apply ite_congr rfl
  · intro _
    rfl
  · intro _
    apply ite_congr (propext mode)
    · intro _
      rfl
    · intro _
      rfl

theorem bufferBytes_utf16 (path : Text) :
    EvidenceRun.bufferBytes (utf16 path) = utf8Bytes (String.ofList path) := by
  rw [EvidenceRun.bufferBytes, stringPoints_utf16, List.map_map]
  have same : Sum.elim id (fun _ => '\ufffd') ∘ (Sum.inl : Char → Char ⊕ CodeUnit) = id := rfl
  rw [same, List.map_id]

theorem bufferCompare_ne_gt (a b : List UInt8) :
    (EvidenceRun.bufferCompare a b != .gt) = true ↔ a ≤ b := by
  unfold EvidenceRun.bufferCompare
  split_ifs with less same
  · simpa using List.le_of_lt less
  · simp [same]
  · simp only [bne_self_eq_false, Bool.false_eq_true, false_iff]
    intro below
    rcases List.le_iff_lt_or_eq.mp below with h | h
    · exact less h
    · exact same h

/-- Both sides put any list of paths in one order. -/
theorem order_agrees (paths : List Text) :
    EvidenceRun.orderVerifiedInputs (paths.map utf16) =
      (FvProject.orderInputs paths).map utf16 := by
  symm
  apply List.map_insertionSort
  intro a _ b _
  rw [bufferBytes_utf16, bufferBytes_utf16, bufferCompare_ne_gt]

theorem orderInputs_sorted (paths : List Text) : (FvProject.orderInputs paths).Pairwise
    (fun a b => utf8Bytes (String.ofList a) ≤ utf8Bytes (String.ofList b)) := by
  have total : Std.Total
      (fun a b : Text => utf8Bytes (String.ofList a) ≤ utf8Bytes (String.ofList b)) :=
    ⟨fun a b => List.le_total _ _⟩
  have transitive : IsTrans Text
      (fun a b : Text => utf8Bytes (String.ofList a) ≤ utf8Bytes (String.ofList b)) :=
    ⟨fun a b c => List.le_trans⟩
  exact List.pairwise_insertionSort _ paths

/-- The order depends on the paths alone and not on how they were listed. -/
theorem orderInputs_perm {paths paths' : List Text} (h : paths.Perm paths') :
    FvProject.orderInputs paths = FvProject.orderInputs paths' := by
  have perm : (FvProject.orderInputs paths).Perm (FvProject.orderInputs paths') :=
    ((List.perm_insertionSort _ paths).trans h).trans (List.perm_insertionSort _ paths').symm
  apply perm.eq_of_pairwise _ (orderInputs_sorted paths) (orderInputs_sorted paths')
  intro a b _ _ below above
  exact String.ofList_injective (Utf8Order.utf8Bytes_antisymm below above)

/-- One text means one policy on both sides: it is accepted by both or by neither, with the same
mode and prefixes, every path is selected alike, and paths are put in one order. -/
theorem policies_agree (js py : LowerCase) (text : Text) :
    (∀ p, EvidenceRun.parseInputPolicy js (utf16 text) = .ok p ↔
      ∃ q, FvProject.parsePolicy py text = .ok q ∧ p = policy q) ∧
    (∀ q relative, EvidenceRun.policySelects (utf16 relative) (policy q) =
      FvProject.selects q relative) ∧
    ∀ paths paths' : List Text, paths.Perm paths' →
      EvidenceRun.orderVerifiedInputs (paths'.map utf16) =
        (FvProject.orderInputs paths).map utf16 := by
  refine ⟨?_,fun q => selects_agree q,?_⟩
  · intro p
    rw [parse_agrees js py]
    cases FvProject.parsePolicy py text with
    | error e => simp [recode]
    | ok q => simp [recode, eq_comm]
  · intro paths paths' same
    rw [order_agrees, orderInputs_perm same]

/-- Lower-casing of the ASCII letters alone. -/
def asciiLower : LowerCase where
  char _ _ c := [c.toLower]
  ascii _ _ _ _ := rfl
  other _ _ c large := Or.inr ⟨c,by simp [toLower_large large],large⟩

def sampleText : Text := "# scope\r\nMODE: include\n ./src/\n\nдоки\nsrc/\n".toList

def samplePolicy : InputPolicy Text :=
  ⟨"include".toList,["src/".toList,"доки".toList],FvProject.defaultExclusions⟩

theorem sampleText_parsed : FvProject.parsePolicy asciiLower sampleText = .ok samplePolicy := by
  decide +kernel

theorem policies_agree_sample :
    EvidenceRun.parseInputPolicy asciiLower (utf16 sampleText) = .ok (policy samplePolicy) ∧
      EvidenceRun.policySelects (utf16 "src/main.rs".toList) (policy samplePolicy) = true ∧
      EvidenceRun.orderVerifiedInputs ([['b'],['a']].map utf16) =
        (FvProject.orderInputs [['a'],['b']]).map utf16 := by
  have agree := policies_agree asciiLower asciiLower sampleText
  refine ⟨(agree.1 _).mpr ⟨_,sampleText_parsed,rfl⟩,?_,agree.2.2 _ _ (List.Perm.swap _ _ _)⟩
  rw [agree.2.1]
  decide +kernel

end Selection

end VerifiedInputsAgreement

end EvidenceV4
