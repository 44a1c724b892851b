import EvidenceV4.CheckerJson
import Mathlib.Data.List.DropRight
import Mathlib.Data.List.TakeWhile

/-!
# Producer and checker read the same JSON

The parser of the producer and the hooked reader of the checker descend through
a text in the same steps. The producer refuses a bad sign, a lone surrogate or a
repeated key where it meets it, the checker in its hooks and in a later walk.
-/

set_option autoImplicit false

namespace EvidenceV4

namespace JsonAgreement

open CheckedExcept JsonText CheckerJson
open CanonicalJson (Value maxSafeInteger hexDigit tokenValue separated isSafeInteger SignAllowed
  scanString_ok continuesNumber)
open CanonicalRoundTrip (EndsNumber)

section Strings

theorem points_chars (s : String) : (points s).map Char.ofNat = s.toList := by
  rw [points, List.map_map]
  have same : Char.ofNat ∘ Char.toNat = id := by
    ext1 c
    exact Char.ofNat_toNat c
  rw [same, List.map_id]

theorem points_injective : Function.Injective points := by
  intro a b h
  have chars := congrArg (List.map Char.ofNat) h
  rw [points_chars, points_chars] at chars
  exact String.toList_inj.mp chars

theorem points_scalar (s : String) : ∀ p ∈ points s, isSurrogate p = false := by
  intro p hp
  obtain ⟨c,_,rfl⟩ := List.mem_map.mp hp
  exact char_not_surrogate c

theorem scalar_ok (p : PyString) (r : Unit) :
    scalar p = .ok r ↔ ∀ c ∈ p, isSurrogate c = false := by
  unfold scalar
  split
  · next h =>
    obtain ⟨c,hc,bad⟩ := h
    refine iff_of_false (by simp [V4Error]) ?_
    intro all
    rw [all c hc] at bad
    exact Bool.false_ne_true bad
  · next h => simpa using h

theorem isSurrogate_iff (n : ℕ) : isSurrogate n = true ↔ 0xd800 ≤ n ∧ n ≤ 0xdfff := by
  simp [isSurrogate]

/-- Code points without surrogates, each at most the last scalar, spell a string. -/
theorem ofNat_toNat {n : ℕ} (plain : isSurrogate n = false) (bound : n < 0x110000) :
    (Char.ofNat n).toNat = n := by
  have valid : n.isValidChar := by
    have range : ¬ (0xd800 ≤ n ∧ n ≤ 0xdfff) := by
      rw [← isSurrogate_iff]
      simp [plain]
    rcases Nat.lt_or_ge n 0xd800 with low | high
    · exact Or.inl low
    · exact Or.inr ⟨by omega,bound⟩
  rw [Char.ofNat, dif_pos valid]
  rfl

theorem pairPoint_bound {h l : CodeUnit} (high : isHigh h) (low : isLow l) :
    pairPoint h l < 0x110000 := by
  unfold pairPoint
  simp only [isHigh, isLow, Bool.and_eq_true, decide_eq_true_eq] at high low
  generalize h.val = a at *
  generalize l.val = b at *
  omega

theorem codePoints_bound (lexemes : List Lexeme) : ∀ p ∈ codePoints lexemes, p < 0x110000 := by
  have char : ∀ c : Char, c.toNat < 0x110000 := by
    intro c
    have range := char_range c
    omega
  have unit : ∀ u : CodeUnit, u.val < 0x110000 := fun u => u.isLt.trans (by omega)
  induction lexemes using codePoints.induct with
  | case1 => simp [codePoints]
  | case2 c rest ih =>
    rw [codePoints, List.forall_mem_cons]
    exact ⟨char c,ih⟩
  | case3 c rest ih =>
    rw [codePoints, List.forall_mem_cons]
    exact ⟨char c,ih⟩
  | case4 u l rest both ih =>
    obtain ⟨high,low⟩ := Bool.and_eq_true_iff.mp both
    rw [codePoints, if_pos both, List.forall_mem_cons]
    exact ⟨pairPoint_bound high low,ih⟩
  | case5 u l rest apart ih =>
    rw [codePoints, if_neg apart, List.forall_mem_cons]
    exact ⟨unit u,ih⟩
  | case6 u rest other ih =>
    have step : codePoints (.unicode u :: rest) = u.val :: codePoints rest := by
      rw [codePoints]
      exact other
    rw [step, List.forall_mem_cons]
    exact ⟨unit u,ih⟩

/-- The producer reads a string where the checker reads the same one without surrogates. -/
theorem string_iff (s rest : List Char) (v : String) :
    CanonicalJson.string s = .ok (v,rest) ↔
      ∃ lexemes, readString s = some (lexemes,rest) ∧ codePoints lexemes = points v := by
  have decoded : ∀ lexemes, CanonicalJson.assertScalar (lexemes.flatMap lexemeUnits) = .ok v ↔
      codePoints lexemes = points v := by
    intro lexemes
    have both := decodeUnits_lexemes lexemes
    unfold CanonicalJson.assertScalar
    constructor
    · intro h
      split at h
      · next text e =>
        obtain ⟨plain,chars⟩ := (both text).mp e
        obtain rfl := (pure_ok _ _).mp h
        rw [points, String.toList_ofList, ← chars, List.map_map]
        symm
        apply (List.map_congr_left _).trans (List.map_id _)
        intro p hp
        exact ofNat_toNat (plain p hp) (codePoints_bound lexemes p hp)
      · simp at h
    · intro h
      have e : decodeUnits (lexemes.flatMap lexemeUnits) = .ok v.toList := by
        apply (both v.toList).mpr
        rw [h, points_chars]
        exact ⟨points_scalar v,rfl⟩
      rw [e]
      simp only [String.ofList_toList]
      rfl
  simp only [CanonicalJson.string, bind_ok, pure_ok, Prod.exists, Prod.mk.injEq, scanString_ok]
  constructor
  · rintro ⟨lexemes,later,read,u,scalar,rfl,rfl⟩
    exact ⟨lexemes,read,(decoded lexemes).mp scalar⟩
  · rintro ⟨lexemes,read,same⟩
    exact ⟨lexemes,rest,read,v,(decoded lexemes).mpr same,rfl,rfl⟩

end Strings

section Numbers

theorem readFraction_stop {rest : List Char} (h : continuesNumber rest = false) :
    readFraction rest = ([],rest) := by
  unfold readFraction
  split
  · next d later =>
    have point : continuesNumber ('.' :: d :: later) = true := rfl
    rw [h] at point
    exact absurd point Bool.false_ne_true
  · rfl

theorem readExponent_stop {rest : List Char} (h : continuesNumber rest = false) :
    readExponent rest = ([],rest) := by
  unfold readExponent
  split
  · rfl
  · next e later =>
    have other : ¬ (e = 'e' ∨ e = 'E') := by
      rintro (rfl | rfl)
      · exact absurd (h.symm.trans rfl : false = true) Bool.false_ne_true
      · exact absurd (h.symm.trans rfl : false = true) Bool.false_ne_true
    rw [if_neg other]

theorem readFraction_none {rest : List Char} (h : (readFraction rest).1 = []) :
    (readFraction rest).2 = rest := by
  unfold readFraction at h ⊢
  split
  · split_ifs with digit
    · simp [digit] at h
    · rfl
  · rfl

theorem readExponent_none {rest : List Char} (h : (readExponent rest).1 = []) :
    (readExponent rest).2 = rest := by
  unfold readExponent at h ⊢
  split
  · rfl
  · simp only at h ⊢
    split_ifs with mark digits
    · rw [if_pos mark, if_pos digits] at h
      exact absurd h (List.cons_ne_nil _ _)
    · rfl
    · rfl

/-- The tokens of the grammar without their sign. -/
theorem readDigits_token {s token rest : List Char} (h : readDigits s = some (token,rest)) :
    token = ['0'] ∨ ∃ c ds, token = c :: ds ∧ c ≠ '0' ∧ ∀ d ∈ token, JsonText.isDigit d := by
  unfold readDigits at h
  split at h
  · simp at h
  · next c later =>
    split_ifs at h with zero digit
    · simp only [Option.some.injEq, Prod.mk.injEq] at h
      exact Or.inl (by rw [← h.1, zero])
    · simp only [Option.some.injEq, Prod.mk.injEq] at h
      refine Or.inr ⟨c,_,h.1.symm,zero,?_⟩
      rw [← h.1, List.forall_mem_cons]
      exact ⟨digit,fun d hd => (List.mem_takeWhile_imp hd)⟩

theorem readDigits_again {s token rest : List Char} (h : readDigits s = some (token,rest)) :
    readDigits token = some (token,[]) := by
  rcases readDigits_token h with rfl | ⟨c,ds,rfl,nonzero,digits⟩
  · rfl
  · have tail : ∀ d ∈ ds, JsonText.isDigit d := fun d hd => digits d (List.mem_cons_of_mem _ hd)
    obtain ⟨taken,left⟩ := CanonicalRoundTrip.span_digits tail (show EndsNumber [] from rfl)
    rw [List.append_nil] at taken left
    rw [readDigits, if_neg nonzero, if_pos (digits c List.mem_cons_self), taken, left]

/-- Seventeen digits are beyond the safe range. -/
theorem readDigits_large {s token rest : List Char} (h : readDigits s = some (token,rest))
    (long : 16 < token.length) : maxSafeInteger < Nat.ofDigitChars 10 token 0 := by
  rcases readDigits_token h with rfl | ⟨c,ds,rfl,nonzero,digits⟩
  · simp at long
  · have digit := digits c List.mem_cons_self
    simp only [JsonText.isDigit, Bool.and_eq_true, decide_eq_true_eq] at digit
    have first : c.toNat ≠ 48 := by
      intro e
      apply nonzero
      rw [← Char.ofNat_toNat c, e]
    rw [Nat.ofDigitChars_cons, Nat.ofDigitChars_eq_ofDigitChars_zero]
    have power : 10^16 ≤ 10^ds.length :=
      Nat.pow_le_pow_right (by omega) (Nat.lt_succ_iff.mp long)
    have lead : 1 ≤ 10 * 0 + (c.toNat - '0'.toNat) := by
      show 1 ≤ 10 * 0 + (c.toNat - 48)
      omega
    calc maxSafeInteger < 10^16 := by decide
      _ ≤ 10^ds.length := power
      _ ≤ 10^ds.length * (10 * 0 + (c.toNat - '0'.toNat)) := Nat.le_mul_of_pos_right _ lead
      _ ≤ _ := Nat.le_add_right _ _

theorem readDigits_head {s token rest : List Char} (h : readDigits s = some (token,rest)) :
    ∃ c ds, token = c :: ds ∧ c ≠ '-' := by
  rcases readDigits_token h with rfl | ⟨c,ds,rfl,_,digits⟩
  · exact ⟨'0',[],rfl,by decide⟩
  · refine ⟨c,ds,rfl,?_⟩
    rintro rfl
    exact absurd (digits '-' List.mem_cons_self) (by decide)

/-- A token is plain digits or a minus and digits. -/
theorem readInteger_cases {s token rest : List Char} (h : readInteger s = some (token,rest)) :
    ∃ digits s', readDigits s' = some (digits,rest) ∧
      (token = digits ∨ token = '-' :: digits) := by
  unfold readInteger at h
  split at h
  · simp at h
  · split_ifs at h
    · obtain ⟨r,hr,e⟩ := Option.map_eq_some_iff.mp h
      obtain ⟨rfl,rfl⟩ := Prod.mk.inj e
      exact ⟨r.1,_,hr,Or.inr rfl⟩
    · exact ⟨token,_,h,Or.inl rfl⟩

theorem integerSpelling_token {s token rest : List Char} (h : readInteger s = some (token,rest)) :
    integerSpelling token = true := by
  obtain ⟨digits,s',read,rfl | rfl⟩ := readInteger_cases h
  · obtain ⟨c,ds,rfl,plain⟩ := readDigits_head read
    rw [integerSpelling, readInteger, if_neg plain, readDigits_again read]
  · rw [integerSpelling, readInteger, if_pos rfl, readDigits_again read]
    rfl

theorem token_magnitude {s token rest : List Char} (h : readInteger s = some (token,rest)) :
    16 < (token.dropWhile (fun c => c == '-')).length →
      maxSafeInteger < (tokenValue token).natAbs := by
  obtain ⟨digits,s',read,rfl | rfl⟩ := readInteger_cases h
  · obtain ⟨c,ds,rfl,plain⟩ := readDigits_head read
    intro long
    have value : tokenValue (c :: ds) = Nat.ofDigitChars 10 (c :: ds) 0 := by
      unfold tokenValue
      split
      · next e => exact absurd (List.cons.inj e).1 plain
      · rfl
    rw [value, Int.natAbs_natCast]
    apply readDigits_large read
    simpa [List.dropWhile_cons, plain] using long
  · obtain ⟨c,ds,rfl,plain⟩ := readDigits_head read
    intro long
    rw [tokenValue, Int.natAbs_neg, Int.natAbs_natCast]
    apply readDigits_large read
    simpa [List.dropWhile_cons, plain] using long

/-- What the integer hook accepts among the tokens of the grammar. -/
theorem integer_ok {s token rest : List Char} (h : readInteger s = some (token,rest)) (n : ℤ) :
    integer token = .ok n ↔ token ≠ ['-','0'] ∧ isSafeInteger (tokenValue token) ∧
      tokenValue token = n := by
  have spelling := integerSpelling_token h
  have magnitude := token_magnitude h
  unfold integer isSafeInteger
  rw [decide_eq_true_eq]
  split_ifs with minus long large
  · simp only [spelling, Bool.true_eq_false, or_false] at minus
    simp [V4Error, minus]
  · have beyond := magnitude long
    simp only [V4Error, throw_ok, false_iff]
    omega
  · simp only [V4Error, throw_ok, false_iff]
    omega
  · simp only [spelling, Bool.true_eq_false, or_false] at minus
    simp [minus, not_lt.mp large]

theorem isSafeInteger_iff (n : ℤ) : isSafeInteger n = true ↔ n.natAbs ≤ maxSafeInteger := by
  simp [isSafeInteger]

theorem grammar_number (field : Option String) (n : ℤ) (r : Unit) :
    grammar (field.map points) (.number n) = .ok r ↔ isSafeInteger n ∧ SignAllowed field n := by
  have code : field.map points = some (points "exit_code") ↔ field = some "exit_code" := by
    cases field with
    | none => simp
    | some name => simp [points_injective.eq_iff]
  unfold grammar
  rw [isSafeInteger_iff, SignAllowed, ← code]
  by_cases exit : field.map points = some (points "exit_code")
  · simp only [exit, ne_eq, not_true_eq_false, and_false, or_false, or_true, and_true]
    split_ifs with large
    · simp [V4Error, large]
    · simp [not_lt.mp large]
  · simp only [exit, ne_eq, not_false_eq_true, and_true, or_false]
    split_ifs with bad
    · simp only [V4Error, throw_ok, false_iff]
      omega
    · simp only [pure_ok, true_iff]
      omega

/-- A number is not cut off before a fraction, an exponent or another digit. -/
def Complete (v : Value) (rest : List Char) : Prop := (∃ n, v = .number n) → EndsNumber rest

theorem toPython_number {v : Value} {n : ℤ} (h : toPython v = .number n) : v = .number n := by
  cases v <;> simp_all [toPython]

theorem number_iff (field : Option String) (s rest : List Char) (v : Value) :
    CanonicalJson.number field s = .ok (v,rest) ↔
      readNumber hooks s = .ok (toPython v,rest) ∧
        grammar (field.map points) (toPython v) = .ok () ∧ Complete v rest := by
  unfold CanonicalJson.number readNumber
  cases read : readInteger s with
  | none => simp
  | some r =>
    obtain ⟨token,later⟩ := r
    simp only
    constructor
    · intro h
      split_ifs at h with spelling accepted
      · simp at h
      · simp only [pure_ok, Prod.mk.injEq] at h
        obtain ⟨rfl,rfl⟩ := h
        obtain ⟨minus,ends⟩ := not_or.mp spelling
        have stop : continuesNumber later = false := by simpa using ends
        have value := (integer_ok read _).mpr ⟨minus,accepted.1,rfl⟩
        rw [readFraction_stop stop, readExponent_stop stop]
        simp only [and_self, if_true, toPython, grammar_number]
        refine ⟨?_,accepted,fun _ => stop⟩
        simp [hooks, value, bind, Except.bind, pure, Except.pure]
      · simp at h
    · rintro ⟨h,walk,complete⟩
      split_ifs at h with whole
      · simp only [bind_ok, pure_ok, Prod.mk.injEq] at h
        obtain ⟨n,value,same,rfl⟩ := h
        obtain rfl := toPython_number same.symm
        obtain ⟨minus,safe,rfl⟩ := (integer_ok read n).mp value
        rw [toPython, grammar_number] at walk
        have ends := complete ⟨_,rfl⟩
        rw [readExponent_none whole.2, readFraction_none whole.1] at ends ⊢
        have stop : ¬ (token = ['-','0'] ∨ continuesNumber later = true) :=
          not_or.mpr ⟨minus,by simp [show continuesNumber later = false from ends]⟩
        rw [if_neg stop, if_pos walk]
        rfl
      · simp [hooks, reject] at h

theorem words_prefix (s : List Char) :
    (CanonicalJson.words.find? (fun w => w.1.isPrefixOf s)).map (fun w => (w.1,toPython w.2)) =
      literals.find? (fun w => w.1.isPrefixOf s) := by
  cases s with
  | nil => rfl
  | cons c s =>
    by_cases t : c = 't'
    · subst t
      cases h : ['r','u','e'].isPrefixOf s <;>
        simp [CanonicalJson.words, literals, List.find?, List.isPrefixOf, h, toPython]
    · by_cases f : c = 'f'
      · subst f
        cases h : ['a','l','s','e'].isPrefixOf s <;>
          simp [CanonicalJson.words, literals, List.find?, List.isPrefixOf, h, toPython]
      · by_cases n : c = 'n'
        · subst n
          cases h : ['u','l','l'].isPrefixOf s <;>
            simp [CanonicalJson.words, literals, List.find?, List.isPrefixOf, h, toPython]
        · have t' : ('t' == c) = false := by simp [Ne.symm t]
          have f' : ('f' == c) = false := by simp [Ne.symm f]
          have n' : ('n' == c) = false := by simp [Ne.symm n]
          simp [CanonicalJson.words, literals, List.find?, List.isPrefixOf, t', f', n']

end Numbers

section Walk

theorem pairs_run (entries result : List (PyString × PyValue))
    (final : List (PyString × PyValue)) (fresh : (result.map Prod.fst).Nodup) :
    entries.foldlM addPair result = .ok final ↔
      final = result ++ entries ∧ ((result ++ entries).map Prod.fst).Nodup := by
  induction entries generalizing result with
  | nil =>
    simp only [List.foldlM_nil, pure_ok, List.append_nil]
    exact ⟨fun h => ⟨h.symm,fresh⟩,fun h => h.1.symm⟩
  | cons e entries ih =>
    simp only [List.foldlM_cons, addPair, bind_ok]
    split_ifs with old
    · refine iff_of_false (by simp) ?_
      rintro ⟨_,distinct⟩
      rw [List.map_append, List.map_cons, List.nodup_append] at distinct
      exact distinct.2.2 e.1 old e.1 List.mem_cons_self rfl
    · have fresh' : ((result ++ [e]).map Prod.fst).Nodup := by
        rw [List.map_append, List.nodup_append]
        refine ⟨fresh,by simp,?_⟩
        rintro a ha b hb rfl
        obtain rfl : a = e.1 := by simpa using hb
        exact old ha
      simp only [pure_ok, exists_eq_left', ih _ fresh', List.append_assoc, List.singleton_append]

/-- The pairs hook keeps the entries of an object with distinct keys. -/
theorem pairs_ok (entries final : List (PyString × PyValue)) :
    pairs entries = .ok final ↔ final = entries ∧ (entries.map Prod.fst).Nodup :=
  pairs_run entries [] final (by simp)

def toPythonField (p : String × Value) : PyString × PyValue := (points p.1,toPython p.2)

theorem toPythonEntries_eq (entries : List Value) :
    toPythonEntries entries = entries.map toPython := by
  induction entries with
  | nil => rfl
  | cons e rest ih => rw [toPythonEntries, ih, List.map_cons]

theorem toPythonFields_eq (fields : List (String × Value)) :
    toPythonFields fields = fields.map toPythonField := by
  induction fields with
  | nil => rfl
  | cons p rest ih =>
    rw [toPythonFields, ih, List.map_cons]
    rfl

theorem grammarEntries_ok (entries : List PyValue) (r : Unit) :
    grammarEntries entries = .ok r ↔ ∀ e ∈ entries, grammar none e = .ok () := by
  induction entries with
  | nil => simp [grammarEntries]
  | cons e rest ih => simp [grammarEntries, ih]

theorem grammarFields_ok (fields : List (PyString × PyValue)) (r : Unit) :
    grammarFields fields = .ok r ↔
      ∀ p ∈ fields, scalar p.1 = .ok () ∧ grammar (some p.1) p.2 = .ok () := by
  induction fields with
  | nil => simp [grammarFields]
  | cons p rest ih => simp [grammarFields, ih, and_assoc]

theorem scalar_points (s : String) : scalar (points s) = .ok () :=
  (scalar_ok _ _).mpr (points_scalar s)

theorem grammar_array (field : Option PyString) (entries : List Value) :
    grammar field (toPython (.array entries)) = .ok () ↔
      ∀ e ∈ entries, grammar none (toPython e) = .ok () := by
  rw [toPython, grammar, grammarEntries_ok, toPythonEntries_eq]
  simp

theorem grammar_object (field : Option PyString) (fields : List (String × Value)) :
    grammar field (toPython (.object fields)) = .ok () ↔
      ∀ p ∈ fields, grammar (some (points p.1)) (toPython p.2) = .ok () := by
  rw [toPython, grammar, grammarFields_ok, toPythonFields_eq]
  simp only [List.forall_mem_map, toPythonField, scalar_points, true_and]

theorem exists_points {p : PyString} (h : scalar p = .ok ()) (bound : ∀ c ∈ p, c < 0x110000) :
    ∃ s, points s = p := by
  refine ⟨String.ofList (p.map Char.ofNat),?_⟩
  rw [points, String.toList_ofList, List.map_map]
  apply (List.map_congr_left _).trans (List.map_id _)
  intro c hc
  exact ofNat_toNat ((scalar_ok p ()).mp h c hc) (bound c hc)

end Walk

section Forward

theorem toPython_object (fields : List (String × Value)) :
    toPython (.object fields) = .object (fields.map toPythonField) := by
  rw [toPython, toPythonFields_eq]

theorem toPython_array (entries : List Value) :
    toPython (.array entries) = .array (entries.map toPython) := by
  rw [toPython, toPythonEntries_eq]

theorem keys_nodup {fields : List (String × Value)} (h : (fields.map Prod.fst).Nodup) :
    ((fields.map toPythonField).map Prod.fst).Nodup := by
  have keys : (fields.map toPythonField).map Prod.fst = (fields.map Prod.fst).map points := by
    rw [List.map_map, List.map_map]
    rfl
  rw [keys]
  exact h.map points_injective

theorem pairs_fields {fields : List (String × Value)} (h : (fields.map Prod.fst).Nodup) :
    hooks.pairs (fields.map toPythonField) = .ok (fields.map toPythonField) :=
  (pairs_ok _ _).mpr ⟨rfl,keys_nodup h⟩

theorem append_nodup {result : List (String × Value)} (h : (result.map Prod.fst).Nodup)
    {key : String} (v : Value) (fresh : key ∉ result.map Prod.fst) :
    ((result ++ [(key,v)]).map Prod.fst).Nodup := by
  rw [List.map_append, List.nodup_append]
  refine ⟨h,by simp,?_⟩
  rintro a ha b hb rfl
  obtain rfl : a = key := by simpa using hb
  exact fresh ha

theorem skipWhitespace_twice (s : List Char) :
    skipWhitespace (skipWhitespace s) = skipWhitespace s :=
  List.dropWhile_idempotent isWhitespace s

theorem complete_literal {word : List Char × Value} (h : word ∈ CanonicalJson.words)
    (field : Option PyString) (rest : List Char) :
    grammar field (toPython word.2) = .ok () ∧ Complete word.2 rest := by
  simp only [CanonicalJson.words, List.mem_cons, List.not_mem_nil, or_false] at h
  rcases h with rfl | rfl | rfl <;> simp [toPython, grammar, Complete]

theorem toPython_literal {word : List Char × Value} (h : word ∈ CanonicalJson.words) {v : Value}
    (same : toPython v = toPython word.2) : v = word.2 := by
  simp only [CanonicalJson.words, List.mem_cons, List.not_mem_nil, or_false] at h
  rcases h with rfl | rfl | rfl <;> cases v <;> simp_all [toPython]

/-- A literal or a number. -/
theorem atom_iff (field : Option String) (s rest : List Char) (v : Value) :
    CanonicalJson.atom field s = .ok (v,rest) ↔
      readAtom hooks s = .ok (toPython v,rest) ∧
        grammar (field.map points) (toPython v) = .ok () ∧ Complete v rest := by
  have found := words_prefix s
  unfold CanonicalJson.atom readAtom
  cases word : CanonicalJson.words.find? (fun w => w.1.isPrefixOf s) with
  | some w =>
    rw [word, Option.map_some] at found
    rw [← found]
    have inside := List.mem_of_find?_eq_some word
    simp only [pure_ok, Prod.mk.injEq]
    constructor
    · rintro ⟨rfl,rfl⟩
      exact ⟨⟨rfl,rfl⟩,complete_literal inside _ _⟩
    · rintro ⟨⟨same,left⟩,_⟩
      exact ⟨(toPython_literal inside same.symm).symm,left⟩
  | none =>
    rw [word, Option.map_none] at found
    rw [← found]
    simp only
    cases read : readInteger s with
    | some r => exact number_iff field s rest v
    | none =>
      have refused : CanonicalJson.number field s = .error (.stopped s 0 "value required") := by
        rw [CanonicalJson.number, read]
        rfl
      rw [refused]
      simp only [reduceCtorEq, false_iff, not_and]
      intro h
      split at h
      · simp [hooks, reject] at h
      · simp at h

theorem endsNumber_skip {s : List Char} (h : EndsNumber (skipWhitespace s)) : EndsNumber s := by
  cases s with
  | nil => rfl
  | cons c s =>
    by_cases space : isWhitespace c
    · simp only [isWhitespace, Bool.or_eq_true, beq_iff_eq] at space
      rcases space with ((rfl | rfl) | rfl) | rfl <;> rfl
    · rwa [CanonicalRoundTrip.skipWhitespace_head s (by simpa using space)] at h

/-- What the producer reads, the checker reads and does not refuse. -/
theorem value_read (n : ℕ) :
    (∀ field s v rest, CanonicalJson.value n field s = .ok (v,rest) →
      readValue hooks n (skipWhitespace s) = .ok (toPython v,rest) ∧
        grammar (field.map points) (toPython v) = .ok ()) ∧
    (∀ result s v rest, (result.map Prod.fst).Nodup →
      CanonicalJson.members n result s = .ok (v,rest) →
      ∃ more, v = .object (result ++ more) ∧
        readMembers hooks n (result.map toPythonField) s = .ok (toPython v,rest) ∧
        ∀ p ∈ more, grammar (some (points p.1)) (toPython p.2) = .ok ()) ∧
    (∀ result s v rest, CanonicalJson.elements n result s = .ok (v,rest) →
      ∃ more, v = .array (result ++ more) ∧
        readElements hooks n (result.map toPython) (skipWhitespace s) = .ok (toPython v,rest) ∧
        ∀ e ∈ more, grammar none (toPython e) = .ok ()) := by
  induction n with
  | zero => simp [CanonicalJson.value, CanonicalJson.members, CanonicalJson.elements]
  | succ n ih =>
    obtain ⟨values,objects,arrays⟩ := ih
    refine ⟨?_,?_,?_⟩
    · intro field s v rest h
      unfold CanonicalJson.value at h
      generalize skipWhitespace s = t at h ⊢
      split at h
      · simp only [bind_ok, pure_ok, Prod.mk.injEq, Prod.exists] at h
        obtain ⟨text,later,read,rfl,rfl⟩ := h
        obtain ⟨lexemes,lexed,same⟩ := (string_iff _ _ _).mp read
        rw [readValue_string hooks n lexed, toPython, ← same]
        refine ⟨rfl,?_⟩
        rw [same]
        exact scalar_points text
      · split at h
        · next close =>
          simp only [pure_ok, Prod.mk.injEq] at h
          obtain ⟨rfl,rfl⟩ := h
          rw [readValue_object_close hooks n close]
          exact ⟨rfl,rfl⟩
        · next more =>
          rw [readValue_object hooks n more]
          obtain ⟨_,rfl,read,walk⟩ := objects [] _ v rest (by simp) h
          exact ⟨read,(grammar_object _ _).mpr walk⟩
      · split at h
        · next close =>
          simp only [pure_ok, Prod.mk.injEq] at h
          obtain ⟨rfl,rfl⟩ := h
          rw [readValue_array_close hooks n close]
          exact ⟨rfl,rfl⟩
        · next more =>
          rw [readValue_array hooks n more]
          obtain ⟨_,rfl,read,walk⟩ := arrays [] _ v rest h
          rw [skipWhitespace_twice] at read
          exact ⟨read,(grammar_array _ _).mpr walk⟩
      · next quote brace bracket =>
        rw [readValue_atom hooks n quote brace bracket]
        obtain ⟨read,walk,_⟩ := (atom_iff _ _ _ _).mp h
        exact ⟨read,walk⟩
    · intro result s v rest distinct h
      unfold CanonicalJson.members at h
      split at h
      · simp only [bind_ok, Prod.exists] at h
        obtain ⟨key,later,read,h⟩ := h
        obtain ⟨lexemes,lexed,same⟩ := (string_iff _ _ _).mp read
        split_ifs at h with old
        · simp at h
        · split at h
          · next colon =>
            simp only [bind_ok, Prod.exists] at h
            obtain ⟨x,last,entry,h⟩ := h
            obtain ⟨entry,walk⟩ := values _ _ _ _ entry
            have distinct' := append_nodup distinct x old
            have seen : result.map toPythonField ++ [(hooks.string lexemes,toPython x)] =
                (result ++ [(key,x)]).map toPythonField := by
              rw [List.map_append, List.map_singleton, toPythonField, ← same]
              rfl
            split at h
            · next close =>
              simp only [pure_ok, Prod.mk.injEq] at h
              obtain ⟨rfl,rfl⟩ := h
              refine ⟨[(key,x)],rfl,?_,by simpa using walk⟩
              rw [readMembers_close hooks _ lexed colon entry close, seen,
                pairs_fields distinct', toPython_object]
              rfl
            · next comma =>
              obtain ⟨more,rfl,read,each⟩ := objects _ _ v rest distinct' h
              refine ⟨(key,x) :: more,by simp,?_,List.forall_mem_cons.mpr ⟨walk,each⟩⟩
              rw [readMembers_comma hooks _ lexed colon entry comma, seen]
              exact read
            · simp at h
          · simp at h
      · simp at h
    · intro result s v rest h
      unfold CanonicalJson.elements at h
      simp only [bind_ok, Prod.exists] at h
      obtain ⟨x,last,entry,h⟩ := h
      obtain ⟨entry,walk⟩ := values _ _ _ _ entry
      have seen : result.map toPython ++ [toPython x] = (result ++ [x]).map toPython := by
        rw [List.map_append, List.map_singleton]
      split at h
      · next close =>
        simp only [pure_ok, Prod.mk.injEq] at h
        obtain ⟨rfl,rfl⟩ := h
        refine ⟨[x],rfl,?_,by simpa using walk⟩
        rw [readElements_close hooks _ entry close, seen, toPython_array]
      · next comma =>
        obtain ⟨more,rfl,read,each⟩ := arrays _ _ v rest h
        refine ⟨x :: more,by simp,?_,List.forall_mem_cons.mpr ⟨walk,each⟩⟩
        rw [readElements_comma hooks _ entry comma, seen]
        exact read
      · simp at h

end Forward

section Backward

/-- The members that are read follow those that were seen. -/
theorem readMembers_object (n : ℕ) {seen : List (PyString × PyValue)} {s rest : List Char}
    {w : PyValue} (h : readMembers hooks n seen s = .ok (w,rest)) :
    ∃ more, w = .object (seen ++ more) ∧ ((seen ++ more).map Prod.fst).Nodup := by
  induction n generalizing seen s with
  | zero => simp [readMembers] at h
  | succ n ih =>
    unfold readMembers at h
    split at h
    · split at h
      · next lexemes later read =>
        split at h
        · simp only [bind_ok, Prod.exists] at h
          obtain ⟨x,last,_,h⟩ := h
          split at h
          · simp only [bind_ok, pure_ok, Prod.mk.injEq] at h
            obtain ⟨fields,kept,rfl,_⟩ := h
            obtain ⟨rfl,distinct⟩ := (pairs_ok _ _).mp kept
            exact ⟨_,rfl,distinct⟩
          · obtain ⟨more,rfl,distinct⟩ := ih h
            exact ⟨(hooks.string lexemes,x) :: more,by simp,by simpa using distinct⟩
          · simp at h
        · simp at h
      · simp at h
    · simp at h

/-- The entries that are read follow those that were seen. -/
theorem readElements_array (n : ℕ) {seen : List PyValue} {s rest : List Char} {w : PyValue}
    (h : readElements hooks n seen s = .ok (w,rest)) : ∃ more, w = .array (seen ++ more) := by
  induction n generalizing seen s with
  | zero => simp [readElements] at h
  | succ n ih =>
    unfold readElements at h
    simp only [bind_ok, Prod.exists] at h
    obtain ⟨x,last,_,h⟩ := h
    split at h
    · simp only [pure_ok, Prod.mk.injEq] at h
      exact ⟨[x],h.1.symm⟩
    · obtain ⟨more,rfl⟩ := ih h
      exact ⟨x :: more,by simp⟩
    · simp at h

/-- What the reader gives for an atom is a value of the producer. -/
theorem readAtom_value {s rest : List Char} {w : PyValue}
    (h : readAtom hooks s = .ok (w,rest)) : ∃ v, w = toPython v := by
  unfold readAtom at h
  split at h
  · next word value found =>
    simp only [pure_ok, Prod.mk.injEq] at h
    rw [← h.1]
    have inside := List.mem_of_find?_eq_some found
    simp only [literals, List.mem_cons, Prod.mk.injEq, List.not_mem_nil, or_false] at inside
    rcases inside with ⟨_,rfl⟩ | ⟨_,rfl⟩ | ⟨_,rfl⟩
    · exact ⟨.null,rfl⟩
    · exact ⟨.bool true,rfl⟩
    · exact ⟨.bool false,rfl⟩
  · split at h
    · unfold readNumber at h
      split at h
      · simp at h
      · simp only at h
        split_ifs at h
        · simp only [bind_ok, pure_ok, Prod.mk.injEq] at h
          obtain ⟨m,_,rfl,_⟩ := h
          exact ⟨.number m,rfl⟩
        · simp [hooks, reject] at h
    · split at h
      · simp [hooks, reject] at h
      · simp at h

/-- A literal whose code points are scalars is a string of the producer. -/
theorem string_read {s rest : List Char} {lexemes : List Lexeme}
    (read : readString s = some (lexemes,rest)) (walk : scalar (codePoints lexemes) = .ok ()) :
    ∃ v, codePoints lexemes = points v ∧ CanonicalJson.string s = .ok (v,rest) := by
  obtain ⟨v,same⟩ := exists_points walk (codePoints_bound lexemes)
  exact ⟨v,same.symm,(string_iff _ _ _).mpr ⟨lexemes,read,same.symm⟩⟩

theorem keys_fresh {result : List (String × Value)} {key : String} {x : PyValue}
    {more : List (PyString × PyValue)}
    (h : ((result.map toPythonField ++ (points key,x) :: more).map Prod.fst).Nodup) :
    key ∉ result.map Prod.fst := by
  intro old
  obtain ⟨p,hp,rfl⟩ := List.mem_map.mp old
  rw [List.map_append, List.nodup_append] at h
  apply h.2.2 (points p.1) _ (points p.1) List.mem_cons_self rfl
  exact List.mem_map.mpr ⟨toPythonField p,List.mem_map.mpr ⟨p,hp,rfl⟩,rfl⟩

/-- A bound at which the producer reads the values that the checker reads. -/
def ReadsValues (n : ℕ) : Prop := ∀ field s w rest,
  readValue hooks n (skipWhitespace s) = .ok (w,rest) →
    grammar (field.map points) w = .ok () → EndsNumber rest →
    ∃ v, w = toPython v ∧ CanonicalJson.value n field s = .ok (v,rest)

theorem member_read {n : ℕ} (values : ReadsValues n) {result : List (String × Value)}
    {s later after last : List Char} {lexemes : List Lexeme} {x : PyValue}
    {tail : List (PyString × PyValue)} (read : readString s = some (lexemes,later))
    (entry : readValue hooks n (skipWhitespace after) = .ok (x,last)) (ends : EndsNumber last)
    (walk : grammar none (.object (result.map toPythonField ++ (codePoints lexemes,x) :: tail)) =
      .ok ())
    (distinct : ((result.map toPythonField ++ (codePoints lexemes,x) :: tail).map Prod.fst).Nodup) :
    ∃ key v, result.map toPythonField ++ [(codePoints lexemes,x)] =
        (result ++ [(key,v)]).map toPythonField ∧
      key ∉ result.map Prod.fst ∧ CanonicalJson.string s = .ok (key,later) ∧
      CanonicalJson.value n (some key) after = .ok (v,last) := by
  rw [grammar, grammarFields_ok] at walk
  obtain ⟨plain,inner⟩ := walk (codePoints lexemes,x) (by simp)
  obtain ⟨key,same,text⟩ := string_read read plain
  simp only [same] at inner distinct ⊢
  obtain ⟨v,rfl,value⟩ := values (some key) after x last entry inner ends
  refine ⟨key,v,?_,keys_fresh distinct,text,value⟩
  rw [List.map_append, List.map_singleton]
  rfl

theorem endsNumber_before {s rest : List Char} {c : Char} (h : skipWhitespace s = c :: rest)
    (mark : c = ',' ∨ c = ']' ∨ c = '\x7d') : EndsNumber s := by
  apply endsNumber_skip
  rw [h]
  exact CanonicalRoundTrip.endsNumber_delimiter mark rest

/-- What the checker reads and does not refuse, the producer reads. -/
theorem read_value (n : ℕ) :
    ReadsValues n ∧
    (∀ result s w rest, readMembers hooks n (result.map toPythonField) s = .ok (w,rest) →
      grammar none w = .ok () →
      ∃ v, w = toPython v ∧ CanonicalJson.members n result s = .ok (v,rest)) ∧
    (∀ result s w rest,
      readElements hooks n (result.map toPython) (skipWhitespace s) = .ok (w,rest) →
      grammar none w = .ok () →
      ∃ v, w = toPython v ∧ CanonicalJson.elements n result s = .ok (v,rest)) := by
  induction n with
  | zero => simp [ReadsValues, readValue, readMembers, readElements]
  | succ n ih =>
    obtain ⟨values,objects,arrays⟩ := ih
    refine ⟨?_,?_,?_⟩
    · intro field s w rest h walk ends
      generalize start : skipWhitespace s = t at h
      unfold readValue at h
      split at h
      · split at h
        · next read =>
          simp only [pure_ok, Prod.mk.injEq] at h
          obtain ⟨rfl,rfl⟩ := h
          obtain ⟨v,same,text⟩ := string_read read walk
          refine ⟨.string v,congrArg Json.string same,?_⟩
          exact CanonicalJson.value_string_of start text
        · simp at h
      · split at h
        · next close =>
          simp only [bind_ok, pure_ok, Prod.mk.injEq] at h
          obtain ⟨fields,kept,rfl,rfl⟩ := h
          obtain ⟨rfl,_⟩ := (pairs_ok _ _).mp kept
          exact ⟨.object [],rfl,CanonicalJson.value_object_close start close⟩
        · next more =>
          rw [CanonicalJson.value_object start more]
          obtain ⟨_,rfl,_⟩ := readMembers_object n h
          exact objects [] _ _ rest h walk
      · split at h
        · next close =>
          simp only [pure_ok, Prod.mk.injEq] at h
          obtain ⟨rfl,rfl⟩ := h
          exact ⟨.array [],rfl,CanonicalJson.value_array_close start close⟩
        · next more =>
          rw [CanonicalJson.value_array start more]
          obtain ⟨_,rfl⟩ := readElements_array n h
          rw [← skipWhitespace_twice] at h
          exact arrays [] _ _ rest h walk
      · next quote brace bracket =>
        subst start
        rw [CanonicalJson.value_atom quote brace bracket]
        obtain ⟨v,rfl⟩ := readAtom_value h
        exact ⟨v,rfl,(atom_iff _ _ _ _).mpr ⟨h,walk,fun _ => ends⟩⟩
    · intro result s w rest h walk
      unfold readMembers at h
      split at h
      · split at h
        · next lexemes later read =>
          split at h
          · next colon =>
            simp only [bind_ok, Prod.exists] at h
            obtain ⟨x,last,entry,h⟩ := h
            split at h
            · next close =>
              simp only [bind_ok, pure_ok, Prod.mk.injEq] at h
              obtain ⟨fields,kept,rfl,rfl⟩ := h
              obtain ⟨rfl,distinct⟩ := (pairs_ok _ _).mp kept
              have ends := endsNumber_before close (by simp)
              obtain ⟨key,v,same,fresh,text,value⟩ :=
                member_read values read entry ends walk distinct
              refine ⟨.object (result ++ [(key,v)]),?_,?_⟩
              · rw [toPython_object, ← same]
                rfl
              · exact CanonicalJson.members_close text fresh colon value close
            · next comma =>
              obtain ⟨more,rfl,distinct⟩ := readMembers_object n h
              have ends := endsNumber_before comma (by simp)
              rw [List.append_assoc, List.singleton_append] at walk distinct
              obtain ⟨key,v,same,fresh,text,value⟩ :=
                member_read values read entry ends walk distinct
              rw [← List.singleton_append, ← List.append_assoc] at walk
              rw [show hooks.string lexemes = codePoints lexemes from rfl, same] at h walk ⊢
              rw [CanonicalJson.members_comma text fresh colon value comma]
              exact objects _ _ _ rest h walk
            · simp at h
          · simp at h
        · simp at h
      · simp at h
    · intro result s w rest h walk
      unfold readElements at h
      simp only [bind_ok, Prod.exists] at h
      obtain ⟨x,last,entry,h⟩ := h
      split at h
      · next close =>
        simp only [pure_ok, Prod.mk.injEq] at h
        obtain ⟨rfl,rfl⟩ := h
        rw [grammar, grammarEntries_ok] at walk
        obtain ⟨v,rfl,value⟩ := values none _ _ _ entry (walk x (by simp))
          (endsNumber_before close (by simp))
        exact ⟨.array (result ++ [v]),by simp [toPython_array],
          CanonicalJson.elements_close result value close⟩
      · next comma =>
        obtain ⟨more,rfl⟩ := readElements_array n h
        have each := walk
        rw [grammar, grammarEntries_ok] at each
        obtain ⟨v,rfl,value⟩ := values none _ _ _ entry (each x (by simp))
          (endsNumber_before comma (by simp))
        have same : result.map toPython ++ [toPython v] = (result ++ [v]).map toPython := by
          rw [List.map_append, List.map_singleton]
        rw [same] at h walk ⊢
        rw [CanonicalJson.elements_comma result value comma]
        exact arrays _ _ _ rest h walk
      · simp at h

end Backward

section Texts

mutual

theorem toPython_injective : ∀ v w : Value, toPython v = toPython w → v = w
  | .null, w, h => by cases w <;> simp_all [toPython]
  | .bool _, w, h => by cases w <;> simp_all [toPython]
  | .number _, w, h => by cases w <;> simp_all [toPython]
  | .string s, w, h => by
    cases w with
    | string t =>
      rw [toPython, toPython, Json.string.injEq] at h
      rw [points_injective h]
    | _ => simp [toPython] at h
  | .array xs, w, h => by
    cases w with
    | array ys =>
      rw [toPython, toPython, Json.array.injEq] at h
      rw [toPythonEntries_injective xs ys h]
    | _ => simp [toPython] at h
  | .object fs, w, h => by
    cases w with
    | object gs =>
      rw [toPython, toPython, Json.object.injEq] at h
      rw [toPythonFields_injective fs gs h]
    | _ => simp [toPython] at h

theorem toPythonEntries_injective : ∀ xs ys : List Value,
    toPythonEntries xs = toPythonEntries ys → xs = ys
  | [], ys, h => by cases ys <;> simp_all [toPythonEntries]
  | x :: xs, ys, h => by
    cases ys with
    | nil => simp [toPythonEntries] at h
    | cons y ys =>
      rw [toPythonEntries, toPythonEntries, List.cons.injEq] at h
      rw [toPython_injective x y h.1, toPythonEntries_injective xs ys h.2]

theorem toPythonFields_injective : ∀ fs gs : List (String × Value),
    toPythonFields fs = toPythonFields gs → fs = gs
  | [], gs, h => by cases gs <;> simp_all [toPythonFields]
  | (k,x) :: fs, gs, h => by
    cases gs with
    | nil => simp [toPythonFields] at h
    | cons q gs =>
      rw [toPythonFields, toPythonFields, List.cons.injEq, Prod.mk.injEq] at h
      rw [points_injective h.1.1, toPython_injective x q.2 h.1.2,
        toPythonFields_injective fs gs h.2]

end

theorem endsNumber_trailing {rest : List Char} (h : skipWhitespace rest = []) :
    EndsNumber rest := by
  apply endsNumber_skip
  rw [h]
  rfl

/-- A text of the producer, with any bound above twice its length. -/
theorem parseText_enough (text : List Char) (v : Value) (more : ℕ) :
    CanonicalJson.parseText text = .ok v ↔ ∃ rest,
      CanonicalJson.value (2*text.length+1+more) none text = .ok (v,rest) ∧
        skipWhitespace rest = [] := by
  have parsed : CanonicalJson.parseText text = .ok v ↔ ∃ rest,
      CanonicalJson.value (2*text.length+1) none text = .ok (v,rest) ∧
        skipWhitespace rest = [] := by
    simp only [CanonicalJson.parseText, bind_ok, Prod.exists]
    constructor
    · rintro ⟨x,rest,read,h⟩
      split at h
      · next blank =>
        obtain rfl := (pure_ok _ _).mp h
        exact ⟨rest,read,blank⟩
      · simp at h
    · rintro ⟨rest,read,blank⟩
      exact ⟨v,rest,read,by rw [blank]; rfl⟩
  have skipped := length_skipWhitespace text
  have same := (read_enough hooks (2*text.length+1)).1 (2*text.length+1+more)
    (skipWhitespace text) (by omega) (by omega)
  have transfer : ∀ n m rest, readValue hooks n (skipWhitespace text) =
      readValue hooks m (skipWhitespace text) → skipWhitespace rest = [] →
      CanonicalJson.value n none text = .ok (v,rest) →
      CanonicalJson.value m none text = .ok (v,rest) := by
    intro n m rest same blank read
    obtain ⟨read,walk⟩ := (value_read n).1 none text v rest read
    rw [same] at read
    obtain ⟨v',e,read⟩ := (read_value m).1 none text _ rest read walk (endsNumber_trailing blank)
    rw [toPython_injective _ _ e]
    exact read
  rw [parsed]
  constructor
  · rintro ⟨rest,read,blank⟩
    exact ⟨rest,transfer _ _ rest same blank read,blank⟩
  · rintro ⟨rest,read,blank⟩
    exact ⟨rest,transfer _ _ rest same.symm blank read,blank⟩

/-- No value starts with a byte-order mark. -/
theorem parseText_mark (text : List Char) (v : Value) :
    CanonicalJson.parseText ('\ufeff' :: text) ≠ .ok v := by
  intro h
  simp only [CanonicalJson.parseText, bind_ok, Prod.exists] at h
  obtain ⟨x,rest,read,_⟩ := h
  simp [CanonicalJson.value, skipWhitespace, isWhitespace, CanonicalJson.atom,
    CanonicalJson.words, List.isPrefixOf, CanonicalJson.number, readInteger, readDigits,
    JsonText.isDigit] at read

/-- One text is read alike on both sides. -/
theorem parseText_iff (text : List Char) (w : PyValue) :
    (loads text = .ok w ∧ grammar none w = .ok ()) ↔
      ∃ v, w = toPython v ∧ CanonicalJson.parseText text = .ok v := by
  have parsed := fun v => parseText_enough text v 0
  simp only [Nat.add_zero] at parsed
  have loaded : readText hooks text = .ok w ↔ ∃ rest,
      readValue hooks (2*text.length+1) (skipWhitespace text) = .ok (w,rest) ∧
        skipWhitespace rest = [] := by
    simp only [readText, bind_ok, Prod.exists]
    constructor
    · rintro ⟨x,rest,read,h⟩
      split at h
      · next blank =>
        obtain rfl := (pure_ok _ _).mp h
        exact ⟨rest,read,blank⟩
      · simp at h
    · rintro ⟨rest,read,blank⟩
      exact ⟨w,rest,read,by rw [blank]; rfl⟩
  unfold loads
  constructor
  · rintro ⟨h,walk⟩
    by_cases mark : text.head? = some '\ufeff'
    · rw [if_pos mark] at h
      exact absurd h (by simp)
    · rw [if_neg mark] at h
      obtain ⟨rest,read,blank⟩ := loaded.mp h
      obtain ⟨v,same,read⟩ :=
        (read_value _).1 none text w rest read walk (endsNumber_trailing blank)
      exact ⟨v,same,(parsed v).mpr ⟨rest,read,blank⟩⟩
  · rintro ⟨v,rfl,h⟩
    obtain ⟨rest,read,blank⟩ := (parsed v).mp h
    obtain ⟨read,walk⟩ := (value_read _).1 none text v rest read
    have plain : text.head? ≠ some '\ufeff' := by
      intro mark
      obtain ⟨text,rfl⟩ := List.head?_eq_some_iff.mp mark
      exact parseText_mark text v h
    rw [if_neg plain]
    exact ⟨loaded.mpr ⟨rest,read,blank⟩,walk⟩

/-- The checker reads what the producer reads, in its own representation. -/
theorem parseJson_ok (bytes : List UInt8) (w : PyValue) :
    parseJson bytes = .ok w ↔ ∃ v, w = toPython v ∧ CanonicalJson.parseJSON bytes = .ok v := by
  have parsed : ∀ (text : List Char) v,
      (CanonicalJson.parseText text).mapError (CanonicalJson.describe text) = .ok v ↔
        CanonicalJson.parseText text = .ok v := by
    intro text v
    cases CanonicalJson.parseText text <;> simp [Except.mapError]
  unfold parseJson CanonicalJson.parseJSON decode CanonicalJson.decodeUTF8
  cases String.fromUTF8? ⟨bytes.toArray⟩ with
  | none => simp [V4Error]
  | some s =>
    simp only [bind_ok, pure_ok, exists_eq_left', parsed]
    rw [← parseText_iff]
    simp

end Texts

end JsonAgreement

end EvidenceV4
