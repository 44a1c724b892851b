import EvidenceV4.CanonicalJson
import EvidenceV4.Utf8Order
import Mathlib.Data.List.Sort

/-!
# Round trip of canonical JSON

Parsing the canonical text of a value gives the value back with the keys of its
objects sorted. Whatever the parser accepts has a canonical text, and two values
have one canonical text only when they agree up to the order of object keys.
-/

set_option autoImplicit false

namespace EvidenceV4

namespace CanonicalRoundTrip

open CheckedExcept JsonText CanonicalJson Utf8Order
open Schema (utf8Bytes utf8Compare utf8Compare_lt)

/-- The values of the format, read under the field that holds them. -/
inductive V4Value : Option String → Value → Prop
  | null (field : Option String) : V4Value field .null
  | bool (field : Option String) (b : Bool) : V4Value field (.bool b)
  | string (field : Option String) (s : String) : V4Value field (.string s)
  | number (field : Option String) (n : ℤ) (safe : isSafeInteger n) (sign : SignAllowed field n) :
    V4Value field (.number n)
  | array (field : Option String) (entries : List Value)
    (each : ∀ e ∈ entries, V4Value none e) : V4Value field (.array entries)
  | object (field : Option String) (fields : List (String × Value))
    (distinct : (fields.map Prod.fst).Nodup)
    (each : ∀ p ∈ fields, V4Value (some p.1) p.2) : V4Value field (.object fields)

/-- Equality of values whose objects are unordered. -/
inductive SameValue : Value → Value → Prop
  | null : SameValue .null .null
  | bool (b : Bool) : SameValue (.bool b) (.bool b)
  | string (s : String) : SameValue (.string s) (.string s)
  | number (n : ℤ) : SameValue (.number n) (.number n)
  | array (xs ys : List Value) (length : xs.length = ys.length)
    (each : ∀ i (hx : i < xs.length) (hy : i < ys.length), SameValue xs[i] ys[i]) :
    SameValue (.array xs) (.array ys)
  | object (fs gs : List (String × Value)) (keys : (fs.map Prod.fst).Perm (gs.map Prod.fst))
    (each : ∀ k x y, (k,x) ∈ fs → (k,y) ∈ gs → SameValue x y) : SameValue (.object fs) (.object gs)

mutual

def sortKeys : Value → Value
  | .null => .null
  | .bool b => .bool b
  | .string s => .string s
  | .number n => .number n
  | .array entries => .array (sortEntries entries)
  | .object fields => .object ((sortFields fields).insertionSort (fun a b => keyOrder a b))

def sortEntries : List Value → List Value
  | [] => []
  | entry :: rest => sortKeys entry :: sortEntries rest

def sortFields : List (String × Value) → List (String × Value)
  | [] => []
  | (k,v) :: rest => (k,sortKeys v) :: sortFields rest

end

/-- The text that `encode` gives a value of the format. -/
def canonicalText (field : Option String) (v : Value) : List Char :=
  match encode field v with
  | .ok text => text
  | .error _ => []

section Text

theorem sortEntries_eq (entries : List Value) : sortEntries entries = entries.map sortKeys := by
  induction entries with
  | nil => rfl
  | cons e rest ih => rw [sortEntries, ih, List.map_cons]

def sortField (p : String × Value) : String × Value := (p.1,sortKeys p.2)

theorem sortFields_eq (fields : List (String × Value)) :
    sortFields fields = fields.map sortField := by
  induction fields with
  | nil => rfl
  | cons p rest ih =>
    obtain ⟨k,v⟩ := p
    rw [sortFields, ih, List.map_cons]
    rfl

theorem encodeEntries_of {entries : List Value}
    (h : ∀ e ∈ entries, encode none e = .ok (canonicalText none e)) :
    encodeEntries entries = .ok (entries.map (canonicalText none)) := by
  induction entries with
  | nil => rfl
  | cons e rest ih =>
    rw [encodeEntries, h e List.mem_cons_self, ih (fun x hx => h x (List.mem_cons_of_mem _ hx))]
    rfl

def fieldText (p : String × Value) : String × List Char := (p.1,canonicalText (some p.1) p.2)

theorem encodeFields_of {fields : List (String × Value)}
    (h : ∀ p ∈ fields, encode (some p.1) p.2 = .ok (canonicalText (some p.1) p.2)) :
    encodeFields fields = .ok (fields.map fieldText) := by
  induction fields with
  | nil => rfl
  | cons p rest ih =>
    rw [encodeFields, h p List.mem_cons_self, ih (fun x hx => h x (List.mem_cons_of_mem _ hx))]
    rfl

/-- Sorting by keys commutes with a map that keeps them. -/
theorem map_keySort {β γ : Type} (f : String × β → String × γ) (keeps : ∀ p, (f p).1 = p.1)
    (l : List (String × β)) :
    (l.map f).insertionSort (fun a b => keyOrder a b) =
      (l.insertionSort (fun a b => keyOrder a b)).map f := by
  symm
  apply List.map_insertionSort
  intro a _ b _
  simp only [keyOrder, keeps]

def keySort {β : Type} (l : List (String × β)) : List (String × β) :=
  l.insertionSort (fun a b => keyOrder a b)

def entryText (p : String × List Char) : List Char := quote p.1 ++ ':' :: p.2

theorem canonicalText_of {field : Option String} {v : Value} {text : List Char}
    (h : encode field v = .ok text) : canonicalText field v = text := by
  rw [canonicalText, h]

theorem encode_number {field : Option String} {n : ℤ} (safe : isSafeInteger n)
    (sign : SignAllowed field n) : encode field (.number n) = .ok (toString n).toList := by
  rw [encode, check_of _ _ ⟨safe,sign⟩]
  rfl

theorem encode_array {field : Option String} {entries : List Value}
    (h : ∀ e ∈ entries, encode none e = .ok (canonicalText none e)) :
    encode field (.array entries) =
      .ok ('[' :: (separated (entries.map (canonicalText none)) ++ [']'])) := by
  rw [encode, encodeEntries_of h]
  rfl

theorem encode_object {field : Option String} {fields : List (String × Value)}
    (h : ∀ p ∈ fields, encode (some p.1) p.2 = .ok (canonicalText (some p.1) p.2)) :
    encode field (.object fields) = .ok ('\x7b' ::
      (separated ((keySort fields).map (fun p => entryText (fieldText p))) ++ ['\x7d'])) := by
  rw [encode, encodeFields_of h]
  have sorted : keySort (fields.map fieldText) = (keySort fields).map fieldText :=
    map_keySort fieldText (fun _ => rfl) fields
  have entries : (keySort (fields.map fieldText)).map entryText =
      (keySort fields).map (fun p => entryText (fieldText p)) := by
    rw [sorted, List.map_map]
    rfl
  rw [← entries]
  rfl

/-- Every value of the format has a canonical text. -/
theorem encode_text {field : Option String} {v : Value} (h : V4Value field v) :
    encode field v = .ok (canonicalText field v) := by
  induction h with
  | null field => rfl
  | bool field b => rfl
  | string field s => rfl
  | number field n safe sign =>
    have e := encode_number safe sign
    rw [canonicalText_of e, e]
  | array field entries each ih =>
    have e := @encode_array field entries ih
    rw [canonicalText_of e, e]
  | object field fields distinct each ih =>
    have e := @encode_object field fields ih
    rw [canonicalText_of e, e]

end Text

section Numbers

theorem isDigit_eq (c : Char) : JsonText.isDigit c = c.isDigit := by
  simp [JsonText.isDigit, Char.isDigit, UInt32.le_iff_toNat_le]

theorem isDigit_toDigits {m : ℕ} {c : Char} (h : c ∈ Nat.toDigits 10 m) : JsonText.isDigit c := by
  rw [isDigit_eq]
  exact Nat.isDigit_of_mem_toDigits (by omega) (by omega) h

/-- The decimal digits of a positive number do not start with zero. -/
theorem toDigits_head (m : ℕ) (h : m ≠ 0) : ∃ d ds, Nat.toDigits 10 m = d :: ds ∧ d ≠ '0' := by
  induction m using Nat.strong_induction_on with
  | _ m ih =>
    by_cases small : m < 10
    · rw [Nat.toDigits_of_lt_base small]
      exact ⟨_,[],rfl,by simpa using h⟩
    · rw [Nat.toDigits_of_base_le (by omega) (by omega)]
      obtain ⟨d,ds,e,nonzero⟩ := ih (m/10) (by omega) (by omega)
      rw [e]
      exact ⟨d,_,rfl,nonzero⟩

/-- What may stand behind a number. -/
def EndsNumber (rest : List Char) : Prop := continuesNumber rest = false

theorem span_digits {ds rest : List Char} (digits : ∀ c ∈ ds, JsonText.isDigit c)
    (ends : EndsNumber rest) :
    (ds ++ rest).takeWhile JsonText.isDigit = ds ∧
      (ds ++ rest).dropWhile JsonText.isDigit = rest := by
  induction ds with
  | nil =>
    cases rest with
    | nil => exact ⟨rfl,rfl⟩
    | cons c rest =>
      have stop : JsonText.isDigit c = false := by
        simp only [EndsNumber, continuesNumber, Bool.or_eq_false_iff] at ends
        exact ends.2
      simp [stop]
  | cons d ds ih =>
    have first := digits d List.mem_cons_self
    obtain ⟨taken,left⟩ := ih (fun c hc => digits c (List.mem_cons_of_mem _ hc))
    simp [first, taken, left]

theorem readDigits_toDigits (m : ℕ) {rest : List Char} (ends : EndsNumber rest) :
    readDigits (Nat.toDigits 10 m ++ rest) = some (Nat.toDigits 10 m,rest) := by
  by_cases zero : m = 0
  · subst zero
    simp [readDigits]
  · obtain ⟨d,ds,e,nonzero⟩ := toDigits_head m zero
    have digits : ∀ c ∈ d :: ds, JsonText.isDigit c := fun c hc => isDigit_toDigits (e ▸ hc)
    obtain ⟨taken,left⟩ := span_digits (fun c hc => digits c (List.mem_cons_of_mem _ hc)) ends
    rw [e, List.cons_append, readDigits, if_neg nonzero, if_pos (digits d List.mem_cons_self),
      taken, left]

theorem toString_ofNat (m : ℕ) : (toString (Int.ofNat m)).toList = Nat.toDigits 10 m := by
  show (Nat.repr m).toList = _
  exact Nat.toList_repr

theorem toString_negSucc (m : ℕ) :
    (toString (Int.negSucc m)).toList = '-' :: Nat.toDigits 10 (m+1) := by
  show ("-" ++ Nat.repr (m+1)).toList = _
  rw [String.toList_append, Nat.toList_repr]
  rfl

theorem minus_not_digit (m : ℕ) : ∀ c ∈ Nat.toDigits 10 m, c ≠ '-' := by
  rintro c hc rfl
  exact absurd (isDigit_toDigits hc) (by decide)

theorem readInteger_toString (n : ℤ) {rest : List Char} (ends : EndsNumber rest) :
    readInteger ((toString n).toList ++ rest) = some ((toString n).toList,rest) := by
  cases n with
  | ofNat m =>
    rw [toString_ofNat]
    have read := readDigits_toDigits m ends
    cases e : Nat.toDigits 10 m with
    | nil => exact absurd e Nat.toDigits_ne_nil
    | cons d ds =>
      have first : d ≠ '-' := minus_not_digit m d (e ▸ List.mem_cons_self)
      rw [e] at read
      rw [List.cons_append, readInteger, if_neg first]
      exact read
  | negSucc m =>
    rw [toString_negSucc, List.cons_append, readInteger, if_pos rfl,
      readDigits_toDigits (m+1) ends]
    rfl

theorem tokenValue_toString (n : ℤ) : tokenValue (toString n).toList = n := by
  cases n with
  | ofNat m =>
    rw [toString_ofNat]
    have plain : ∀ ds, (∀ c ∈ ds, c ≠ '-') → tokenValue ds = Nat.ofDigitChars 10 ds 0 := by
      intro ds h
      unfold tokenValue
      split
      · exact absurd rfl (h '-' List.mem_cons_self)
      · rfl
    rw [plain _ (minus_not_digit m), Nat.ofDigitChars_ten_toDigits]
    rfl
  | negSucc m =>
    rw [toString_negSucc, tokenValue, Nat.ofDigitChars_ten_toDigits]
    rfl

theorem toString_ne_minusZero (n : ℤ) : (toString n).toList ≠ ['-','0'] := by
  cases n with
  | ofNat m =>
    rw [toString_ofNat]
    intro e
    exact minus_not_digit m '-' (e ▸ List.mem_cons_self) rfl
  | negSucc m =>
    rw [toString_negSucc]
    intro e
    obtain ⟨d,ds,head,nonzero⟩ := toDigits_head (m+1) (by omega)
    rw [head] at e
    exact nonzero (List.cons.inj (List.cons.inj e).2).1

theorem number_toString {field : Option String} {n : ℤ} {rest : List Char}
    (safe : isSafeInteger n) (sign : SignAllowed field n) (ends : EndsNumber rest) :
    number field ((toString n).toList ++ rest) = .ok (.number n,rest) := by
  rw [number, readInteger_toString n ends]
  simp only
  rw [if_neg (not_or.mpr ⟨toString_ne_minusZero n,by simp [show continuesNumber rest = false from ends]⟩),
    tokenValue_toString, if_pos ⟨safe,sign⟩]
  rfl

end Numbers

section Strings

/-- The lexeme that the encoder writes for a character. -/
def escapeLexeme (c : Char) : Lexeme :=
  if c = '"' ∨ c = '\\' then .short c
  else if c.toNat < 32 then .unicode (Fin.ofNat 65536 c.toNat)
  else .plain c

theorem hexUnit_control (n : Fin 32) :
    hexUnit '0' '0' (hexDigit (n/16)) (hexDigit (n%16)) = some (Fin.ofNat 65536 n) := by
  revert n
  decide

theorem readString_escape (c : Char) (rest : List Char) :
    readString (escapeChar c ++ rest) =
      (readString rest).map (fun r => (escapeLexeme c :: r.1,r.2)) := by
  unfold escapeChar
  split_ifs with quote slash control
  · subst quote
    exact readString_short rest (by decide)
  · subst slash
    exact readString_short rest (by decide)
  · have unit := hexUnit_control ⟨c.toNat,control⟩
    simp only at unit
    show readString ('\\' :: 'u' :: '0' :: '0' :: hexDigit (c.toNat/16) ::
      hexDigit (c.toNat%16) :: rest) = _
    rw [readString_unicode, unit]
    simp [escapeLexeme, quote, slash, control]
  · rw [List.singleton_append, readString_plain rest quote slash (not_lt.mp control)]
    simp [escapeLexeme, quote, slash, control]

theorem readString_escaped (text rest : List Char) :
    readString (text.flatMap escapeChar ++ '"' :: rest) = some (text.map escapeLexeme,rest) := by
  induction text with
  | nil => exact readString_quote rest
  | cons c text ih =>
    rw [List.flatMap_cons, List.append_assoc, readString_escape, ih]
    rfl

theorem lexemeUnits_escape (c : Char) : lexemeUnits (escapeLexeme c) = charUnits c := by
  unfold escapeLexeme
  split_ifs with special control
  · rfl
  · have small : c.toNat < 0x10000 := by omega
    rw [charUnits, if_pos small]
    rfl
  · rfl

theorem decodeUnits_text (text : List Char) : decodeUnits (text.flatMap charUnits) = .ok text := by
  induction text with
  | nil => rfl
  | cons c text ih =>
    rw [List.flatMap_cons, decodeUnits_char, ih]
    rfl

/-- A quoted string is read back. -/
theorem string_quote (v : String) (rest : List Char) :
    string (v.toList.flatMap escapeChar ++ '"' :: rest) = .ok (v,rest) := by
  have scanned := (scanString_ok _ _).mpr (readString_escaped v.toList rest)
  have units : (v.toList.map escapeLexeme).flatMap lexemeUnits = v.toList.flatMap charUnits := by
    rw [List.flatMap_map]
    exact List.flatMap_congr (fun c _ => lexemeUnits_escape c)
  have scalar : assertScalar ((v.toList.map escapeLexeme).flatMap lexemeUnits) = .ok v := by
    rw [units, assertScalar, decodeUnits_text]
    simp only [String.ofList_toList]
    rfl
  rw [string, scanned]
  simp only [bind, Except.bind, scalar]
  rfl

end Strings

section Values

theorem skipWhitespace_head {c : Char} (s : List Char) (h : isWhitespace c = false) :
    skipWhitespace (c :: s) = c :: s := by
  simp [skipWhitespace, h]

theorem value_null (n : ℕ) (field : Option String) (rest : List Char) :
    value (n+1) field ("null".toList ++ rest) = .ok (.null,rest) := by
  rfl

theorem value_bool (n : ℕ) (field : Option String) (b : Bool) (rest : List Char) :
    value (n+1) field ((if b then "true".toList else "false".toList) ++ rest) =
      .ok (.bool b,rest) := by
  cases b
  · rfl
  · rfl

theorem value_string (n : ℕ) (field : Option String) (v : String) (rest : List Char) :
    value (n+1) field (quote v ++ rest) = .ok (.string v,rest) := by
  have read := string_quote v rest
  unfold value
  rw [quote, List.cons_append, List.append_assoc, skipWhitespace_head _ (by decide)]
  simp only [List.singleton_append, read, bind, Except.bind]
  rfl

/-- The first character of a number. -/
def StartsNumber (c : Char) : Prop := c = '-' ∨ JsonText.isDigit c

theorem toString_head (n : ℤ) : ∃ c s, (toString n).toList = c :: s ∧ StartsNumber c := by
  cases n with
  | ofNat m =>
    rw [toString_ofNat]
    cases e : Nat.toDigits 10 m with
    | nil => exact absurd e Nat.toDigits_ne_nil
    | cons d ds => exact ⟨d,ds,rfl,Or.inr (isDigit_toDigits (e ▸ List.mem_cons_self))⟩
  | negSucc m => exact ⟨'-',_,toString_negSucc m,Or.inl rfl⟩

theorem startsNumber_ne {c d : Char} (h : StartsNumber c)
    (other : d ≠ '-' ∧ JsonText.isDigit d = false) : c ≠ d := by
  rintro rfl
  rcases h with h | h
  · exact other.1 h
  · rw [other.2] at h
    exact Bool.false_ne_true h

theorem value_number (n : ℕ) {field : Option String} {v : ℤ} {rest : List Char}
    (safe : isSafeInteger v) (sign : SignAllowed field v) (ends : EndsNumber rest) :
    value (n+1) field ((toString v).toList ++ rest) = .ok (.number v,rest) := by
  have read := number_toString safe sign ends
  obtain ⟨c,s,e,starts⟩ := toString_head v
  have plain : ∀ d, d ≠ '-' ∧ JsonText.isDigit d = false → c ≠ d :=
    fun d => startsNumber_ne starts
  have space : isWhitespace c = false := by
    simp [isWhitespace, plain ' ' (by decide), plain '\t' (by decide), plain '\n' (by decide),
      plain '\r' (by decide)]
  rw [e, List.cons_append] at read ⊢
  unfold value
  rw [skipWhitespace_head _ space]
  have noWord : words.find? (fun w => w.1.isPrefixOf (c :: (s ++ rest))) = none := by
    simp [words, List.isPrefixOf, (plain 't' (by decide)).symm,
      (plain 'f' (by decide)).symm, (plain 'n' (by decide)).symm]
  have quote := plain '"' (by decide)
  have brace := plain '\x7b' (by decide)
  have bracket := plain '[' (by decide)
  split
  · next h => exact absurd (List.cons.inj h).1 quote
  · next h => exact absurd (List.cons.inj h).1 brace
  · next h => exact absurd (List.cons.inj h).1 bracket
  · rw [atom, noWord]
    exact read

/-- The first character of a canonical text opens a value. -/
def Opens (c : Char) : Prop := isWhitespace c = false ∧ c ≠ ']' ∧ c ≠ '\x7d'

instance (c : Char) : Decidable (Opens c) := inferInstanceAs (Decidable (_ ∧ _))

theorem startsNumber_opens {c : Char} (h : StartsNumber c) : Opens c := by
  have plain : ∀ d, d ≠ '-' ∧ JsonText.isDigit d = false → c ≠ d := fun d => startsNumber_ne h
  refine ⟨?_,plain ']' (by decide),plain '\x7d' (by decide)⟩
  simp [isWhitespace, plain ' ' (by decide), plain '\t' (by decide), plain '\n' (by decide),
    plain '\r' (by decide)]

theorem canonicalText_array {field : Option String} {entries : List Value}
    (h : ∀ e ∈ entries, V4Value none e) : canonicalText field (.array entries) =
      '[' :: (separated (entries.map (canonicalText none)) ++ [']']) :=
  canonicalText_of (encode_array (fun e he => encode_text (h e he)))

theorem separated_cons (p : List Char) (q : List Char) (ps : List (List Char)) :
    separated (p :: q :: ps) = p ++ ',' :: separated (q :: ps) := by
  simp [separated, List.intercalate]

theorem separated_singleton (p : List Char) : separated [p] = p := by
  simp [separated, List.intercalate]

def membersText (fields : List (String × Value)) : List Char :=
  separated (fields.map (fun p => entryText (fieldText p)))

theorem membersText_singleton (p : String × Value) : membersText [p] = entryText (fieldText p) :=
  separated_singleton _

theorem membersText_cons (p q : String × Value) (ps : List (String × Value)) :
    membersText (p :: q :: ps) = entryText (fieldText p) ++ ',' :: membersText (q :: ps) :=
  separated_cons _ _ _

theorem canonicalText_object {field : Option String} {fields : List (String × Value)}
    (h : ∀ p ∈ fields, V4Value (some p.1) p.2) : canonicalText field (.object fields) =
      '\x7b' :: (membersText (keySort fields) ++ ['\x7d']) :=
  canonicalText_of (encode_object (fun p hp => encode_text (h p hp)))

theorem canonicalText_number {field : Option String} {n : ℤ} (safe : isSafeInteger n)
    (sign : SignAllowed field n) : canonicalText field (.number n) = (toString n).toList :=
  canonicalText_of (encode_number safe sign)

theorem canonicalText_head {field : Option String} {v : Value} (h : V4Value field v) :
    ∃ c s, canonicalText field v = c :: s ∧ Opens c := by
  cases h with
  | null => exact ⟨'n',_,rfl,by decide⟩
  | bool _ b =>
    cases b
    · exact ⟨'f',_,rfl,by decide⟩
    · exact ⟨'t',_,rfl,by decide⟩
  | string _ s => exact ⟨'"',_,rfl,by decide⟩
  | number _ n safe sign =>
    rw [canonicalText_number safe sign]
    obtain ⟨c,s,e,starts⟩ := toString_head n
    exact ⟨c,s,e,startsNumber_opens starts⟩
  | array _ entries each => exact ⟨'[',_,canonicalText_array each,by decide⟩
  | object _ fields _ each => exact ⟨'\x7b',_,canonicalText_object each,by decide⟩

theorem endsNumber_delimiter {c : Char} (h : c = ',' ∨ c = ']' ∨ c = '\x7d') (rest : List Char) :
    EndsNumber (c :: rest) := by
  rcases h with rfl | rfl | rfl
  · rfl
  · rfl
  · rfl

/-- Reading the entries of an array, each of which is read back. -/
theorem elements_text {entries : List Value} (h : ∀ e ∈ entries, V4Value none e)
    (each : ∀ e ∈ entries, ∀ n rest, 2*(canonicalText none e).length < n → EndsNumber rest →
      value n none (canonicalText none e ++ rest) = .ok (sortKeys e,rest))
    (filled : entries ≠ []) (n : ℕ) (result : List Value) (rest : List Char)
    (bound : 2*(separated (entries.map (canonicalText none))).length+1 < n) :
    elements n result (separated (entries.map (canonicalText none)) ++ ']' :: rest) =
      .ok (.array (result ++ entries.map sortKeys),rest) := by
  induction entries generalizing n result with
  | nil => exact absurd rfl filled
  | cons e entries ih =>
    obtain ⟨n,rfl⟩ := Nat.exists_eq_succ_of_ne_zero (show n ≠ 0 by omega)
    have first := each e List.mem_cons_self n
    cases entries with
    | nil =>
      simp only [List.map_cons, List.map_nil, separated_singleton] at bound ⊢
      have read := first (']' :: rest) (by omega) (endsNumber_delimiter (by simp) rest)
      exact elements_close result read (skipWhitespace_head _ (by decide))
    | cons f entries =>
      simp only [List.map_cons, separated_cons, List.length_append, List.length_cons] at bound ih ⊢
      set later := separated (canonicalText none f :: entries.map (canonicalText none)) ++ ']' :: rest
      have read := first (',' :: later) (by omega) (endsNumber_delimiter (by simp) _)
      rw [List.append_assoc, List.cons_append,
        elements_comma result read (skipWhitespace_head _ (by decide)),
        ih (fun x hx => h x (List.mem_cons_of_mem _ hx))
        (fun x hx => each x (List.mem_cons_of_mem _ hx)) (by simp) n _ (by omega)]
      simp

theorem entryText_append (p : String × Value) (rest : List Char) :
    entryText (fieldText p) ++ rest = '"' :: (p.1.toList.flatMap escapeChar ++
      '"' :: ':' :: (canonicalText (some p.1) p.2 ++ rest)) := by
  simp [entryText, fieldText, quote]

theorem entryText_length (p : String × Value) :
    (canonicalText (some p.1) p.2).length + 4 ≤ (entryText (fieldText p)).length + 1 := by
  simp only [entryText, fieldText, quote, List.length_append, List.length_cons]
  omega

/-- One member, the last one of its object. -/
theorem members_last {p : String × Value} (n : ℕ) {result : List (String × Value)}
    {rest : List Char} (fresh : p.1 ∉ result.map Prod.fst)
    (read : value n (some p.1) (canonicalText (some p.1) p.2 ++ '\x7d' :: rest) =
      .ok (sortKeys p.2,'\x7d' :: rest)) :
    members (n+1) result (entryText (fieldText p) ++ '\x7d' :: rest) =
      .ok (.object (result ++ [sortField p]),rest) := by
  rw [entryText_append]
  apply members_close (string_quote _ _) fresh _ read (skipWhitespace_head _ (by decide))
  exact skipWhitespace_head _ (by decide)

/-- One member with another one behind it. -/
theorem members_more {p : String × Value} (n : ℕ) {result : List (String × Value)}
    {rest : List Char} (fresh : p.1 ∉ result.map Prod.fst)
    (read : value n (some p.1) (canonicalText (some p.1) p.2 ++ ',' :: rest) =
      .ok (sortKeys p.2,',' :: rest)) :
    members (n+1) result (entryText (fieldText p) ++ ',' :: rest) =
      members n (result ++ [sortField p]) (skipWhitespace rest) := by
  rw [entryText_append]
  apply members_comma (string_quote _ _) fresh _ read (skipWhitespace_head _ (by decide))
  exact skipWhitespace_head _ (by decide)

theorem membersText_head (p : String × Value) (ps : List (String × Value)) :
    ∃ s, membersText (p :: ps) = '"' :: s := by
  cases ps with
  | nil => exact ⟨_,membersText_singleton p⟩
  | cons q ps => exact ⟨_,membersText_cons p q ps⟩

/-- Reading the members of an object, each of which is read back. -/
theorem members_text {fields : List (String × Value)}
    (each : ∀ p ∈ fields, ∀ n rest, 2*(canonicalText (some p.1) p.2).length < n →
      EndsNumber rest →
      value n (some p.1) (canonicalText (some p.1) p.2 ++ rest) = .ok (sortKeys p.2,rest))
    (filled : fields ≠ []) (n : ℕ) (result : List (String × Value)) (rest : List Char)
    (distinct : ((result ++ fields).map Prod.fst).Nodup)
    (bound : 2*(membersText fields).length < n) :
    members n result (membersText fields ++ '\x7d' :: rest) =
      .ok (.object (result ++ fields.map sortField),rest) := by
  induction fields generalizing n result with
  | nil => exact absurd rfl filled
  | cons p fields ih =>
    obtain ⟨n,rfl⟩ := Nat.exists_eq_succ_of_ne_zero (show n ≠ 0 by omega)
    have fresh : p.1 ∉ result.map Prod.fst := by
      rw [List.map_append, List.nodup_append] at distinct
      intro old
      exact distinct.2.2 p.1 old p.1 (by simp) rfl
    have length := entryText_length p
    have first := each p List.mem_cons_self n
    cases fields with
    | nil =>
      rw [membersText_singleton] at bound ⊢
      exact members_last n fresh (first _ (by omega) (endsNumber_delimiter (by simp) rest))
    | cons q fields =>
      obtain ⟨s,head⟩ := membersText_head q fields
      have later := ih (fun x hx => each x (List.mem_cons_of_mem _ hx)) (by simp) n
        (result ++ [sortField p])
        (by simpa [List.map_append, sortField] using distinct)
      rw [membersText_cons, List.length_append, List.length_cons] at bound
      rw [membersText_cons, List.append_assoc, List.cons_append,
        members_more n fresh (first _ (by omega) (endsNumber_delimiter (by simp) _)), head,
        List.cons_append, skipWhitespace_head _ (show isWhitespace '"' = false by decide),
        ← List.cons_append, ← head, later (by omega)]
      simp

theorem value_array_open (n : ℕ) (field : Option String) {c : Char} (s : List Char)
    (h : Opens c) : value (n+1) field ('[' :: c :: s) = elements n [] (c :: s) := by
  conv_lhs => unfold value
  rw [skipWhitespace_head _ (show isWhitespace '[' = false by decide)]
  simp only [skipWhitespace_head s h.1]
  split
  · next closing => exact absurd (List.cons.inj closing).1 h.2.1
  · rfl

theorem value_object_open (n : ℕ) (field : Option String) (s : List Char) :
    value (n+1) field ('\x7b' :: '"' :: s) = members n [] ('"' :: s) := by
  conv_lhs => unfold value
  rw [skipWhitespace_head _ (show isWhitespace '\x7b' = false by decide)]
  rfl

theorem entries_head (e : Value) (es : List Value) (h : V4Value none e) :
    ∃ c s, separated ((e :: es).map (canonicalText none)) = c :: s ∧ Opens c := by
  obtain ⟨c,s,head,opens⟩ := canonicalText_head h
  cases es with
  | nil => exact ⟨c,s,by rw [List.map_cons, List.map_nil, separated_singleton, head],opens⟩
  | cons f es =>
    rw [List.map_cons, List.map_cons, separated_cons, head]
    exact ⟨c,_,rfl,opens⟩

theorem keySort_perm {β : Type} (l : List (String × β)) : (keySort l).Perm l :=
  List.perm_insertionSort _ l

/-- The canonical text of a value is read back as the value with sorted keys. -/
theorem value_text {field : Option String} {v : Value} (h : V4Value field v) :
    ∀ n rest, 2*(canonicalText field v).length < n → EndsNumber rest →
      value n field (canonicalText field v ++ rest) = .ok (sortKeys v,rest) := by
  induction h with
  | null field =>
    intro n rest bound _
    obtain ⟨n,rfl⟩ := Nat.exists_eq_succ_of_ne_zero (show n ≠ 0 by omega)
    exact value_null n field rest
  | bool field b =>
    intro n rest bound _
    obtain ⟨n,rfl⟩ := Nat.exists_eq_succ_of_ne_zero (show n ≠ 0 by omega)
    exact value_bool n field b rest
  | string field s =>
    intro n rest bound _
    obtain ⟨n,rfl⟩ := Nat.exists_eq_succ_of_ne_zero (show n ≠ 0 by omega)
    exact value_string n field s rest
  | number field v safe sign =>
    intro n rest bound ends
    obtain ⟨n,rfl⟩ := Nat.exists_eq_succ_of_ne_zero (show n ≠ 0 by omega)
    rw [canonicalText_number safe sign]
    exact value_number n safe sign ends
  | array field entries each ih =>
    intro n rest bound _
    obtain ⟨n,rfl⟩ := Nat.exists_eq_succ_of_ne_zero (show n ≠ 0 by omega)
    rw [canonicalText_array each] at bound ⊢
    simp only [List.length_cons, List.length_append, List.length_nil] at bound
    rw [List.cons_append, List.append_assoc, List.singleton_append, sortKeys, sortEntries_eq]
    cases entries with
    | nil => rfl
    | cons e es =>
      obtain ⟨c,s,head,opens⟩ := entries_head e es (each e List.mem_cons_self)
      have read := elements_text each ih (by simp) n [] rest (by omega)
      rw [head, List.cons_append] at read ⊢
      rw [value_array_open n field _ opens]
      exact read
  | object field fields distinct each ih =>
    intro n rest bound _
    obtain ⟨n,rfl⟩ := Nat.exists_eq_succ_of_ne_zero (show n ≠ 0 by omega)
    have perm := keySort_perm fields
    rw [canonicalText_object each] at bound ⊢
    simp only [List.length_cons, List.length_append, List.length_nil] at bound
    have sorted : sortKeys (.object fields) = .object ((keySort fields).map sortField) := by
      rw [sortKeys, sortFields_eq, map_keySort sortField (fun _ => rfl)]
      rfl
    have each' := fun p (hp : p ∈ keySort fields) => ih p (perm.mem_iff.mp hp)
    have distinct' : ((keySort fields).map Prod.fst).Nodup :=
      (perm.map Prod.fst).nodup_iff.mpr distinct
    rw [List.cons_append, List.append_assoc, List.singleton_append, sorted]
    cases e : keySort fields with
    | nil => rfl
    | cons p ps =>
      rw [e] at each' distinct' bound
      obtain ⟨s,head⟩ := membersText_head p ps
      have read := members_text each' (by simp) n [] rest distinct' (by omega)
      rw [head, List.cons_append] at read ⊢
      rw [value_object_open n field]
      exact read

end Values

section Parsed

theorem decodeUTF8_bytes (text : List Char) :
    decodeUTF8 (utf8Bytes (String.ofList text)) = .ok text := by
  have bytes : ByteArray.mk (utf8Bytes (String.ofList text)).toArray =
      (String.ofList text).toByteArray := by
    simp [utf8Bytes, String.toUTF8]
  have decoded : String.fromUTF8? (String.ofList text).toByteArray = some (String.ofList text) := by
    rw [String.fromUTF8?, dif_pos (String.ofList text).isValidUTF8]
    rfl
  rw [decodeUTF8, bytes, decoded]
  simp only [String.toList_ofList]
  rfl

theorem C_of {v : Value} (h : V4Value none v) :
    C v = .ok (utf8Bytes (String.ofList (canonicalText none v))) := by
  rw [C, encode_text h]
  rfl

/-- The parser reads the canonical bytes of a value as the value with sorted keys. -/
theorem parseJSON_C {v : Value} (h : V4Value none v) :
    parseJSON (utf8Bytes (String.ofList (canonicalText none v))) = .ok (sortKeys v) := by
  have read := value_text h (2*(canonicalText none v).length+1) [] (by omega) rfl
  rw [List.append_nil] at read
  rw [parseJSON, decodeUTF8_bytes]
  simp only [bind, Except.bind, parseText, read]
  rfl

theorem scanned_number {field : Option String} {s rest : List Char} {v : Value}
    (h : number field s = .ok (v,rest)) : V4Value field v := by
  unfold number at h
  split at h
  · simp at h
  · split_ifs at h with spelling accepted
    · simp at h
    · simp only [pure_ok, Prod.mk.injEq] at h
      rw [← h.1]
      exact .number field _ accepted.1 accepted.2
    · simp at h

theorem scanned_atom {field : Option String} {s rest : List Char} {v : Value}
    (h : atom field s = .ok (v,rest)) : V4Value field v := by
  unfold atom at h
  split at h
  · next word literal found =>
    simp only [pure_ok, Prod.mk.injEq] at h
    rw [← h.1]
    have inside := List.mem_of_find?_eq_some found
    simp only [words, List.mem_cons, Prod.mk.injEq, List.not_mem_nil, or_false] at inside
    rcases inside with ⟨_,rfl⟩ | ⟨_,rfl⟩ | ⟨_,rfl⟩
    · exact .bool field true
    · exact .bool field false
    · exact .null field
  · exact scanned_number h

/-- What the parser returns is a value of the format. -/
theorem value_format (n : ℕ) :
    (∀ field s v rest, value n field s = .ok (v,rest) → V4Value field v) ∧
    (∀ result s v rest, (result.map Prod.fst).Nodup → (∀ p ∈ result, V4Value (some p.1) p.2) →
      members n result s = .ok (v,rest) → ∀ field, V4Value field v) ∧
    (∀ result s v rest, (∀ e ∈ result, V4Value none e) →
      elements n result s = .ok (v,rest) → ∀ field, V4Value field v) := by
  induction n with
  | zero => simp [value, members, elements]
  | succ n ih =>
    obtain ⟨values,objects,arrays⟩ := ih
    refine ⟨?_,?_,?_⟩
    · intro field s v rest h
      unfold value at h
      split at h
      · simp only [bind_ok, pure_ok, Prod.mk.injEq, Prod.exists] at h
        obtain ⟨text,_,_,rfl,_⟩ := h
        exact .string field text
      · split at h
        · simp only [pure_ok, Prod.mk.injEq] at h
          rw [← h.1]
          exact .object field [] (by simp) (by simp)
        · exact objects [] _ v rest (by simp) (by simp) h field
      · split at h
        · simp only [pure_ok, Prod.mk.injEq] at h
          rw [← h.1]
          exact .array field [] (by simp)
        · exact arrays [] _ v rest (by simp) h field
      · exact scanned_atom h
    · intro result s v rest distinct each h field
      unfold members at h
      split at h
      · simp only [bind_ok, Prod.exists] at h
        obtain ⟨key,later,_,h⟩ := h
        split_ifs at h with old
        · simp at h
        · split at h
          · simp only [bind_ok, Prod.exists] at h
            obtain ⟨x,last,read,h⟩ := h
            have distinct' : ((result ++ [(key,x)]).map Prod.fst).Nodup := by
              rw [List.map_append, List.nodup_append]
              refine ⟨distinct,by simp,?_⟩
              rintro a ha b hb rfl
              obtain rfl : a = key := by simpa using hb
              exact old ha
            have each' : ∀ p ∈ result ++ [(key,x)], V4Value (some p.1) p.2 := by
              intro p hp
              rcases List.mem_append.mp hp with hp | hp
              · exact each p hp
              · obtain rfl := List.mem_singleton.mp hp
                exact values _ _ _ _ read
            split at h
            · simp only [pure_ok, Prod.mk.injEq] at h
              rw [← h.1]
              exact .object field _ distinct' each'
            · exact objects _ _ v rest distinct' each' h field
            · simp at h
          · simp at h
      · simp at h
    · intro result s v rest each h field
      unfold elements at h
      simp only [bind_ok, Prod.exists] at h
      obtain ⟨x,last,read,h⟩ := h
      have each' : ∀ e ∈ result ++ [x], V4Value none e := by
        intro e he
        rcases List.mem_append.mp he with he | he
        · exact each e he
        · obtain rfl := List.mem_singleton.mp he
          exact values _ _ _ _ read
      split at h
      · simp only [pure_ok, Prod.mk.injEq] at h
        rw [← h.1]
        exact .array field _ each'
      · exact arrays _ _ v rest each' h field
      · simp at h

theorem parseJSON_format {bytes : List UInt8} {v : Value} (h : parseJSON bytes = .ok v) :
    V4Value none v := by
  simp only [parseJSON, bind_ok] at h
  obtain ⟨text,_,h⟩ := h
  cases e : parseText text with
  | error failure => simp [e, Except.mapError] at h
  | ok w =>
    obtain rfl : w = v := by simpa [e, Except.mapError] using h
    simp only [parseText, bind_ok, Prod.exists] at e
    obtain ⟨x,rest,read,e⟩ := e
    split at e
    · obtain rfl := (pure_ok _ _).mp e
      exact (value_format _).1 _ _ _ _ read
    · simp at e

end Parsed

section Order

theorem keyOrder_pairwise {β : Type} (l : List (String × β)) :
    (keySort l).Pairwise (fun a b => keyOrder a b) := by
  have total : Std.Total (fun a b : String × β => keyOrder a b = true) := by
    constructor
    intro a b
    rw [keyOrder, keyOrder, utf8Compare_ne_gt, utf8Compare_ne_gt]
    exact List.le_total _ _
  have transitive : IsTrans (String × β) (fun a b => keyOrder a b = true) := by
    constructor
    intro a b c
    rw [keyOrder, keyOrder, keyOrder, utf8Compare_ne_gt, utf8Compare_ne_gt, utf8Compare_ne_gt]
    exact List.le_trans
  exact List.pairwise_insertionSort _ l

theorem keySort_sorted {β : Type} (l : List (String × β)) : keySort (keySort l) = keySort l :=
  (keyOrder_pairwise l).insertionSort_eq

theorem sortField_format {field : String} {v : Value} (h : V4Value (some field) (sortKeys v)) :
    V4Value (some (sortField (field,v)).1) (sortField (field,v)).2 := h

/-- Sorting keys stays within the format. -/
theorem sortKeys_format {field : Option String} {v : Value} (h : V4Value field v) :
    V4Value field (sortKeys v) := by
  induction h with
  | null field => exact .null field
  | bool field b => exact .bool field b
  | string field s => exact .string field s
  | number field n safe sign => exact .number field n safe sign
  | array field entries each ih =>
    rw [sortKeys, sortEntries_eq]
    apply V4Value.array
    intro e he
    obtain ⟨x,hx,rfl⟩ := List.mem_map.mp he
    exact ih x hx
  | object field fields distinct each ih =>
    rw [sortKeys, sortFields_eq]
    have perm := keySort_perm (fields.map sortField)
    apply V4Value.object
    · apply (perm.map Prod.fst).nodup_iff.mpr
      rw [List.map_map]
      exact distinct
    · intro p hp
      obtain ⟨x,hx,rfl⟩ := List.mem_map.mp (perm.mem_iff.mp hp)
      exact ih x hx

/-- Sorting keys leaves the canonical text as it is. -/
theorem canonicalText_sortKeys {field : Option String} {v : Value} (h : V4Value field v) :
    canonicalText field (sortKeys v) = canonicalText field v := by
  induction h with
  | null field => rfl
  | bool field b => rfl
  | string field s => rfl
  | number field n safe sign => rfl
  | array field entries each ih =>
    have sorted : ∀ e ∈ entries.map sortKeys, V4Value none e := by
      intro e he
      obtain ⟨x,hx,rfl⟩ := List.mem_map.mp he
      exact sortKeys_format (each x hx)
    have texts : (entries.map sortKeys).map (canonicalText none) =
        entries.map (canonicalText none) := by
      rw [List.map_map]
      exact List.map_congr_left ih
    rw [sortKeys, sortEntries_eq, canonicalText_array sorted, canonicalText_array each, texts]
  | object field fields distinct each ih =>
    have perm := keySort_perm fields
    have sorted : ∀ p ∈ (keySort fields).map sortField, V4Value (some p.1) p.2 := by
      intro p hp
      obtain ⟨x,hx,rfl⟩ := List.mem_map.mp hp
      exact sortKeys_format (each x (perm.mem_iff.mp hx))
    have again : keySort ((keySort fields).map sortField) = (keySort fields).map sortField := by
      have commute : keySort ((keySort fields).map sortField) =
          (keySort (keySort fields)).map sortField := map_keySort sortField (fun _ => rfl) _
      rw [commute, keySort_sorted]
    have texts : membersText ((keySort fields).map sortField) = membersText (keySort fields) := by
      rw [membersText, List.map_map, membersText]
      apply congrArg
      apply List.map_congr_left
      intro p hp
      have same := ih p (perm.mem_iff.mp hp)
      simp only [Function.comp_apply, fieldText, sortField, same]
    have keys : sortKeys (.object fields) = .object ((keySort fields).map sortField) := by
      rw [sortKeys, sortFields_eq, map_keySort sortField (fun _ => rfl)]
      rfl
    rw [keys, canonicalText_object sorted, canonicalText_object each, again, texts]

/-- A value and its copy with sorted keys agree up to key order. -/
theorem sortKeys_same {field : Option String} {v : Value} (h : V4Value field v) :
    SameValue v (sortKeys v) := by
  induction h with
  | null field => exact .null
  | bool field b => exact .bool b
  | string field s => exact .string s
  | number field n safe sign => exact .number n
  | array field entries each ih =>
    rw [sortKeys, sortEntries_eq]
    apply SameValue.array
    · exact (List.length_map _).symm
    · intro i hx hy
      rw [List.getElem_map]
      exact ih _ (List.getElem_mem hx)
  | object field fields distinct each ih =>
    rw [sortKeys, sortFields_eq]
    have perm := keySort_perm (fields.map sortField)
    apply SameValue.object
    · have keys := (perm.map Prod.fst).symm
      rw [List.map_map] at keys
      exact keys
    · intro k x y hx hy
      obtain ⟨⟨key,z⟩,hp,e⟩ := List.mem_map.mp (perm.mem_iff.mp hy)
      obtain ⟨rfl,rfl⟩ := Prod.mk.inj e
      have same := List.inj_on_of_nodup_map distinct hp hx rfl
      rw [← (Prod.mk.inj same).2]
      exact ih _ hp

theorem map_sortKeys_inj {xs ys : List Value} (e : xs.map sortKeys = ys.map sortKeys) :
    xs.length = ys.length ∧ ∀ i (hx : i < xs.length) (hy : i < ys.length),
      sortKeys xs[i] = sortKeys ys[i] := by
  refine ⟨by simpa using congrArg List.length e,?_⟩
  intro i hx hy
  have same := List.getElem_of_eq e (by simpa using hx)
  rwa [List.getElem_map, List.getElem_map] at same

/-- Values that sort to one value agree up to key order. -/
theorem same_of_sortKeys {field : Option String} {v w : Value} (hv : V4Value field v)
    (hw : V4Value field w) (e : sortKeys v = sortKeys w) : SameValue v w := by
  induction hv generalizing w with
  | null field =>
    cases hw <;> simp only [sortKeys, reduceCtorEq] at e
    exact .null
  | bool field b =>
    cases hw <;> simp only [sortKeys, reduceCtorEq, Json.bool.injEq] at e
    subst e
    exact .bool b
  | string field s =>
    cases hw <;> simp only [sortKeys, reduceCtorEq, Json.string.injEq] at e
    subst e
    exact .string s
  | number field n safe sign =>
    cases hw <;> simp only [sortKeys, reduceCtorEq, Json.number.injEq] at e
    subst e
    exact .number n
  | array field entries each ih =>
    cases hw <;> simp only [sortKeys, sortEntries_eq, reduceCtorEq, Json.array.injEq] at e
    next ys format =>
    obtain ⟨length,same⟩ := map_sortKeys_inj e
    apply SameValue.array _ _ length
    intro i hx hy
    exact ih _ (List.getElem_mem hx) (format _ (List.getElem_mem hy)) (same i hx hy)
  | object field fields distinct each ih =>
    cases hw <;> simp only [sortKeys, sortFields_eq, reduceCtorEq, Json.object.injEq] at e
    next gs distinct' format =>
    have perm := keySort_perm (fields.map sortField)
    have perm' := keySort_perm (gs.map sortField)
    have both : (fields.map sortField).Perm (gs.map sortField) := by
      have middle : keySort (fields.map sortField) = keySort (gs.map sortField) := e
      rw [middle] at perm
      exact perm.symm.trans perm'
    have keys := both.map Prod.fst
    rw [List.map_map, List.map_map] at keys
    apply SameValue.object _ _ keys
    intro k x y hx hy
    have inside : (k,sortKeys x) ∈ gs.map sortField :=
      both.mem_iff.mp (List.mem_map.mpr ⟨(k,x),hx,rfl⟩)
    obtain ⟨⟨key,z⟩,hz,ez⟩ := List.mem_map.mp inside
    obtain ⟨rfl,same⟩ := Prod.mk.inj ez
    obtain rfl := (Prod.mk.inj (List.inj_on_of_nodup_map distinct' hz hy rfl)).2
    exact ih _ hx (format _ hy) same.symm

end Order

/-- Parsing inverts the encoder, the encoder is a fixed point behind the parser, and one text
stands for one value up to the order of object keys. -/
theorem canonical_round_trip :
    (∀ v, V4Value none v → ∃ bytes w, C v = .ok bytes ∧ parseJSON bytes = .ok w ∧
      SameValue v w) ∧
    (∀ bytes v, parseJSON bytes = .ok v → ∃ canonical w, C v = .ok canonical ∧
      parseJSON canonical = .ok w ∧ C w = .ok canonical) ∧
    (∀ v w bytes, V4Value none v → V4Value none w → C v = .ok bytes → C w = .ok bytes →
      SameValue v w) := by
  refine ⟨?_,?_,?_⟩
  · intro v h
    exact ⟨_,_,C_of h,parseJSON_C h,sortKeys_same h⟩
  · intro bytes v accepted
    have h := parseJSON_format accepted
    refine ⟨_,_,C_of h,parseJSON_C h,?_⟩
    rw [C_of (sortKeys_format h), canonicalText_sortKeys h]
  · intro v w bytes hv hw cv cw
    rw [C_of hv, Except.ok.injEq] at cv
    rw [C_of hw, Except.ok.injEq] at cw
    have left := parseJSON_C hv
    have right := parseJSON_C hw
    rw [cv] at left
    rw [cw, left, Except.ok.injEq] at right
    exact same_of_sortKeys hv hw right

def sampleValue : Value :=
  .object [("z",.null),("__proto__",.number 1),("10",.string "é\n"),("exit_code",.number (-5)),
    ("list",.array [.bool true,.object []])]

theorem sampleValue_format : V4Value none sampleValue := by
  apply V4Value.object
  · decide
  · have inner : V4Value (some "list") (.array [.bool true,.object []]) := by
      apply V4Value.array
      simp only [List.mem_cons, List.not_mem_nil, or_false, forall_eq_or_imp, forall_eq]
      exact ⟨.bool none true,.object none [] (by simp) (by simp)⟩
    simp only [List.mem_cons, List.not_mem_nil, or_false, forall_eq_or_imp, forall_eq]
    exact ⟨.null _,.number _ 1 (by decide) (by decide),.string _ _,
      .number _ (-5) (by decide) (by decide),inner⟩

theorem canonical_round_trip_sample :
    (∃ bytes w, C sampleValue = .ok bytes ∧ parseJSON bytes = .ok w ∧ SameValue sampleValue w) ∧
      ∃ canonical w, C (sortKeys sampleValue) = .ok canonical ∧ parseJSON canonical = .ok w ∧
        C w = .ok canonical :=
  ⟨canonical_round_trip.1 sampleValue sampleValue_format,
    canonical_round_trip.2.1 _ _ (parseJSON_C sampleValue_format)⟩

end CanonicalRoundTrip

end EvidenceV4
