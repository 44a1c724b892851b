import EvidenceV4.JsonAgreement

/-!
# Producer and checker write the same JSON

A value of the producer and its image in the checker have one canonical text:
both encoders escape the same characters and sort keys by their encoded bytes.
With the agreement of the readers, an identity that the producer computes from a
document is the one that the checker computes from it.
-/

set_option autoImplicit false

namespace EvidenceV4

namespace JsonIdentity

open CheckedExcept JsonText CheckerJson JsonAgreement
open CanonicalJson (Value separated)
open CanonicalRoundTrip (V4Value canonicalText fieldText keySort)
open Schema (utf8Bytes)

section Encoding

def textPoints (text : List Char) : PyString := text.map Char.toNat

theorem encodeUtf8_textPoints (text : List Char) :
    encodeUtf8 (textPoints text) = utf8Bytes (String.ofList text) := by
  have same : Char.ofNat ∘ Char.toNat = id := by
    ext1 c
    exact Char.ofNat_toNat c
  rw [encodeUtf8, textPoints, List.map_map, same, List.map_id]

theorem encodeUtf8_points (s : String) : encodeUtf8 (points s) = utf8Bytes s := by
  have same := encodeUtf8_textPoints s.toList
  rw [String.ofList_toList] at same
  exact same

theorem escapePoint_char (c : Char) :
    escapePoint c.toNat = textPoints (CanonicalJson.escapeChar c) := by
  have code : ∀ d : Char, c.toNat = d.toNat ↔ c = d := fun d => Char.toNat_inj
  have quote := code '"'
  have slash := code '\\'
  simp only [Char.reduceToNat] at quote slash
  unfold escapePoint CanonicalJson.escapeChar
  simp only [quote, slash]
  split_ifs <;> rfl

theorem quote_points (s : String) : quote (points s) = textPoints (CanonicalJson.quote s) := by
  have text : (points s).flatMap escapePoint =
      textPoints (s.toList.flatMap CanonicalJson.escapeChar) := by
    rw [points, textPoints, List.flatMap_map, List.map_flatMap]
    exact List.flatMap_congr (fun c _ => escapePoint_char c)
  rw [quote, CanonicalJson.quote, text]
  simp [textPoints]

theorem joined_points (parts : List (List Char)) :
    joined (parts.map textPoints) = textPoints (separated parts) := by
  induction parts with
  | nil => rfl
  | cons p parts ih =>
    cases parts with
    | nil => simp [joined, separated, List.intercalate]
    | cons q parts =>
      rw [CanonicalRoundTrip.separated_cons, textPoints, List.map_append, List.map_cons]
      change _ = textPoints p ++ 44 :: textPoints (separated (q :: parts))
      rw [← ih]
      simp [joined, List.intercalate]

def pointsField (p : String × List Char) : PyString × PyString := (points p.1,textPoints p.2)

theorem keyOrder_points (a b : String × List Char) :
    keyOrder (pointsField a) (pointsField b) = CanonicalJson.keyOrder a b := by
  have order := Utf8Order.utf8Compare_ne_gt a.1 b.1
  rw [keyOrder, CanonicalJson.keyOrder, pointsField, pointsField, encodeUtf8_points,
    encodeUtf8_points]
  apply Bool.eq_iff_iff.mpr
  rw [decide_eq_true_eq, order]

theorem encodeEntries_of {entries : List Value}
    (h : ∀ e ∈ entries, encode (toPython e) =
      .ok (textPoints (canonicalText none e))) :
    encodeEntries (toPythonEntries entries) =
      .ok ((entries.map (canonicalText none)).map textPoints) := by
  induction entries with
  | nil => rfl
  | cons e rest ih =>
    rw [toPythonEntries, encodeEntries, h e List.mem_cons_self,
      ih (fun x hx => h x (List.mem_cons_of_mem _ hx))]
    rfl

theorem encodeFields_of {fields : List (String × Value)}
    (h : ∀ p ∈ fields, encode (toPython p.2) =
      .ok (textPoints (canonicalText (some p.1) p.2))) :
    encodeFields (toPythonFields fields) =
      .ok ((fields.map fieldText).map pointsField) := by
  induction fields with
  | nil => rfl
  | cons p rest ih =>
    rw [toPythonFields, encodeFields, scalar_points, h p List.mem_cons_self,
      ih (fun x hx => h x (List.mem_cons_of_mem _ hx))]
    rfl

theorem keySort_points (parts : List (String × List Char)) :
    (parts.map pointsField).insertionSort (fun a b => keyOrder a b) =
      (keySort parts).map pointsField := by
  symm
  apply List.map_insertionSort
  intro a _ b _
  rw [keyOrder_points]

theorem entry_points (p : String × List Char) :
    quote (pointsField p).1 ++ 58 :: (pointsField p).2 =
      textPoints (CanonicalRoundTrip.entryText p) := by
  rw [pointsField, quote_points, CanonicalRoundTrip.entryText]
  simp [textPoints]

/-- The checker writes the canonical text of every value of the format. -/
theorem encode_points {field : Option String} {v : Value} (h : V4Value field v) :
    encode (toPython v) = .ok (textPoints (canonicalText field v)) := by
  induction h with
  | null field => rfl
  | bool field b => cases b <;> rfl
  | string field s =>
    rw [toPython, encode, scalar_points]
    exact congrArg Except.ok (quote_points s)
  | number field n safe sign =>
    rw [CanonicalRoundTrip.canonicalText_number safe sign, toPython, encode,
      if_neg (not_lt.mpr ((isSafeInteger_iff n).mp safe))]
    rfl
  | array field entries each ih =>
    rw [CanonicalRoundTrip.canonicalText_array each, toPython, encode, encodeEntries_of ih]
    simp only [bind, Except.bind, joined_points]
    simp [textPoints]
  | object field fields distinct each ih =>
    have sorted : keySort (fields.map fieldText) = (keySort fields).map fieldText :=
      CanonicalRoundTrip.map_keySort fieldText (fun _ => rfl) fields
    have entries : (((keySort fields).map fieldText).map pointsField).map
        (fun p => quote p.1 ++ 58 :: p.2) = ((keySort fields).map
          (fun p => CanonicalRoundTrip.entryText (fieldText p))).map textPoints := by
      rw [List.map_map, List.map_map, List.map_map]
      exact List.map_congr_left (fun p _ => entry_points (fieldText p))
    have text : joined ((((fields.map fieldText).map pointsField).insertionSort
        (fun a b => keyOrder a b)).map (fun p => quote p.1 ++ 58 :: p.2)) =
          textPoints (CanonicalRoundTrip.membersText (keySort fields)) := by
      rw [keySort_points, sorted, entries, joined_points]
      rfl
    rw [CanonicalRoundTrip.canonicalText_object each, toPython, encode, encodeFields_of ih]
    simp only [bind, Except.bind, text]
    simp [textPoints]

/-- A value of the format passes the walk of the checker. -/
theorem grammar_format {field : Option String} {v : Value} (h : V4Value field v) :
    grammar (field.map points) (toPython v) = .ok () := by
  induction h with
  | null field => rfl
  | bool field b => rfl
  | string field s => exact scalar_points s
  | number field n safe sign => exact (grammar_number field n ()).mpr ⟨safe,sign⟩
  | array field entries each ih => exact (grammar_array _ _).mpr ih
  | object field fields distinct each ih => exact (grammar_object _ _).mpr ih

theorem C_points {v : Value} (h : V4Value none v) :
    C (toPython v) = .ok (utf8Bytes (String.ofList (canonicalText none v))) := by
  have walk : grammar none (toPython v) = .ok () := grammar_format h
  rw [C, walk, encode_points h]
  exact congrArg Except.ok (encodeUtf8_textPoints _)

theorem D_points (sha256 : List UInt8 → String) (label : String) {v : Value}
    (h : V4Value none v) :
    ∃ d, CanonicalJson.D sha256 label v = .ok d ∧ D sha256 label (toPython v) = .ok d := by
  have zero : utf8Bytes "\x00" = [0] := by decide
  have name : encodeUtf8 (points "fv-evidence-v4/" ++ points label) =
      utf8Bytes ("fv-evidence-v4/" ++ label) := by
    rw [← encodeUtf8_points]
    simp [points]
  rw [CanonicalJson.D, CanonicalRoundTrip.C_of h, D, C_points h]
  refine ⟨_,rfl,?_⟩
  simp only [bind, Except.bind, name]
  rw [Utf8Order.utf8Bytes_append _ "\x00", zero]
  rfl

/-- Producer and checker accept the same bytes, read one value from them and give it one
canonical text and one identity under every label. -/
theorem json_agreement (sha256 : List UInt8 → String) (bytes : List UInt8) :
    ((∃ v, CanonicalJson.parseJSON bytes = .ok v) ↔ ∃ w, parseJson bytes = .ok w) ∧
    ∀ v w, CanonicalJson.parseJSON bytes = .ok v → parseJson bytes = .ok w →
      w = toPython v ∧ (∃ c, CanonicalJson.C v = .ok c ∧ C w = .ok c) ∧
        ∀ label, ∃ d, CanonicalJson.D sha256 label v = .ok d ∧ D sha256 label w = .ok d := by
  have read := parseJson_ok bytes
  constructor
  · constructor
    · rintro ⟨v,h⟩
      exact ⟨toPython v,(read _).mpr ⟨v,rfl,h⟩⟩
    · rintro ⟨w,h⟩
      obtain ⟨v,_,h⟩ := (read w).mp h
      exact ⟨v,h⟩
  · intro v w hv hw
    obtain ⟨v',rfl,h⟩ := (read w).mp hw
    obtain rfl : v' = v := Except.ok.inj (h.symm.trans hv)
    have format := CanonicalRoundTrip.parseJSON_format hv
    refine ⟨rfl,⟨_,CanonicalRoundTrip.C_of format,C_points format⟩,?_⟩
    exact fun label => D_points sha256 label format

theorem json_agreement_sample : ∃ d,
    CanonicalJson.D (fun _ => "00") "sample" (CanonicalRoundTrip.sortKeys
      CanonicalRoundTrip.sampleValue) = .ok d ∧
    D (fun _ => "00") "sample" (toPython (CanonicalRoundTrip.sortKeys
      CanonicalRoundTrip.sampleValue)) = .ok d := by
  have read := CanonicalRoundTrip.parseJSON_C CanonicalRoundTrip.sampleValue_format
  exact ((json_agreement (fun _ => "00") _).2 _ _ read
    ((parseJson_ok _ _).mpr ⟨_,rfl,read⟩)).2.2 "sample"

end Encoding

end JsonIdentity

end EvidenceV4
