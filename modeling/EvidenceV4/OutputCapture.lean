import EvidenceV4.ScalarText

/-!
# Captured output of a tool

A capture keeps the first bytes of a stream and its last ones, counts what it
dropped between them, and decodes the two parts on their own. The parts do not
depend on how the stream came in chunks. A character that runs over the end of
the first part is decoded as two damaged ones, also when nothing was dropped.
-/

set_option autoImplicit false

namespace EvidenceV4

namespace OutputCapture

open CheckerJson (PyString points)
open EvidenceArtifact
open PythonData (say number)

@[ext]
structure Capture where
  head : List UInt8
  tail : List UInt8
  headMax : ℕ
  tailMax : ℕ
  total : ℕ
  dropped : ℕ

def fresh (headMax tailMax : ℕ) : Capture := ⟨[],[],headMax,tailMax,0,0⟩

def store (cap : Capture) (chunk : List UInt8) : Capture :=
  if chunk = [] then cap
  else
    let tail := cap.tail ++ chunk
    let excess := tail.length - cap.tailMax
    { cap with tail := tail.drop excess, dropped := cap.dropped + excess }

def feed (cap : Capture) (chunk : List UInt8) : Capture :=
  let cap := { cap with total := cap.total + chunk.length }
  if cap.head.length < cap.headMax then
    let room := cap.headMax - cap.head.length
    store { cap with head := cap.head ++ chunk.take room } (chunk.drop room)
  else store cap chunk

def feedAll (cap : Capture) (chunks : List (List UInt8)) : Capture := chunks.foldl feed cap

/-- The summary of a truncated stream: first, last and all bytes and the elided ones. -/
def summary (head tail total dropped : ℕ) : PyString :=
  say [points "[runproc: output truncated — kept first ",number head,points " B and last ",
    number tail,points " B of ",number total,points " B total; ",number dropped,
    points " B elided from the middle]\n"]

def text (cap : Capture) : PyString :=
  let head := decode cap.head
  let tail := decode cap.tail
  if cap.dropped = 0 then head ++ tail
  else
    summary cap.head.length cap.tail.length cap.total cap.dropped ++ head ++
      points "\n...\n" ++ tail

section Streams

variable (headMax tailMax : ℕ)

/-- What a capture holds of a stream. -/
def holding (stream : List UInt8) : Capture :=
  let rest := stream.drop headMax
  { head := stream.take headMax
    tail := rest.drop (rest.length - tailMax)
    headMax := headMax
    tailMax := tailMax
    total := stream.length
    dropped := rest.length - tailMax }

theorem drop_tail (rest chunk : List UInt8) :
    (rest.drop (rest.length - tailMax) ++ chunk).drop
        ((rest.drop (rest.length - tailMax) ++ chunk).length - tailMax) =
      (rest ++ chunk).drop ((rest ++ chunk).length - tailMax) := by
  by_cases fits : rest.length ≤ tailMax
  · rw [Nat.sub_eq_zero_of_le fits, List.drop_zero]
  · have short : rest.length - tailMax ≤ rest.length := Nat.sub_le _ _
    rw [← List.drop_append_of_le_length short, List.drop_drop, List.length_drop]
    congr 1
    rw [List.length_append]
    omega

theorem store_holding (stream chunk : List UInt8) (full : headMax ≤ stream.length) :
    store { holding headMax tailMax stream with total := stream.length + chunk.length } chunk =
      holding headMax tailMax (stream ++ chunk) := by
  have head : (stream ++ chunk).take headMax = stream.take headMax :=
    List.take_append_of_le_length full
  have rest : (stream ++ chunk).drop headMax = stream.drop headMax ++ chunk :=
    List.drop_append_of_le_length full
  unfold store
  split_ifs with none
  · simp [none, holding]
  · ext : 1
    · exact head.symm
    · simp only [holding, rest]
      exact drop_tail tailMax _ chunk
    · rfl
    · rfl
    · simp only [holding, List.length_append]
    · simp only [holding, rest, List.length_append, List.length_drop]
      omega

theorem store_short (stream : List UInt8) (short : stream.length ≤ headMax) :
    holding headMax tailMax stream =
      ⟨stream,[],headMax,tailMax,stream.length,0⟩ := by
  simp [holding, List.take_of_length_le short, List.drop_eq_nil_of_le short]

/-- One chunk more is held like one longer stream. -/
theorem feed_holding (stream chunk : List UInt8) :
    feed (holding headMax tailMax stream) chunk = holding headMax tailMax (stream ++ chunk) := by
  by_cases full : headMax ≤ stream.length
  · have kept : (holding headMax tailMax stream).head.length = headMax := by
      simp [holding, full]
    simp only [feed, kept]
    rw [if_neg (show ¬ headMax < (holding headMax tailMax stream).headMax from lt_irrefl _)]
    exact store_holding headMax tailMax stream chunk full
  · have short := (not_le.mp full).le
    rw [store_short headMax tailMax stream short]
    simp only [feed]
    rw [if_pos (not_le.mp full)]
    have head : stream ++ chunk.take (headMax - stream.length) = (stream ++ chunk).take headMax := by
      rw [List.take_append, List.take_of_length_le short]
    have rest : chunk.drop (headMax - stream.length) = (stream ++ chunk).drop headMax := by
      rw [List.drop_append, List.drop_eq_nil_of_le short, List.nil_append]
    unfold store
    split_ifs with none
    · rw [rest] at none
      ext : 1
      · exact head
      · simp [holding, none]
      · rfl
      · rfl
      · simp [holding]
      · simp [holding, none]
    · ext : 1
      · exact head
      · simp only [holding, rest, List.nil_append]
      · rfl
      · rfl
      · simp [holding]
      · simp only [holding, rest, List.nil_append, Nat.zero_add]

theorem feedAll_holding (stream : List UInt8) (chunks : List (List UInt8)) :
    feedAll (holding headMax tailMax stream) chunks =
      holding headMax tailMax (stream ++ chunks.flatten) := by
  induction chunks generalizing stream with
  | nil => simp [feedAll]
  | cons chunk chunks ih =>
    rw [feedAll, List.foldl_cons, feed_holding, List.flatten_cons, ← List.append_assoc]
    exact ih _

theorem feedAll_fresh (chunks : List (List UInt8)) :
    feedAll (fresh headMax tailMax) chunks = holding headMax tailMax chunks.flatten := by
  have start : fresh headMax tailMax = holding headMax tailMax [] := by
    simp [fresh, holding]
  rw [start, feedAll_holding, List.nil_append]

end Streams

section Seams

/-- How a step of the decoder treats a text that is cut off behind `h` bytes. -/
def Cuts (step : List ℕ → ℕ × List ℕ) : Prop := ∀ rest, ∃ taken, taken ≤ rest.length ∧
  (step rest).2 = rest.drop taken ∧ (∀ b ∈ rest.take taken, continues b = true) ∧
  ∀ h, (taken ≤ h → step (rest.take h) = ((step rest).1,(rest.drop taken).take (h - taken))) ∧
    (h < taken → step (rest.take h) = (replacement,[]))

theorem cuts_done (point : ℕ) : Cuts (fun rest => (point,rest)) := by
  intro rest
  exact ⟨0,Nat.zero_le _,rfl,by simp,fun h => ⟨fun _ => by simp,by simp⟩⟩

/-- A step that expects a continuation first. -/
theorem cuts_expect {ok : ℕ → Bool} {next : ℕ → List ℕ → ℕ × List ℕ} {step : List ℕ → ℕ × List ℕ}
    (none : step [] = (replacement,[]))
    (some : ∀ b rest, step (b :: rest) = if ok b then next b rest else (replacement,b :: rest))
    (sound : ∀ b, ok b = true → continues b = true) (later : ∀ b, Cuts (next b)) :
    Cuts step := by
  intro rest
  cases rest with
  | nil => exact ⟨0,le_rfl,by simp [none],by simp,fun h => by simp [none]⟩
  | cons b rest =>
    by_cases good : ok b = true
    · obtain ⟨taken,bound,left,conts,cut⟩ := later b rest
      refine ⟨taken+1,Nat.succ_le_succ bound,?_,?_,?_⟩
      · rw [some, if_pos good, left]
        rfl
      · rw [List.take_succ_cons, List.forall_mem_cons]
        exact ⟨sound b good,conts⟩
      · intro h
        rw [some, if_pos good]
        match h with
        | 0 => exact ⟨fun long => absurd long (by omega),fun _ => none⟩
        | h+1 =>
          rw [List.take_succ_cons, some, if_pos good, Nat.add_sub_add_right]
          exact ⟨fun long => (cut h).1 (by omega),fun short => (cut h).2 (by omega)⟩
    · refine ⟨0,Nat.zero_le _,by rw [some, if_neg good]; rfl,by simp,fun h => ⟨fun _ => ?_,by simp⟩⟩
      rw [some, if_neg good]
      match h with
      | 0 => exact none
      | h+1 => rw [List.take_succ_cons, some, if_neg good]; rfl

theorem continuesLead_continues {lead b : ℕ} (h : continuesLead lead b = true) :
    continues b = true := by
  simp only [continuesLead, Bool.and_eq_true] at h
  exact h.1.1.1.1

theorem cuts_third (point : ℕ) : Cuts (decodeThird point) :=
  @cuts_expect continues (fun c rest => (point*64 + payload c,rest)) _ rfl
    (fun _ _ => rfl) (fun _ => id) (fun _ => cuts_done _)

theorem cuts_second (lead point : ℕ) : Cuts (decodeSecond lead point) :=
  @cuts_expect (continuesLead lead) (fun b => decodeThird (point*64 + payload b)) _ rfl
    (fun _ _ => rfl) (fun _ => continuesLead_continues) (fun _ => cuts_third _)

def decodeLongThird (point : ℕ) : List ℕ → ℕ × List ℕ
  | c :: rest =>
    if continues c then decodeThird (point*64 + payload c) rest else (replacement,c :: rest)
  | [] => (replacement,[])

theorem cuts_longThird (point : ℕ) : Cuts (decodeLongThird point) :=
  @cuts_expect continues (fun c => decodeThird (point*64 + payload c)) _ rfl
    (fun _ _ => rfl) (fun _ => id) (fun _ => cuts_third _)

theorem decodeLong_cons (lead point b : ℕ) (rest : List ℕ) :
    decodeLong lead point (b :: rest) =
      if continuesLead lead b then decodeLongThird (point*64 + payload b) rest
      else (replacement,b :: rest) := by
  cases rest <;> rfl

theorem cuts_long (lead point : ℕ) : Cuts (decodeLong lead point) :=
  @cuts_expect (continuesLead lead) (fun b => decodeLongThird (point*64 + payload b)) _ rfl
    (decodeLong_cons lead point) (fun _ => continuesLead_continues) (fun _ => cuts_longThird _)

theorem cuts_point (lead : ℕ) : Cuts (decodePoint lead) := by
  unfold Cuts decodePoint
  split_ifs
  · exact cuts_done lead
  · exact cuts_third _
  · exact cuts_second _ _
  · exact cuts_long _ _
  · exact cuts_done replacement

theorem decodePoint_continuation {b : ℕ} (stray : continues b = true) (rest : List ℕ) :
    decodePoint b rest = (replacement,rest) := by
  simp only [continues, Bool.and_eq_true, decide_eq_true_eq] at stray
  unfold decodePoint
  rw [if_neg (by omega), if_neg (by omega), if_neg (by omega), if_neg (by omega)]

theorem decodePoint_length (lead : ℕ) (rest : List ℕ) :
    (decodePoint lead rest).2.length ≤ rest.length := by
  obtain ⟨taken,_,left,_⟩ := cuts_point lead rest
  rw [left, List.length_drop]
  exact Nat.sub_le _ _

def decodeAll (bytes : List ℕ) : PyString := decodeBytes bytes.length bytes

theorem decodeBytes_enough (n : ℕ) {bytes : List ℕ} (enough : bytes.length ≤ n) :
    decodeBytes n bytes = decodeAll bytes := by
  suffices same : ∀ m, bytes.length ≤ m → decodeBytes n bytes = decodeBytes m bytes from
    same _ le_rfl
  induction n generalizing bytes with
  | zero =>
    obtain rfl := List.eq_nil_of_length_eq_zero (Nat.le_zero.mp enough)
    intro m _
    cases m <;> rfl
  | succ n ih =>
    intro m long
    match m, bytes with
    | 0, [] => rfl
    | m+1, [] => rfl
    | m+1, lead :: rest =>
      simp only [List.length_cons, Nat.add_le_add_iff_right] at enough long
      have shorter := decodePoint_length lead rest
      rw [decodeBytes, decodeBytes]
      exact congrArg _ (ih (shorter.trans enough) m (shorter.trans long))

theorem decodeAll_cons (lead : ℕ) (rest : List ℕ) : decodeAll (lead :: rest) =
    (decodePoint lead rest).1 :: decodeAll (decodePoint lead rest).2 :=
  congrArg _ (decodeBytes_enough _ (decodePoint_length lead rest))

/-- The cut behind `h` bytes runs through no character and no damaged one. -/
inductive Between : List ℕ → ℕ → Prop
  | front (bytes : List ℕ) : Between bytes 0
  | beyond (h : ℕ) : Between [] h
  | step (lead : ℕ) (rest : List ℕ) (h : ℕ) : Between (decodePoint lead rest).2 h →
      Between (lead :: rest) (rest.length - (decodePoint lead rest).2.length + h + 1)

theorem decode_strays {strays : List ℕ} (all : ∀ b ∈ strays, continues b = true) (rest : List ℕ) :
    (decodeAll (strays ++ rest)).length = strays.length + (decodeAll rest).length := by
  induction strays with
  | nil => simp
  | cons b strays ih =>
    obtain ⟨first,later⟩ := List.forall_mem_cons.mp all
    rw [List.cons_append, decodeAll_cons, decodePoint_continuation first, List.length_cons,
      ih later, List.length_cons]
    omega

/-- Two parts are decoded like the whole when the cut is between characters. -/
theorem decode_between {bytes : List ℕ} {h : ℕ} (between : Between bytes h) :
    decodeAll (bytes.take h) ++ decodeAll (bytes.drop h) = decodeAll bytes := by
  induction between with
  | front bytes => rfl
  | beyond h => simp [decodeAll, decodeBytes]
  | step lead rest h _ ih =>
    obtain ⟨taken,bound,left,_,cut⟩ := cuts_point lead rest
    have size : rest.length - (decodePoint lead rest).2.length = taken := by
      rw [left, List.length_drop]
      omega
    have whole := (cut (taken + h)).1 (Nat.le_add_right _ _)
    rw [Nat.add_sub_cancel_left, ← left] at whole
    rw [size, List.take_succ_cons, List.drop_succ_cons, decodeAll_cons, whole, decodeAll_cons,
      ← List.drop_drop, ← left, ← ih]
    rfl

/-- A cut through a character makes at least one more of it. -/
theorem decode_through {bytes : List ℕ} {h : ℕ} (through : ¬ Between bytes h) :
    (decodeAll bytes).length <
      (decodeAll (bytes.take h)).length + (decodeAll (bytes.drop h)).length := by
  induction n : bytes.length using Nat.strong_induction_on generalizing bytes h with
  | h n ih =>
    subst n
    match bytes, h with
    | [], h => exact absurd (.beyond h) through
    | bytes, 0 => exact absurd (.front bytes) through
    | lead :: rest, h+1 =>
      obtain ⟨taken,bound,left,conts,cut⟩ := cuts_point lead rest
      rw [List.take_succ_cons, List.drop_succ_cons, decodeAll_cons lead rest,
        decodeAll_cons lead (rest.take h)]
      by_cases inside : taken ≤ h
      · have size : rest.length - (decodePoint lead rest).2.length + (h - taken) + 1 = h+1 := by
          rw [left, List.length_drop]
          omega
        have later : ¬ Between (decodePoint lead rest).2 (h - taken) := by
          intro between
          have whole := Between.step lead rest (h - taken) between
          rw [size] at whole
          exact through whole
        have shorter := decodePoint_length lead rest
        have less := ih _ (Nat.lt_succ_of_le shorter) later rfl
        rw [(cut h).1 inside]
        rw [left] at less ⊢
        rw [List.drop_drop, Nat.add_sub_cancel' inside] at less
        simp only [List.length_cons]
        omega
      · have short := not_le.mp inside
        have split : rest.drop h = (rest.take taken).drop h ++ rest.drop taken := by
          conv_lhs => rw [← List.take_append_drop taken rest]
          rw [List.drop_append_of_le_length (by rw [List.length_take]; omega)]
        have strays := @decode_strays ((rest.take taken).drop h)
          (fun b member => conts b (List.mem_of_mem_drop member)) (rest.drop taken)
        rw [(cut h).2 short, split, strays, left, List.length_drop, List.length_take]
        simp only [List.length_cons]
        have empty : (decodeAll ([] : List ℕ)).length = 0 := rfl
        rw [empty]
        omega

theorem decode_parts_iff (bytes : List ℕ) (h : ℕ) :
    decodeAll (bytes.take h) ++ decodeAll (bytes.drop h) = decodeAll bytes ↔ Between bytes h := by
  constructor
  · intro same
    by_contra through
    have more := decode_through through
    rw [← same, List.length_append] at more
    exact lt_irrefl _ more
  · exact decode_between

end Seams

section Faithful

variable (headMax tailMax : ℕ)

/-- What a capture of the stream has to show. -/
def shown (stream : List UInt8) : PyString :=
  if stream.length ≤ headMax + tailMax then decode stream
  else
    summary headMax tailMax stream.length (stream.length - headMax - tailMax) ++
      decode (stream.take headMax) ++ points "\n...\n" ++
        decode (stream.drop (stream.length - tailMax))

theorem decode_eq (bytes : List UInt8) :
    decode bytes = decodeAll (bytes.map (fun b => b.toNat)) := by
  rw [decode, decodeAll, List.length_map]

/-- No character of a stream that is kept runs over the end of the head. -/
def SeamClear (stream : List UInt8) : Prop :=
  stream.length ≤ headMax + tailMax → Between (stream.map (fun b => b.toNat)) headMax

theorem text_fits {stream : List UInt8} (fits : stream.length ≤ headMax + tailMax) :
    text (holding headMax tailMax stream) =
      decode (stream.take headMax) ++ decode (stream.drop headMax) := by
  have none : stream.length - headMax - tailMax = 0 := by omega
  simp [text, holding, none]

theorem text_truncated {stream : List UInt8} (long : headMax + tailMax < stream.length) :
    text (holding headMax tailMax stream) = shown headMax tailMax stream := by
  have dropped : stream.length - headMax - tailMax ≠ 0 := by omega
  have first : min headMax stream.length = headMax := by omega
  have last : stream.length - (stream.length - tailMax) = tailMax := by omega
  have start : headMax + (stream.length - headMax - tailMax) = stream.length - tailMax := by omega
  simp only [text, holding, List.length_drop, List.length_take, List.drop_drop, if_neg dropped,
    first, last, start, shown, if_neg (not_le.mpr long)]

theorem text_iff (stream : List UInt8) :
    text (holding headMax tailMax stream) = shown headMax tailMax stream ↔
      SeamClear headMax tailMax stream := by
  by_cases fits : stream.length ≤ headMax + tailMax
  · have cut := decode_parts_iff (stream.map (fun b => b.toNat)) headMax
    rw [text_fits headMax tailMax fits, shown, if_pos fits, SeamClear, decode_eq, decode_eq,
      decode_eq, List.map_take, List.map_drop, cut]
    exact ⟨fun between _ => between,fun clear => clear fits⟩
  · rw [text_truncated headMax tailMax (not_le.mp fits)]
    exact ⟨fun _ short => absurd short fits,fun _ => rfl⟩

/-- A text that fits comes back as it was written when no character runs over the seam. -/
theorem text_encoded {ps : PyString} (valid : ∀ p ∈ ps, ScalarText.IsScalar p)
    (fits : (ScalarText.encode ps).length ≤ headMax + tailMax)
    (clear : SeamClear headMax tailMax (ScalarText.encode ps)) :
    text (holding headMax tailMax (ScalarText.encode ps)) = ps := by
  rw [(text_iff headMax tailMax _).mpr clear, shown, if_pos fits, ScalarText.decode_encode valid]

/-- What is shown depends on the stream alone, and it is faithful exactly when no character
runs over the seam of a stream that fits. -/
theorem capture_iff (chunks : List (List UInt8)) :
    text (feedAll (fresh headMax tailMax) chunks) =
        text (feed (fresh headMax tailMax) chunks.flatten) ∧
      (text (feedAll (fresh headMax tailMax) chunks) = shown headMax tailMax chunks.flatten ↔
        SeamClear headMax tailMax chunks.flatten) := by
  have whole := feedAll_fresh headMax tailMax [chunks.flatten]
  rw [List.flatten_singleton] at whole
  rw [feedAll_fresh]
  exact ⟨congrArg text whole.symm,text_iff headMax tailMax chunks.flatten⟩

end Faithful

/-- Two bytes of one character, kept in two parts. -/
theorem capture_damages : ¬ ∀ headMax tailMax chunks,
    text (feedAll (fresh headMax tailMax) chunks) = shown headMax tailMax chunks.flatten := by
  intro all
  have damaged := all 1 1 [[0xc3,0xa9]]
  have two : text (feedAll (fresh 1 1) [[0xc3,0xa9]]) = [0xfffd,0xfffd] := by decide +kernel
  have one : shown 1 1 [[0xc3,0xa9]].flatten = [0xe9] := by decide +kernel
  rw [two, one] at damaged
  exact absurd damaged (by decide)

end OutputCapture

end EvidenceV4
