import EvidenceV4.Calendar
import EvidenceV4.ProducerArtifact

/-!
# Timestamps

A timestamp is a date and a time of day to the millisecond, in universal time
and of fixed width. The producer accepts a string that its date parser prints
back unchanged. The checker matches a pattern and lets the calendar of its
library read the fields. The pattern takes a digit of any script, and the
calendar of the checker starts with year one.
-/

set_option autoImplicit false

namespace EvidenceV4

namespace Timestamp

open CheckedExcept Calendar
open EvidenceArtifact (decimal decimalZeros)
open CheckerJson (PyString points)
open ProducerArtifact (asciiDigit)

section Texts

/-- The fixed characters of a timestamp; a digit stands at every other place. -/
def template : List (Option ℕ) :=
  (points "dddd-dd-ddTdd:dd:dd.dddZ").map (fun c => if c = 100 then none else some c)

def fits (digit : ℕ → Bool) : List (Option ℕ) → PyString → Bool
  | [],[] => true
  | none :: shape,c :: s => digit c && fits digit shape s
  | some x :: shape,c :: s => c == x && fits digit shape s
  | _,_ => false

/-- The characters at the places of digits. -/
def places : List (Option ℕ) → PyString → List ℕ
  | none :: shape,c :: s => c :: places shape s
  | some _ :: shape,_ :: s => places shape s
  | _,_ => []

def groups (s : PyString) : List ℕ := places template s

def fill : List (Option ℕ) → List ℕ → PyString
  | none :: shape,d :: ds => d :: fill shape ds
  | some x :: shape,ds => x :: fill shape ds
  | _,_ => []

def digitValue (c : ℕ) : ℕ :=
  match decimalZeros.find? (fun z => z ≤ c && c ≤ z+9) with
  | some z => c-z
  | none => 0

def number (ds : List ℕ) : ℕ := ds.foldl (fun n c => 10*n + digitValue c) 0

/-- The fields that the digits spell. -/
def readStamp (ds : List ℕ) : Stamp where
  year := number (ds.take 4)
  month := number ((ds.drop 4).take 2)
  day := number ((ds.drop 6).take 2)
  hour := number ((ds.drop 8).take 2)
  minute := number ((ds.drop 10).take 2)
  second := number ((ds.drop 12).take 2)
  milli := number ((ds.drop 14).take 3)

def pad : ℕ → ℕ → List ℕ
  | 0,_ => []
  | k+1,n => pad k (n/10) ++ [48+n%10]

def clockDigits (s : Stamp) : List ℕ :=
  pad 2 s.month ++ (pad 2 s.day ++ (pad 2 s.hour ++ (pad 2 s.minute ++ (pad 2 s.second ++
    pad 3 s.milli))))

def isoDigits (s : Stamp) : List ℕ := pad 4 s.year.toNat ++ clockDigits s

end Texts

section Producer

def yearText (y : ℤ) : PyString :=
  if 0 ≤ y ∧ y ≤ 9999 then pad 4 y.toNat else (if y < 0 then 45 else 43) :: pad 6 y.natAbs

/-- The extended form of a stamp: four digits of the year, or a sign and six. -/
def iso (s : Stamp) : PyString := yearText s.year ++ fill (template.drop 4) (clockDigits s)

/-- The milliseconds from year zero to the start of 1970. -/
def epoch : ℤ := 719528*dayMillis

def toISOString (t : ℤ) : PyString := iso (ofInstant (t+epoch))

/-- The time value of a date string. What the engine makes of a string with a
field out of range is up to it. -/
def dateValue (lenient : PyString → Option ℤ) (s : PyString) : Option ℤ :=
  let stamp := readStamp (groups s)
  if Valid stamp then some (instant stamp - epoch) else lenient s

def validateUtc (lenient : PyString → Option ℤ) (s : PyString) : Except String Unit := do
  check (fits asciiDigit template s = true) "invalid grammar"
  match dateValue lenient s with
  | none => throw "invalid UTC date"
  | some t => check (toISOString t = s) "invalid UTC date"

end Producer

section Checker

def monthText (a b : ℕ) : Bool := a == 49 && 48 ≤ b && b ≤ 50 || a == 48 && 49 ≤ b && b ≤ 57

def dayText (a b : ℕ) : Bool :=
  a == 51 && 48 ≤ b && b ≤ 49 || 49 ≤ a && a ≤ 50 && decimal b || a == 48 && 49 ≤ b && b ≤ 57

def hourText (a b : ℕ) : Bool :=
  a == 50 && 48 ≤ b && b ≤ 51 || 48 ≤ a && a ≤ 49 && decimal b

def minuteText (a b : ℕ) : Bool := 48 ≤ a && a ≤ 53 && decimal b

def secondText (a b : ℕ) : Bool :=
  a == 54 && 48 ≤ b && b ≤ 49 || 48 ≤ a && a ≤ 53 && decimal b

/-- The patterns of the directives of the format. The characters between them
fix how many digits each one takes. -/
def directives : List ℕ → Bool
  | [y1,y2,y3,y4,m1,m2,d1,d2,h1,h2,n1,n2,s1,s2,f1,f2,f3] =>
    [y1,y2,y3,y4].all decimal && monthText m1 m2 && dayText d1 d2 && hourText h1 h2 &&
      minuteText n1 n2 && secondText s1 s2 && [f1,f2,f3].all asciiDigit
  | _ => false

def strptime (s : PyString) : Option Stamp :=
  let stamp := readStamp (groups s)
  if directives (groups s) = true ∧ 1 ≤ stamp.year ∧ Valid stamp then some stamp else none

def utc (s : PyString) : Except String Unit := do
  check (fits decimal template s = true) "invalid UTC timestamp"
  match strptime s with
  | none => throw "invalid UTC timestamp"
  | some _ => pure ()

end Checker

section Digits

theorem digitValue_ascii {d : ℕ} (small : d < 10) : digitValue (48+d) = d := by
  have found : decimalZeros.find? (fun z => z ≤ 48+d && 48+d ≤ z+9) = some 48 := by
    apply List.find?_cons_of_pos
    simp only [Bool.and_eq_true, decide_eq_true_eq]
    omega
  rw [digitValue, found]
  exact Nat.add_sub_cancel_left _ _

theorem digitValue_le (c : ℕ) : digitValue c ≤ 9 := by
  unfold digitValue
  split
  · rename_i z found
    have near := List.find?_some found
    simp only [Bool.and_eq_true, decide_eq_true_eq] at near
    omega
  · omega

theorem asciiDigit_iff {c : ℕ} : asciiDigit c = true ↔ 48 ≤ c ∧ c ≤ 57 := by
  rw [asciiDigit, Bool.and_eq_true, decide_eq_true_eq, decide_eq_true_eq]

theorem ascii_value {c : ℕ} (digit : asciiDigit c = true) : c = 48+digitValue c := by
  rw [asciiDigit_iff] at digit
  obtain ⟨d,small,rfl⟩ : ∃ d, d < 10 ∧ c = 48+d := ⟨c-48,by omega,by omega⟩
  rw [digitValue_ascii small]

theorem ascii_decimal {c : ℕ} (digit : asciiDigit c = true) : decimal c = true := by
  rw [asciiDigit_iff] at digit
  apply List.any_eq_true.mpr
  refine ⟨48,by decide,?_⟩
  simp only [Bool.and_eq_true, decide_eq_true_eq]
  exact digit

theorem pad_length (k n : ℕ) : (pad k n).length = k := by
  induction k generalizing n with
  | zero => rfl
  | succ k ih => rw [pad, List.length_append, ih, List.length_singleton]

theorem mem_pad {k n c : ℕ} (member : c ∈ pad k n) : asciiDigit c = true := by
  induction k generalizing n with
  | zero => cases member
  | succ k ih =>
    rw [pad, List.mem_append, List.mem_singleton] at member
    rcases member with before | last
    · exact ih before
    · rw [asciiDigit_iff]
      omega

theorem number_append (ds : List ℕ) (c : ℕ) : number (ds ++ [c]) = 10*number ds + digitValue c := by
  rw [number, List.foldl_append]
  rfl

theorem number_lt (ds : List ℕ) : number ds < 10^ds.length := by
  induction ds using List.reverseRecOn with
  | nil => exact Nat.one_pos
  | append_singleton ds c ih =>
    have digit := digitValue_le c
    rw [number_append, List.length_append, List.length_singleton, Nat.pow_succ]
    omega

theorem number_pad (k n : ℕ) (small : n < 10^k) : number (pad k n) = n := by
  induction k generalizing n with
  | zero =>
    rw [Nat.pow_zero, Nat.lt_one_iff] at small
    rw [small]
    rfl
  | succ k ih =>
    rw [Nat.pow_succ] at small
    rw [pad, number_append, ih _ (by omega), digitValue_ascii (Nat.mod_lt _ (by decide))]
    omega

theorem append_lt {x y r q : List ℕ} (same : x.length = y.length) :
    x ++ r < y ++ q ↔ x < y ∨ x = y ∧ r < q := by
  induction x generalizing y with
  | nil =>
    rw [List.length_eq_zero_iff.mp same.symm]
    simp
  | cons c x ih =>
    cases y with
    | nil => cases same
    | cons d y =>
      rw [List.cons_append, List.cons_append, List.cons_lt_cons_iff, List.cons_lt_cons_iff,
        ih (Nat.succ.inj same), List.cons.injEq]
      tauto

theorem pad_lt {k n m : ℕ} (hn : n < 10^k) (hm : m < 10^k) (less : pad k n < pad k m) : n < m := by
  induction k generalizing n m with
  | zero => exact absurd less (List.lt_irrefl _)
  | succ k ih =>
    rw [Nat.pow_succ] at hn hm
    rw [pad, pad, append_lt (by rw [pad_length, pad_length])] at less
    rcases less with front | ⟨same,last⟩
    · have tens := ih (by omega) (by omega) front
      omega
    · have tens := congrArg number same
      rw [number_pad _ _ (by omega), number_pad _ _ (by omega)] at tens
      rw [List.cons_lt_cons_iff] at last
      rcases last with units | ⟨-,impossible⟩
      · omega
      · exact absurd impossible (List.lt_irrefl _)

theorem pad_eq {k n m : ℕ} (hn : n < 10^k) (hm : m < 10^k) (same : pad k n = pad k m) : n = m := by
  have value := congrArg number same
  rwa [number_pad k n hn, number_pad k m hm] at value

end Digits

section Shapes

variable {digit : ℕ → Bool} {shape : List (Option ℕ)}

theorem fits_fill {s : PyString} (shaped : fits digit shape s = true) :
    fill shape (places shape s) = s := by
  induction shape generalizing s with
  | nil =>
    cases s with
    | nil => rfl
    | cons c s => cases shaped
  | cons x shape ih =>
    cases s with
    | nil => cases x <;> cases shaped
    | cons c s =>
      cases x with
      | none =>
        rw [fits, Bool.and_eq_true] at shaped
        rw [places, fill, ih shaped.2]
      | some x =>
        rw [fits, Bool.and_eq_true] at shaped
        rw [places, fill, ih shaped.2, eq_of_beq shaped.1]

theorem fits_places {s : PyString} (shaped : fits digit shape s = true) :
    (places shape s).length = shape.count none ∧ ∀ c ∈ places shape s, digit c = true := by
  induction shape generalizing s with
  | nil =>
    cases s with
    | nil => exact ⟨rfl,fun c member => nomatch member⟩
    | cons c s => cases shaped
  | cons x shape ih =>
    cases s with
    | nil => cases x <;> cases shaped
    | cons c s =>
      cases x with
      | none =>
        rw [fits, Bool.and_eq_true] at shaped
        obtain ⟨length,each⟩ := ih shaped.2
        rw [places, List.length_cons, length, List.count_cons_self]
        exact ⟨rfl,List.forall_mem_cons.mpr ⟨shaped.1,each⟩⟩
      | some x =>
        rw [fits, Bool.and_eq_true] at shaped
        obtain ⟨length,each⟩ := ih shaped.2
        rw [places, length, List.count_cons_of_ne (by simp)]
        exact ⟨rfl,each⟩

theorem fill_fits {ds : List ℕ} (length : ds.length = shape.count none)
    (each : ∀ c ∈ ds, digit c = true) :
    fits digit shape (fill shape ds) = true ∧ places shape (fill shape ds) = ds := by
  induction shape generalizing ds with
  | nil =>
    rw [List.length_eq_zero_iff.mp length]
    exact ⟨rfl,rfl⟩
  | cons x shape ih =>
    cases x with
    | none =>
      rw [List.count_cons_self] at length
      cases ds with
      | nil => cases length
      | cons d ds =>
        obtain ⟨shaped,back⟩ := ih (Nat.succ.inj length)
          (fun c member => each c (List.mem_cons_of_mem _ member))
        rw [fill, fits, places, back, shaped, each d List.mem_cons_self]
        exact ⟨rfl,rfl⟩
    | some x =>
      rw [List.count_cons_of_ne (by simp)] at length
      obtain ⟨shaped,back⟩ := ih length each
      rw [fill, fits, places, back, shaped, beq_self_eq_true]
      exact ⟨rfl,rfl⟩

theorem fill_lt {ds es : List ℕ} (hd : ds.length = shape.count none)
    (he : es.length = shape.count none) : fill shape ds < fill shape es ↔ ds < es := by
  induction shape generalizing ds es with
  | nil =>
    rw [List.length_eq_zero_iff.mp hd, List.length_eq_zero_iff.mp he]
    rfl
  | cons x shape ih =>
    cases x with
    | none =>
      rw [List.count_cons_self] at hd he
      cases ds with
      | nil => cases hd
      | cons d ds =>
        cases es with
        | nil => cases he
        | cons e es =>
          rw [fill, fill, List.cons_lt_cons_iff, List.cons_lt_cons_iff,
            ih (Nat.succ.inj hd) (Nat.succ.inj he)]
    | some x =>
      rw [List.count_cons_of_ne (by simp)] at hd he
      rw [fill, fill, List.cons_lt_cons_iff, ih hd he]
      simp

theorem template_count : template.count none = 17 := by decide

end Shapes

section Stamps

variable {a b : Stamp}

/-- A valid stamp whose year has four digits. -/
structure FourDigit (first : ℤ) (s : Stamp) : Prop where
  valid : Valid s
  low : first ≤ s.year
  high : s.year ≤ 9999

theorem isoDigits_length (s : Stamp) : (isoDigits s).length = 17 := by
  simp only [isoDigits, clockDigits, List.length_append, pad_length]

theorem isoDigits_ascii {s : Stamp} {c : ℕ} (member : c ∈ isoDigits s) : asciiDigit c = true := by
  simp only [isoDigits, clockDigits, List.mem_append] at member
  rcases member with m | m | m | m | m | m | m
  all_goals exact mem_pad m

theorem fill_year (y : ℕ) (ds : List ℕ) :
    fill template (pad 4 y ++ ds) = pad 4 y ++ fill (template.drop 4) ds := by
  have year : pad 4 y = [48+y/10/10/10%10,48+y/10/10%10,48+y/10%10,48+y%10] := by simp [pad]
  have shape : template = none :: none :: none :: none :: template.drop 4 := by decide
  rw [year, shape]
  rfl

theorem iso_fill (range : FourDigit 0 a) : iso a = fill template (isoDigits a) := by
  rw [iso, yearText, if_pos ⟨range.low,range.high⟩, isoDigits, fill_year]

theorem slice {l x y z : List ℕ} {n k : ℕ} (whole : l = x ++ (y ++ z)) (before : x.length = n)
    (width : y.length = k) : (l.drop n).take k = y := by
  rw [whole, List.drop_append_of_le_length (Nat.le_of_eq before.symm),
    List.drop_of_length_le (Nat.le_of_eq before), List.nil_append, List.take_left' width]

theorem number_slice {l x z : List ℕ} {n k v : ℕ} (whole : l = x ++ (pad k v ++ z))
    (before : x.length = n) (small : v < 10^k) : number ((l.drop n).take k) = v := by
  rw [slice whole before (pad_length k v), number_pad k v small]

theorem readStamp_isoDigits (range : FourDigit 0 a) : readStamp (isoDigits a) = a := by
  have low := range.low
  have high := range.high
  have month := range.valid.month
  have day := range.valid.day
  have longest := daysInMonth_le a.year a.month
  have hour := range.valid.hour
  have minute := range.valid.minute
  have second := range.valid.second
  have year : number ((isoDigits a).take 4) = a.year.toNat := by
    have whole : isoDigits a = [] ++ (pad 4 a.year.toNat ++ clockDigits a) := rfl
    exact number_slice whole rfl (by omega)
  have months : number (((isoDigits a).drop 4).take 2) = a.month :=
    number_slice (x := pad 4 a.year.toNat) rfl (pad_length _ _) (by omega)
  have days : number (((isoDigits a).drop 6).take 2) = a.day :=
    number_slice (x := pad 4 a.year.toNat ++ pad 2 a.month) (List.append_assoc _ _ _).symm
      (by simp only [List.length_append, pad_length]) (by omega)
  have hours : number (((isoDigits a).drop 8).take 2) = a.hour :=
    number_slice (x := pad 4 a.year.toNat ++ pad 2 a.month ++ pad 2 a.day)
      (z := pad 2 a.minute ++ (pad 2 a.second ++ pad 3 a.milli))
      (by simp only [isoDigits, clockDigits, List.append_assoc])
      (by simp only [List.length_append, pad_length]) (by omega)
  have minutes : number (((isoDigits a).drop 10).take 2) = a.minute :=
    number_slice (x := pad 4 a.year.toNat ++ pad 2 a.month ++ pad 2 a.day ++ pad 2 a.hour)
      (z := pad 2 a.second ++ pad 3 a.milli)
      (by simp only [isoDigits, clockDigits, List.append_assoc])
      (by simp only [List.length_append, pad_length]) (by omega)
  have seconds : number (((isoDigits a).drop 12).take 2) = a.second :=
    number_slice (x := pad 4 a.year.toNat ++ pad 2 a.month ++ pad 2 a.day ++ pad 2 a.hour ++
        pad 2 a.minute) (z := pad 3 a.milli)
      (by simp only [isoDigits, clockDigits, List.append_assoc])
      (by simp only [List.length_append, pad_length]) (by omega)
  have millis : number (((isoDigits a).drop 14).take 3) = a.milli :=
    number_slice (x := pad 4 a.year.toNat ++ pad 2 a.month ++ pad 2 a.day ++ pad 2 a.hour ++
        pad 2 a.minute ++ pad 2 a.second) (z := [])
      (by simp only [isoDigits, clockDigits, List.append_assoc, List.append_nil])
      (by simp only [List.length_append, pad_length]) range.valid.milli
  rw [readStamp, year, months, days, hours, minutes, seconds, millis, Int.toNat_of_nonneg low]

theorem iso_groups (range : FourDigit 0 a) :
    fits asciiDigit template (iso a) = true ∧ groups (iso a) = isoDigits a := by
  have length : (isoDigits a).length = template.count none := by
    rw [isoDigits_length, template_count]
  rw [iso_fill range]
  exact fill_fits length (fun c member => isoDigits_ascii member)

/-- Texts of one width in order belong to stamps in order. -/
theorem before_of_iso (ra : FourDigit 0 a) (rb : FourDigit 0 b) (less : iso a < iso b) :
    Before a b := by
  have lengths : ∀ s : Stamp, (isoDigits s).length = template.count none := fun s => by
    rw [isoDigits_length, template_count]
  rw [iso_fill ra, iso_fill rb, fill_lt (lengths a) (lengths b)] at less
  have yearA := ra.low
  have yearB := rb.low
  have lastA := ra.high
  have lastB := rb.high
  have monthA := ra.valid.month
  have monthB := rb.valid.month
  have dayA := ra.valid.day
  have dayB := rb.valid.day
  have longestA := daysInMonth_le a.year a.month
  have longestB := daysInMonth_le b.year b.month
  have hourA := ra.valid.hour
  have hourB := rb.valid.hour
  have minuteA := ra.valid.minute
  have minuteB := rb.valid.minute
  have secondA := ra.valid.second
  have secondB := rb.valid.second
  have step : ∀ {k n m : ℕ} {r q : List ℕ}, n < 10^k → m < 10^k → pad k n ++ r < pad k m ++ q →
      n < m ∨ n = m ∧ r < q := by
    intro k n m r q hn hm before
    rcases (append_lt (by rw [pad_length, pad_length])).mp before with first | ⟨same,rest⟩
    · exact Or.inl (pad_lt hn hm first)
    · exact Or.inr ⟨pad_eq hn hm same,rest⟩
  rcases step (by omega) (by omega) less with year | ⟨year,less⟩
  · exact Or.inl (by omega)
  refine Or.inr ⟨by omega,?_⟩
  rcases step (by omega) (by omega) less with month | ⟨month,less⟩
  · exact Or.inl month
  refine Or.inr ⟨month,?_⟩
  rcases step (by omega) (by omega) less with day | ⟨day,less⟩
  · exact Or.inl day
  refine Or.inr ⟨day,?_⟩
  rcases step (by omega) (by omega) less with hour | ⟨hour,less⟩
  · exact Or.inl hour
  refine Or.inr ⟨hour,?_⟩
  rcases step (by omega) (by omega) less with minute | ⟨minute,less⟩
  · exact Or.inl minute
  refine Or.inr ⟨minute,?_⟩
  rcases step (by omega) (by omega) less with second | ⟨second,less⟩
  · exact Or.inl second
  exact Or.inr ⟨second,pad_lt ra.valid.milli rb.valid.milli less⟩

/-- The order of the texts is the order of time. -/
theorem iso_lt_iff (ra : FourDigit 0 a) (rb : FourDigit 0 b) :
    iso a < iso b ↔ instant a < instant b := by
  constructor
  · intro less
    exact instant_lt ra.valid rb.valid (before_of_iso ra rb less)
  · intro less
    by_contra past
    rcases List.le_iff_lt_or_eq.mp (List.not_lt.mp past) with more | same
    · have later := instant_lt rb.valid ra.valid (before_of_iso rb ra more)
      omega
    · have equal : a = b := by
        rw [← readStamp_isoDigits ra, ← readStamp_isoDigits rb, ← (iso_groups ra).2,
          ← (iso_groups rb).2, same]
      rw [equal] at less
      omega

end Stamps

section Producer

variable (lenient : PyString → Option ℤ)

theorem fits_head {digit : ℕ → Bool} {c : ℕ} {s : PyString}
    (shaped : fits digit template (c :: s) = true) : digit c = true := by
  have shape : template = none :: template.drop 1 := by decide
  rw [shape, fits, Bool.and_eq_true] at shaped
  exact shaped.1

theorem yearText_range {s : Stamp} (shaped : fits asciiDigit template (iso s) = true) :
    0 ≤ s.year ∧ s.year ≤ 9999 := by
  by_contra out
  rw [iso, yearText, if_neg out, List.cons_append] at shaped
  have digit := asciiDigit_iff.mp (fits_head shaped)
  split at digit <;> omega

/-- The producer accepts the texts of the stamps of years 0 to 9999. -/
theorem validateUtc_ok (s : PyString) :
    validateUtc lenient s = .ok () ↔ ∃ stamp, FourDigit 0 stamp ∧ s = iso stamp := by
  unfold validateUtc
  rw [bind_ok]
  constructor
  · rintro ⟨u,shaped,parsed⟩
    have fit := (check_ok _ _ _).mp shaped
    cases found : dateValue lenient s with
    | none => rw [found] at parsed; exact absurd parsed (by simp)
    | some t =>
      rw [found] at parsed
      have printed : iso (ofInstant (t+epoch)) = s := (check_ok _ _ _).mp parsed
      rw [← printed] at fit
      obtain ⟨low,high⟩ := yearText_range fit
      exact ⟨_,⟨ofInstant_valid _,low,high⟩,printed.symm⟩
  · rintro ⟨stamp,range,rfl⟩
    obtain ⟨fit,split⟩ := iso_groups range
    have value : dateValue lenient (iso stamp) = some (instant stamp - epoch) := by
      simp only [dateValue, split, readStamp_isoDigits range, if_pos range.valid]
    refine ⟨(),(check_ok _ _ _).mpr fit,?_⟩
    rw [value]
    apply (check_ok _ _ _).mpr
    rw [toISOString, Int.sub_add_cancel, ofInstant_instant range.valid]

end Producer

section Checker

/-- The places of the digits that the patterns leave to any script. -/
def Free (stamp : Stamp) (i : ℕ) : Prop :=
  i < 4 ∨ i = 7 ∧ 10 ≤ stamp.day ∧ stamp.day < 30 ∨ i = 9 ∧ stamp.hour < 20 ∨ i = 11 ∨ i = 13

/-- A stamp written with digits of any script at the free places. -/
structure Respelled (stamp : Stamp) (s : PyString) : Prop where
  shaped : fits decimal template s = true
  reads : readStamp (groups s) = stamp
  ascii : ∀ i c, (groups s)[i]? = some c → asciiDigit c = true ∨ Free stamp i

variable {a b : ℕ}

theorem ascii_place (c : ℕ) : 48 ≤ c ∧ c ≤ 57 → c = 48+digitValue c :=
  fun digit => ascii_value (asciiDigit_iff.mpr digit)

theorem monthText_iff (low : 1 ≤ 10*digitValue a+digitValue b)
    (high : 10*digitValue a+digitValue b ≤ 12) :
    monthText a b = true ↔ asciiDigit a = true ∧ asciiDigit b = true := by
  have va := ascii_place a
  have vb := ascii_place b
  have bound := digitValue_le b
  simp only [monthText, asciiDigit_iff, Bool.or_eq_true, Bool.and_eq_true, beq_iff_eq,
    decide_eq_true_eq]
  omega

theorem dayText_iff (second : decimal b = true) (low : 1 ≤ 10*digitValue a+digitValue b)
    (high : 10*digitValue a+digitValue b ≤ 31) :
    dayText a b = true ↔ asciiDigit a = true ∧ (asciiDigit b = true ∨
      10 ≤ 10*digitValue a+digitValue b ∧ 10*digitValue a+digitValue b < 30) := by
  have va := ascii_place a
  have vb := ascii_place b
  have bound := digitValue_le b
  simp only [dayText, asciiDigit_iff, Bool.or_eq_true, Bool.and_eq_true, beq_iff_eq,
    decide_eq_true_eq, second, and_true]
  omega

theorem hourText_iff (second : decimal b = true) (high : 10*digitValue a+digitValue b < 24) :
    hourText a b = true ↔ asciiDigit a = true ∧ (asciiDigit b = true ∨
      10*digitValue a+digitValue b < 20) := by
  have va := ascii_place a
  have vb := ascii_place b
  have bound := digitValue_le b
  simp only [hourText, asciiDigit_iff, Bool.or_eq_true, Bool.and_eq_true, beq_iff_eq,
    decide_eq_true_eq, second, and_true]
  omega

theorem minuteText_iff (second : decimal b = true) (high : 10*digitValue a+digitValue b < 60) :
    minuteText a b = true ↔ asciiDigit a = true := by
  have va := ascii_place a
  simp only [minuteText, asciiDigit_iff, Bool.and_eq_true, decide_eq_true_eq, second, and_true]
  omega

theorem secondText_iff (second : decimal b = true) (high : 10*digitValue a+digitValue b < 60) :
    secondText a b = true ↔ asciiDigit a = true := by
  have va := ascii_place a
  simp only [secondText, asciiDigit_iff, Bool.or_eq_true, Bool.and_eq_true, beq_iff_eq,
    decide_eq_true_eq, second, and_true]
  omega

theorem each_cons {P : ℕ → ℕ → Prop} {c : ℕ} {ds : List ℕ} :
    (∀ i d, (c :: ds)[i]? = some d → P i d) ↔ P 0 c ∧ ∀ i d, ds[i]? = some d → P (i+1) d := by
  constructor
  · intro each
    exact ⟨each 0 c rfl,fun i d known => each (i+1) d known⟩
  · rintro ⟨first,rest⟩ i d known
    cases i with
    | zero =>
      cases known
      exact first
    | succ i => exact rest i d known

theorem number_pair (a b : ℕ) : number [a,b] = 10*digitValue a+digitValue b := by simp [number]

/-- On a date of the calendar the patterns ask for ASCII at the other places. -/
theorem directives_iff {ds : List ℕ} (length : ds.length = 17)
    (digits : ∀ c ∈ ds, decimal c = true) (valid : Valid (readStamp ds)) :
    directives ds = true ↔ ∀ i c, ds[i]? = some c → asciiDigit c = true ∨ Free (readStamp ds) i := by
  match ds,length with
  | [y1,y2,y3,y4,m1,m2,d1,d2,h1,h2,n1,n2,s1,s2,f1,f2,f3],_ =>
    have month : (readStamp [y1,y2,y3,y4,m1,m2,d1,d2,h1,h2,n1,n2,s1,s2,f1,f2,f3]).month =
        10*digitValue m1+digitValue m2 := number_pair m1 m2
    have day : (readStamp [y1,y2,y3,y4,m1,m2,d1,d2,h1,h2,n1,n2,s1,s2,f1,f2,f3]).day =
        10*digitValue d1+digitValue d2 := number_pair d1 d2
    have hour : (readStamp [y1,y2,y3,y4,m1,m2,d1,d2,h1,h2,n1,n2,s1,s2,f1,f2,f3]).hour =
        10*digitValue h1+digitValue h2 := number_pair h1 h2
    have minute : (readStamp [y1,y2,y3,y4,m1,m2,d1,d2,h1,h2,n1,n2,s1,s2,f1,f2,f3]).minute =
        10*digitValue n1+digitValue n2 := number_pair n1 n2
    have second : (readStamp [y1,y2,y3,y4,m1,m2,d1,d2,h1,h2,n1,n2,s1,s2,f1,f2,f3]).second =
        10*digitValue s1+digitValue s2 := number_pair s1 s2
    have inMonth := valid.month
    have inDay := valid.day
    have longest := daysInMonth_le
      (readStamp [y1,y2,y3,y4,m1,m2,d1,d2,h1,h2,n1,n2,s1,s2,f1,f2,f3]).year
      (readStamp [y1,y2,y3,y4,m1,m2,d1,d2,h1,h2,n1,n2,s1,s2,f1,f2,f3]).month
    have inHour := valid.hour
    have inMinute := valid.minute
    have inSecond := valid.second
    rw [month] at inMonth
    rw [day] at inDay
    rw [hour] at inHour
    rw [minute] at inMinute
    rw [second] at inSecond
    simp only [each_cons, Free, day, hour]
    simp only [List.forall_mem_cons] at digits
    simp only [directives, Bool.and_eq_true, monthText_iff inMonth.1 inMonth.2,
      dayText_iff digits.2.2.2.2.2.2.2.1 inDay.1 (Nat.le_trans inDay.2 longest),
      hourText_iff digits.2.2.2.2.2.2.2.2.2.1 inHour,
      minuteText_iff digits.2.2.2.2.2.2.2.2.2.2.2.1 inMinute,
      secondText_iff digits.2.2.2.2.2.2.2.2.2.2.2.2.2.1 inSecond]
    simp [digits]
    tauto

/-- The checker accepts the stamps of years 1 to 9999 in these spellings. -/
theorem utc_ok (s : PyString) :
    utc s = .ok () ↔ ∃ stamp, FourDigit 1 stamp ∧ Respelled stamp s := by
  unfold utc
  rw [bind_ok]
  have bound : (readStamp (groups s)).year ≤ 9999 := by
    have small := number_lt ((groups s).take 4)
    have short : ((groups s).take 4).length ≤ 4 := List.length_take_le _ _
    have power := Nat.pow_le_pow_right (show 0 < 10 by decide) short
    show ((number ((groups s).take 4) : ℕ) : ℤ) ≤ 9999
    omega
  constructor
  · rintro ⟨u,shaped,parsed⟩
    have fit := (check_ok _ _ _).mp shaped
    obtain ⟨length,digits⟩ := fits_places fit
    rw [template_count] at length
    by_cases accepted : directives (groups s) = true ∧ 1 ≤ (readStamp (groups s)).year ∧
        Valid (readStamp (groups s))
    · obtain ⟨pattern,low,valid⟩ := accepted
      exact ⟨_,⟨valid,low,bound⟩,fit,rfl,(directives_iff length digits valid).mp pattern⟩
    · have nothing : strptime s = none := if_neg accepted
      rw [nothing] at parsed
      exact absurd parsed (by simp)
  · rintro ⟨stamp,range,fit,rfl,ascii⟩
    obtain ⟨length,digits⟩ := fits_places fit
    rw [template_count] at length
    have parsed : strptime s = some (readStamp (groups s)) :=
      if_pos ⟨(directives_iff length digits range.valid).mpr ascii,range.low,range.valid⟩
    refine ⟨(),(check_ok _ _ _).mpr fit,?_⟩
    rw [parsed]
    rfl

theorem strptime_reads {s : PyString} {stamp : Stamp} (parsed : strptime s = some stamp) :
    readStamp (groups s) = stamp := by
  dsimp only [strptime] at parsed
  split at parsed
  · exact Option.some.inj parsed
  · cases parsed

end Checker

section Agreement

variable (lenient : PyString → Option ℤ)

/-- A date of year zero, or a date with a digit of another script. -/
def Defective (s : PyString) : Prop :=
  (∃ stamp, FourDigit 0 stamp ∧ stamp.year = 0 ∧ s = iso stamp) ∨
    ∃ stamp, FourDigit 1 stamp ∧ Respelled stamp s ∧ s ≠ iso stamp

theorem iso_reads {stamp : Stamp} (range : FourDigit 0 stamp) :
    readStamp (groups (iso stamp)) = stamp := by
  rw [(iso_groups range).2, readStamp_isoDigits range]

theorem iso_respelled {stamp : Stamp} (range : FourDigit 0 stamp) : Respelled stamp (iso stamp) := by
  have length : (isoDigits stamp).length = template.count none := by
    rw [isoDigits_length, template_count]
  have fit := (fill_fits length (fun c member => ascii_decimal (isoDigits_ascii member))).1
  rw [← iso_fill range] at fit
  refine ⟨fit,iso_reads range,fun i c known => Or.inl ?_⟩
  rw [(iso_groups range).2] at known
  exact isoDigits_ascii (List.mem_of_getElem? known)

theorem same_iff (s : PyString) :
    (utc s = .ok () ↔ validateUtc lenient s = .ok ()) ↔ ¬ Defective s := by
  rw [utc_ok, validateUtc_ok]
  constructor
  · rintro same (⟨stamp,range,zero,text⟩ | ⟨stamp,range,spelled,foreign⟩)
    · obtain ⟨other,later,spelled⟩ := same.mpr ⟨stamp,range,text⟩
      have equal : stamp = other := by rw [← iso_reads range, ← text, spelled.reads]
      have low := later.low
      rw [← equal] at low
      omega
    · obtain ⟨other,later,text⟩ := same.mp ⟨stamp,range,spelled⟩
      have equal : stamp = other := by rw [← spelled.reads, text, iso_reads later]
      exact foreign (equal ▸ text)
  · intro sound
    constructor
    · rintro ⟨stamp,range,spelled⟩
      have text : s = iso stamp := by
        by_contra foreign
        exact sound (Or.inr ⟨stamp,range,spelled,foreign⟩)
      exact ⟨stamp,⟨range.valid,Int.le_trans (by decide) range.low,range.high⟩,text⟩
    · rintro ⟨stamp,range,rfl⟩
      have named : stamp.year ≠ 0 := fun zero => sound (Or.inl ⟨stamp,range,zero,rfl⟩)
      have low := range.low
      exact ⟨stamp,⟨range.valid,by omega,range.high⟩,iso_respelled range⟩

/-- Both sides accept the same of two strings, and the order of accepted strings
is the order of the times they stand for. -/
structure Timely (s t : PyString) : Prop where
  first : utc s = .ok () ↔ validateUtc lenient s = .ok ()
  second : utc t = .ok () ↔ validateUtc lenient t = .ok ()
  chronological : utc s = .ok () → utc t = .ok () → ∀ a b, strptime s = some a →
    strptime t = some b → (s < t ↔ instant a < instant b)

/-- Timestamps compare as time, and the validators agree, unless one of the
strings is a date of year zero or has a digit of another script. -/
theorem timely_iff (s t : PyString) :
    Timely lenient s t ↔ ¬ Defective s ∧ ¬ Defective t := by
  constructor
  · intro timely
    exact ⟨(same_iff lenient s).mp timely.first,(same_iff lenient t).mp timely.second⟩
  · rintro ⟨soundS,soundT⟩
    have first := (same_iff lenient s).mpr soundS
    have second := (same_iff lenient t).mpr soundT
    refine ⟨first,second,fun acceptedS acceptedT a b readA readB => ?_⟩
    obtain ⟨x,rangeX,rfl⟩ := (validateUtc_ok lenient s).mp (first.mp acceptedS)
    obtain ⟨y,rangeY,rfl⟩ := (validateUtc_ok lenient t).mp (second.mp acceptedT)
    rw [← strptime_reads readA, ← strptime_reads readB, iso_reads rangeX, iso_reads rangeY]
    exact iso_lt_iff rangeX rangeY

/-- A date of 2026 whose year is in Arabic-Indic digits. -/
def foreignYear : PyString := [0x662,0x660,0x662,0x666] ++ points "-01-01T00:00:00.000Z"

def nextYear : PyString := points "2027-01-01T00:00:00.000Z"

/-- The checker accepts both dates and takes the earlier one for the later. -/
theorem foreign_digits_misordered : utc foreignYear = .ok () ∧ utc nextYear = .ok () ∧
    nextYear < foreignYear ∧ ¬ Timely (fun _ => none) foreignYear nextYear := by
  have first : utc foreignYear = .ok () := by decide +kernel
  have second : utc nextYear = .ok () := by decide +kernel
  have before : nextYear < foreignYear := by decide +kernel
  refine ⟨first,second,before,fun timely => ?_⟩
  have early : strptime foreignYear = some ⟨2026,1,1,0,0,0,0⟩ := by decide +kernel
  have late : strptime nextYear = some ⟨2027,1,1,0,0,0,0⟩ := by decide +kernel
  have order := (timely.chronological first second _ _ early late).mpr (by decide +kernel)
  exact absurd (List.lt_trans before order) (List.lt_irrefl _)

end Agreement

end Timestamp

end EvidenceV4
