import EvidenceV4.CanonicalRoundTrip
import Mathlib.Data.List.TakeWhile
import Mathlib.Tactic.IntervalCases

/-!
# JSON pointers

A pointer is a path of keys: a slash before each key, and in a key the tilde
and the slash escaped. The path leads through the members of objects and, by
the decimal spelling of a position, through the entries of arrays. The text of
a pointer and its path determine each other.
-/

set_option autoImplicit false

namespace JsonPointer

open JsonText

section Escapes

/-- Every tilde stands before a zero or a one. -/
def wellEscaped : List Char → Bool
  | [] => true
  | '~' :: rest => (rest.head? == some '0' || rest.head? == some '1') && wellEscaped rest
  | _ :: rest => wellEscaped rest

def replaceEscape (digit plain : Char) : List Char → List Char
  | '~' :: d :: rest =>
    if d = digit then plain :: replaceEscape digit plain rest
    else '~' :: replaceEscape digit plain (d :: rest)
  | c :: rest => c :: replaceEscape digit plain rest
  | [] => []

def unescape (token : List Char) : List Char :=
  replaceEscape '0' '~' (replaceEscape '1' '/' token)

def escapeChar (c : Char) : List Char :=
  if c = '~' then ['~','0'] else if c = '/' then ['~','1'] else [c]

def escape (key : List Char) : List Char := key.flatMap escapeChar

variable {digit plain : Char}

theorem replaceEscape_cons {c : Char} (other : c ≠ '~') (rest : List Char) :
    replaceEscape digit plain (c :: rest) = c :: replaceEscape digit plain rest := by
  conv_lhs => unfold replaceEscape
  split <;> simp_all

theorem replaceEscape_tilde (rest : List Char) (d : Char) :
    replaceEscape digit plain ('~' :: d :: rest) =
      if d = digit then plain :: replaceEscape digit plain rest
      else '~' :: replaceEscape digit plain (d :: rest) := by
  rw [replaceEscape]

theorem wellEscaped_cons {c : Char} (other : c ≠ '~') (rest : List Char) :
    wellEscaped (c :: rest) = wellEscaped rest := by
  conv_lhs => unfold wellEscaped
  split <;> simp_all

theorem escape_cons (c : Char) (key : List Char) :
    escape (c :: key) = escapeChar c ++ escape key := rfl

theorem escape_wellEscaped (key : List Char) : wellEscaped (escape key) = true := by
  induction key with
  | nil => rfl
  | cons c key ih =>
    rw [escape_cons]
    unfold escapeChar
    by_cases tilde : c = '~'
    · rw [if_pos tilde, List.cons_append, List.cons_append, List.nil_append, wellEscaped,
        wellEscaped_cons (by decide), ih]
      rfl
    by_cases slash : c = '/'
    · rw [if_neg tilde, if_pos slash, List.cons_append, List.cons_append, List.nil_append,
        wellEscaped, wellEscaped_cons (by decide), ih]
      rfl
    · rw [if_neg tilde, if_neg slash, List.cons_append, List.nil_append, wellEscaped_cons tilde, ih]

theorem slash_escape (key : List Char) : '/' ∉ escape key := by
  intro member
  obtain ⟨c,-,inside⟩ := List.mem_flatMap.mp member
  unfold escapeChar at inside
  split at inside
  · simp at inside
  split at inside
  · simp at inside
  · rename_i other
    exact other (List.mem_singleton.mp inside).symm

/-- What is left of an escaped key once the slashes are back. -/
def tildeEscaped (key : List Char) : List Char :=
  key.flatMap (fun c => if c = '~' then ['~','0'] else [c])

theorem replace_escape (key : List Char) : replaceEscape '1' '/' (escape key) = tildeEscaped key := by
  induction key with
  | nil => rfl
  | cons c key ih =>
    rw [escape_cons, tildeEscaped, List.flatMap_cons]
    unfold escapeChar
    by_cases tilde : c = '~'
    · rw [if_pos tilde, if_pos tilde, List.cons_append, List.cons_append, List.nil_append,
        replaceEscape_tilde, if_neg (by decide), replaceEscape_cons (by decide), ih]
      rfl
    by_cases slash : c = '/'
    · rw [if_neg tilde, if_pos slash, if_neg tilde, List.cons_append, List.cons_append,
        List.nil_append, replaceEscape_tilde, if_pos rfl, ih, slash]
      rfl
    · rw [if_neg tilde, if_neg slash, if_neg tilde, List.cons_append, List.nil_append,
        replaceEscape_cons tilde, ih]
      rfl

theorem replace_tildeEscaped (key : List Char) :
    replaceEscape '0' '~' (tildeEscaped key) = key := by
  induction key with
  | nil => rfl
  | cons c key ih =>
    rw [tildeEscaped, List.flatMap_cons]
    by_cases tilde : c = '~'
    · rw [if_pos tilde, List.cons_append, List.cons_append, List.nil_append, replaceEscape_tilde,
        if_pos rfl, tilde]
      exact congrArg _ ih
    · rw [if_neg tilde, List.cons_append, List.nil_append, replaceEscape_cons tilde]
      exact congrArg _ ih

theorem unescape_escape (key : List Char) : unescape (escape key) = key := by
  rw [unescape, replace_escape, replace_tildeEscaped]

/-- A well escaped token without a slash is the escaped form of some key. -/
theorem token_escaped (n : ℕ) (token : List Char) (short : token.length ≤ n)
    (well : wellEscaped token = true) (slash : '/' ∉ token) : ∃ key, token = escape key := by
  induction n generalizing token with
  | zero =>
    rw [List.length_eq_zero_iff.mp (Nat.le_zero.mp short)]
    exact ⟨[],rfl⟩
  | succ n ih =>
    cases token with
    | nil => exact ⟨[],rfl⟩
    | cons c rest =>
      have shorter : rest.length ≤ n := Nat.le_of_succ_le_succ short
      have inner : '/' ∉ rest := fun member => slash (List.mem_cons_of_mem _ member)
      by_cases tilde : c = '~'
      · rw [tilde, wellEscaped, Bool.and_eq_true] at well
        cases rest with
        | nil => simp at well
        | cons d rest =>
          have digit : d = '0' ∨ d = '1' := by simpa using well.1
          have plain : d ≠ '~' := by rcases digit with zero | one <;> simp_all
          have later := well.2
          rw [wellEscaped_cons plain] at later
          obtain ⟨key,whole⟩ := ih rest (Nat.le_of_succ_le shorter) later
            (fun member => inner (List.mem_cons_of_mem _ member))
          rcases digit with zero | one
          · exact ⟨'~' :: key,by rw [tilde, zero, whole]; rfl⟩
          · exact ⟨'/' :: key,by rw [tilde, one, whole]; rfl⟩
      · rw [wellEscaped_cons tilde] at well
        obtain ⟨key,whole⟩ := ih rest shorter well inner
        have other : c ≠ '/' := fun same => slash (same ▸ List.mem_cons_self)
        refine ⟨c :: key,?_⟩
        rw [whole, escape_cons, escapeChar, if_neg tilde, if_neg other]
        rfl

end Escapes

section Paths

/-- The text of a path. -/
def render (path : List (List Char)) : List Char := path.flatMap (fun key => '/' :: escape key)

/-- The keys that a pointer names one after another. -/
def tokens (pointer : List Char) : List (List Char) :=
  if pointer = [] then [] else ((pointer.drop 1).splitOn '/').map unescape

def validPointer (pointer : List Char) : Bool :=
  pointer == [] || (pointer.head? == some '/' && wellEscaped pointer)

theorem wellEscaped_append (a b : List Char) (start : b = [] ∨ b.head? = some '/') :
    wellEscaped (a ++ b) = (wellEscaped a && wellEscaped b) := by
  induction a with
  | nil => rfl
  | cons c a ih =>
    rw [List.cons_append]
    by_cases tilde : c = '~'
    · rw [tilde, wellEscaped, wellEscaped, ih, Bool.and_assoc]
      cases a with
      | cons d a => rfl
      | nil =>
        rcases start with empty | slash
        · rw [empty]
          rfl
        · rw [List.nil_append, slash]
          rfl
    · rw [wellEscaped_cons tilde, wellEscaped_cons tilde, ih]

theorem render_cons (key : List Char) (path : List (List Char)) :
    render (key :: path) = '/' :: (escape key ++ render path) := rfl

theorem render_start (path : List (List Char)) : render path = [] ∨ (render path).head? = some '/' := by
  cases path with
  | nil => exact Or.inl rfl
  | cons key path => exact Or.inr rfl

theorem render_valid (path : List (List Char)) : validPointer (render path) = true := by
  have well : wellEscaped (render path) = true := by
    induction path with
    | nil => rfl
    | cons key path ih =>
      rw [render_cons, wellEscaped_cons (by decide), wellEscaped_append _ _ (render_start path),
        escape_wellEscaped, ih]
      rfl
  rw [validPointer, well, Bool.and_true]
  rcases render_start path with empty | slash
  · rw [empty]
    rfl
  · rw [slash, Bool.or_eq_true]
    exact Or.inr rfl

theorem render_eq (key : List Char) (path : List (List Char)) :
    render (key :: path) = '/' :: ['/'].intercalate ((key :: path).map escape) := by
  induction path generalizing key with
  | nil => simp [render, List.intercalate]
  | cons next path ih =>
    rw [render_cons, ih next]
    simp [List.intercalate, List.intersperse_cons_cons]

theorem tokens_render (path : List (List Char)) : tokens (render path) = path := by
  cases path with
  | nil => rfl
  | cons key path =>
    have apart : ∀ part ∈ (key :: path).map escape, '/' ∉ part := by
      intro part member
      obtain ⟨k,-,rfl⟩ := List.mem_map.mp member
      exact slash_escape k
    have split := List.splitOn_intercalate '/' apart (by simp)
    rw [render_eq, tokens, if_neg (List.cons_ne_nil _ _), List.drop_one, List.tail_cons, split,
      List.map_map]
    calc (key :: path).map (unescape ∘ escape)
        = (key :: path).map id := List.map_congr_left (fun k _ => unescape_escape k)
      _ = key :: path := List.map_id _

/-- Every valid pointer is the text of one path. -/
theorem valid_render {pointer : List Char} (valid : validPointer pointer = true) :
    pointer = render (tokens pointer) := by
  suffices ∃ path, pointer = render path by
    obtain ⟨path,rfl⟩ := this
    rw [tokens_render]
  cases pointer with
  | nil => exact ⟨[],rfl⟩
  | cons c rest =>
    rw [validPointer, Bool.or_eq_true, Bool.and_eq_true] at valid
    rcases valid with empty | ⟨slash,well⟩
    · simp at empty
    have first : c = '/' := by simpa using slash
    subst first
    rw [wellEscaped_cons (by decide)] at well
    clear slash
    -- the keys are found from the left: the part before the next slash is one key
    induction h : rest.length using Nat.strong_induction_on generalizing rest with
    | _ n ih =>
      have cut := List.takeWhile_append_dropWhile (p := (· != '/')) (l := rest)
      have outside : '/' ∉ rest.takeWhile (· != '/') := by
        intro member
        simpa using List.mem_takeWhile_imp member
      cases left : rest.dropWhile (· != '/') with
      | nil =>
        rw [left, List.append_nil] at cut
        rw [cut] at outside
        obtain ⟨key,whole⟩ := token_escaped _ rest (Nat.le_refl _) well outside
        exact ⟨[key],by rw [whole]; simp [render]⟩
      | cons d later =>
        have slash : d = '/' := by
          have stop := List.head?_dropWhile_not (p := (· != '/')) (l := rest)
          rw [left] at stop
          simpa using stop
        rw [left, slash] at cut
        have parts := well
        rw [← cut, wellEscaped_append _ _ (Or.inr rfl), Bool.and_eq_true,
          wellEscaped_cons (by decide)] at parts
        obtain ⟨key,whole⟩ := token_escaped _ _ (Nat.le_refl _) parts.1 outside
        have shorter : later.length < n := by
          have total := congrArg List.length cut
          rw [List.length_append, List.length_cons] at total
          omega
        obtain ⟨path,remains⟩ := ih _ shorter later parts.2 rfl
        exact ⟨key :: path,by rw [render_cons, ← cut, whole, remains]⟩

end Paths

section Positions

/-- The spelling of a position: zero, or digits that do not start with zero. -/
def isPosition : List Char → Bool
  | [] => false
  | c :: rest => (c == '0' && rest == []) || (c != '0' && isDigit c && rest.all isDigit)

def position (key : List Char) : ℕ := Nat.ofDigitChars 10 key 0

def spelling (n : ℕ) : List Char := Nat.toDigits 10 n

theorem position_spelling (n : ℕ) : position (spelling n) = n := Nat.ofDigitChars_ten_toDigits

theorem isPosition_spelling (n : ℕ) : isPosition (spelling n) = true := by
  by_cases zero : n = 0
  · rw [zero]
    rfl
  obtain ⟨d,ds,whole,nonzero⟩ := EvidenceV4.CanonicalRoundTrip.toDigits_head n zero
  have digits : ∀ c ∈ d :: ds, isDigit c = true := fun c member =>
    EvidenceV4.CanonicalRoundTrip.isDigit_toDigits (whole ▸ member)
  rw [spelling, whole, isPosition, digits d List.mem_cons_self,
    List.all_eq_true.mpr (fun c member => digits c (List.mem_cons_of_mem _ member))]
  simp [nonzero]

theorem digit_char {c : Char} (digit : isDigit c = true) :
    Nat.digitChar (c.toNat - '0'.toNat) = c ∧ c.toNat - '0'.toNat < 10 ∧
      (c ≠ '0' → 0 < c.toNat - '0'.toNat) := by
  have zero : '0'.toNat = 48 := rfl
  rw [isDigit, Bool.and_eq_true, decide_eq_true_eq, decide_eq_true_eq] at digit
  obtain ⟨k,small,code⟩ : ∃ k, k < 10 ∧ c.toNat = 48+k := ⟨c.toNat-48,by omega,by omega⟩
  have same : c = Char.ofNat (48+k) := by rw [← code, Char.ofNat_toNat]
  have value : c.toNat - '0'.toNat = k := by omega
  rw [value, same]
  refine ⟨?_,small,?_⟩
  · interval_cases k <;> rfl
  · intro other
    apply Nat.pos_of_ne_zero
    rintro rfl
    exact other rfl

/-- Reading one digit more. -/
theorem toDigits_snoc {m d : ℕ} (positive : 0 < m) (small : d < 10) :
    Nat.toDigits 10 (m*10+d) = Nat.toDigits 10 m ++ [Nat.digitChar d] := by
  rw [Nat.toDigits_of_base_le (by omega) (by omega)]
  have front : (m*10+d)/10 = m := by omega
  have last : (m*10+d)%10 = d := by omega
  rw [front, last]

theorem spelling_digits (m : ℕ) (positive : 0 < m) (ds : List Char)
    (digits : ds.all isDigit = true) :
    spelling (Nat.ofDigitChars 10 ds m) = spelling m ++ ds := by
  induction ds generalizing m with
  | nil => rw [Nat.ofDigitChars_nil, List.append_nil]
  | cons d ds ih =>
    rw [List.all_cons, Bool.and_eq_true] at digits
    obtain ⟨char,small,-⟩ := digit_char digits.1
    rw [Nat.ofDigitChars_cons, Nat.mul_comm 10 m, ih _ (by omega) digits.2, spelling,
      toDigits_snoc positive small, char, List.append_assoc]
    rfl

/-- The spelling of a position is the only text that names it. -/
theorem spelling_position {key : List Char} (spelled : isPosition key = true) :
    spelling (position key) = key := by
  cases key with
  | nil => exact absurd spelled (by decide)
  | cons c rest =>
    rw [isPosition, Bool.or_eq_true, Bool.and_eq_true, Bool.and_eq_true, Bool.and_eq_true] at spelled
    rcases spelled with ⟨zero,alone⟩ | ⟨⟨nonzero,digit⟩,digits⟩
    · rw [eq_of_beq zero, eq_of_beq alone]
      rfl
    obtain ⟨char,small,positive⟩ := digit_char digit
    have start := positive (by simpa using nonzero)
    rw [position, Nat.ofDigitChars_cons, Nat.mul_zero, Nat.zero_add,
      spelling_digits _ start rest digits, spelling, Nat.toDigits_of_lt_base small, char]
    rfl

end Positions

section Designation

/-- The value that a path leads to. -/
inductive Designates : Json String → List (List Char) → Json String → Prop
  | here (document : Json String) : Designates document [] document
  | member (fields : List (String × Json String)) (key : List Char) (path : List (List Char))
    (value target : Json String) (known : fields.lookup (String.ofList key) = some value)
    (rest : Designates value path target) : Designates (.object fields) (key :: path) target
  | entry (entries : List (Json String)) (i : ℕ) (path : List (List Char))
    (value target : Json String) (known : entries[i]? = some value)
    (rest : Designates value path target) :
    Designates (.array entries) (spelling i :: path) target

def IsContainer : Json String → Prop
  | .object _ => True
  | .array _ => True
  | _ => False

instance (v : Json String) : Decidable (IsContainer v) := by
  cases v <;> unfold IsContainer <;> infer_instance

theorem designates_unique {document a b : Json String} {path : List (List Char)}
    (first : Designates document path a) (second : Designates document path b) : a = b := by
  induction first with
  | here document =>
    cases second
    rfl
  | member fields key path value target known rest ih =>
    cases second with
    | member _ _ _ value' _ known' rest' =>
      rw [known] at known'
      cases known'
      exact ih rest'
  | entry entries i path value target known rest ih =>
    generalize spelled : spelling i = key at second
    cases second with
    | entry _ j _ value' _ known' rest' =>
      have same : i = j := by rw [← position_spelling i, spelled, position_spelling]
      rw [← same, known] at known'
      cases known'
      exact ih rest'

end Designation

end JsonPointer
