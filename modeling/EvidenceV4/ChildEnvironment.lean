import EvidenceV4.OrderedRecord
import EvidenceV4.PolicyExpansion
import EvidenceV4.ProducerArtifact

/-!
# The environment of a child process

The producer builds a child's environment from the variables that a policy
inherits and those it sets, and records for every declared name whether it is
present and the digest of its value. What a child receives is a function of the
inherited variables that the policy does not set.
-/

set_option autoImplicit false

namespace EvidenceV4

namespace ChildEnvironment

open CheckedExcept OrderedRecord PolicyDocument PolicyExpansion ProducerArtifact ScalarText
open JsonText (CodeUnit decodeUnits charUnits isHigh isLow isSurrogate pairPoint)

/-- What reading a name of the ambient object gives: a variable's text, or a
member that every object has. -/
inductive Value where
  | text (content : JsString)
  | member
  deriving DecidableEq

abbrev Ambient := String → Option Value

structure Machine where
  os : String
  arch : String
  release : String
  deriving DecidableEq

structure EnvironmentVariable where
  name : String
  present : Bool
  valueHash : Option Hash
  deriving DecidableEq

structure EnvironmentIdentity where
  os : String
  arch : String
  release : String
  entries : List EnvironmentVariable
  deriving DecidableEq

structure SanitizedEnvironment where
  env : Entries String Value
  identity : EnvironmentIdentity
  deriving DecidableEq

def inherited (ambient : Ambient) (env : Entries String Value) (name : String) :
    Entries String Value :=
  match ambient name with
  | some value => assign env name value
  | none => env

def composed (environment : EnvironmentPolicy) (ambient : Ambient) : Entries String Value :=
  environment.set.foldl (fun env entry => assign env entry.1 (.text (units entry.2)))
    (environment.inherit.foldl (inherited ambient) [])

def checkVariable (entry : String × Value) : Except String Unit :=
  match entry.2 with
  | .member => throw "value.includes is not a function"
  | .text content => do
    check (0 ∉ content) ("NUL environment value: " ++ entry.1)
    let _ ← decodeUnits content
    pure ()

section Build

variable (N : List String → Hash) (H : List UInt8 → Hash) (machine : Machine)

def valueHash : Option Value → Option Hash
  | some (.text content) => some (H (fileBytes content))
  | _ => none

def variableOf (env : Entries String Value) (name : String) : EnvironmentVariable :=
  ⟨name,(get env name).isSome,valueHash H (get env name)⟩

def buildEnvironment (policy : Policy) (ambient : Ambient) : Except String SanitizedEnvironment := do
  let names := environmentUnion policy.environment
  check (N names = N policy.environment.identity) "environment identity differs from semantic union"
  check (reservedEnvironment ∉ names) "reserved ownership variable cannot be semantic environment"
  let env := composed policy.environment ambient
  forM env checkVariable
  check (∃ p ∈ policy.environment.platforms, p.os = machine.os ∧ p.arch = machine.arch)
    ("unsupported producer platform: " ++ machine.os ++ "/" ++ machine.arch)
  pure ⟨env,⟨machine.os,machine.arch,machine.release,names.map (variableOf H env)⟩⟩

end Build

section Text

/-- Equal code points are equal strings. -/
theorem unitPoints_injective {a b : JsString} (same : unitPoints a = unitPoints b) : a = b := by
  have vals : a.map Fin.val = b.map Fin.val := by rw [units_points, units_points, same]
  exact (List.map_inj_right (fun _ _ => Fin.ext)).mp vals

theorem decoded_unit {u : CodeUnit} {rest : JsString} {text : List Char}
    (decoded : decodeUnits (u :: rest) = .ok text)
    (unpaired : ∀ l ∈ rest.head?, (isHigh u && isLow l) = false) :
    isSurrogate u.val = false ∧ ∃ later, decodeUnits rest = .ok later := by
  have alone : isHigh u → ∀ l later, rest = l :: later → isLow l = false := by
    rintro high l later rfl
    simpa [high] using unpaired l rfl
  obtain ⟨plain,later,read,_⟩ := (JsonText.decodeUnits_single text alone).mp decoded
  exact ⟨plain,later,read⟩

theorem whole_of_decoded (s : JsString) {text : List Char} (decoded : decodeUnits s = .ok text) :
    Whole s := by
  unfold Whole
  induction s using unitPoints.induct generalizing text with
  | case1 => rintro _ ⟨⟩
  | case2 u =>
    have plain := (decoded_unit decoded (by rintro _ ⟨⟩)).1
    rw [unitPoints]
    simpa using plain
  | case3 u l rest pair ih =>
    have halves := Bool.and_eq_true_iff.mp pair
    rw [JsonText.decodeUnits_pair rest halves.1 halves.2, map_ok] at decoded
    obtain ⟨later,read,_⟩ := decoded
    rw [unitPoints, if_pos pair]
    exact List.forall_mem_cons.mpr ⟨JsonText.pairPoint_valid u l,ih read⟩
  | case4 u l rest unpaired ih =>
    have alone : ∀ m ∈ (l :: rest).head?, (isHigh u && isLow m) = false := by simpa using unpaired
    obtain ⟨plain,later,read⟩ := decoded_unit decoded alone
    rw [unitPoints, if_neg unpaired]
    exact List.forall_mem_cons.mpr ⟨plain,ih read⟩

theorem fileBytes_injective {a b : JsString} (wa : Whole a) (wb : Whole b)
    (same : fileBytes a = fileBytes b) : a = b := by
  apply unitPoints_injective
  rw [← scalars_whole wa, ← scalars_whole wb]
  have decoded := congrArg EvidenceArtifact.decode same
  unfold fileBytes at decoded
  rwa [decode_encode (fun _ => mem_scalars), decode_encode (fun _ => mem_scalars)] at decoded

theorem decodeUnits_units (text : List Char) :
    ∃ read, decodeUnits (text.flatMap charUnits) = .ok read := by
  induction text with
  | nil => exact ⟨[],rfl⟩
  | cons c text ih =>
    obtain ⟨read,same⟩ := ih
    exact ⟨c :: read,by rw [List.flatMap_cons, JsonText.decodeUnits_char, same]; rfl⟩

theorem charUnits_free {c : Char} (positive : c.toNat ≠ 0) : (0 : CodeUnit) ∉ charUnits c := by
  intro inside
  unfold charUnits at inside
  split at inside
  · next small =>
    have zero := congrArg Fin.val (List.mem_singleton.mp inside)
    rw [JsonText.unit_val small] at zero
    exact positive zero.symm
  · simp only [List.mem_cons, List.not_mem_nil, or_false] at inside
    have high := JsonText.highUnit_val c
    have low := JsonText.lowUnit_val c
    rcases inside with zero | zero
    · rw [← zero, Fin.val_zero] at high
      omega
    · rw [← zero, Fin.val_zero] at low
      omega

/-- A value that a policy may set passes the check of a child's variables. -/
theorem checkVariable_units {name text : String}
    (free : text.toList.all (fun c => c.toNat != 0) = true) :
    checkVariable (name,.text (units text)) = .ok ⟨⟩ := by
  have absent : (0 : CodeUnit) ∉ units text := by
    intro inside
    obtain ⟨c,member,inside⟩ := List.mem_flatMap.mp inside
    exact charUnits_free (by simpa using List.all_eq_true.mp free c member) inside
  obtain ⟨read,same⟩ := decodeUnits_units text.toList
  simp only [checkVariable, bind_ok, check_ok, pure_ok, exists_unit]
  exact ⟨absent,read,same,trivial⟩

end Text

section Composition

variable {environment : EnvironmentPolicy} {ambient first second : Ambient} {name : String}

def inheritedEntries (ambient : Ambient) (names : List String) : Entries String Value :=
  names.filterMap (fun name => (ambient name).map (fun value => (name,value)))

def setEntries (set : List (String × String)) : Entries String Value :=
  set.map (fun entry => (entry.1,.text (units entry.2)))

theorem inherited_assignAll (names : List String) (env : Entries String Value) :
    names.foldl (inherited ambient) env = assignAll env (inheritedEntries ambient names) := by
  induction names generalizing env with
  | nil => rfl
  | cons name names ih =>
    rw [List.foldl_cons, ih]
    cases read : ambient name with
    | none => simp [inherited, inheritedEntries, read]
    | some value => simp [inherited, inheritedEntries, read, assignAll]

theorem composed_eq : composed environment ambient =
    assignAll (assignAll [] (inheritedEntries ambient environment.inherit))
      (setEntries environment.set) := by
  rw [composed, inherited_assignAll]
  unfold assignAll setEntries
  rw [List.foldl_map]

theorem get_inheritedEntries (names : List String) :
    get (inheritedEntries ambient names) name = if name ∈ names then ambient name else none := by
  induction names with
  | nil => rfl
  | cons other names ih =>
    unfold inheritedEntries at ih ⊢
    cases read : ambient other with
    | none =>
      rw [List.filterMap_cons_none (by rw [read]; rfl), ih]
      by_cases same : name = other
      · simp [same, read]
      · simp [same]
    | some value =>
      rw [List.filterMap_cons_some (by rw [read]; rfl), get_cons, ih]
      by_cases same : other = name
      · simp [← same, read]
      · simp [same, Ne.symm same]

theorem get_setEntries (set : List (String × String)) :
    get (setEntries set) name = (get set name).map (fun value => .text (units value)) := by
  induction set with
  | nil => rfl
  | cons entry set ih =>
    have step : setEntries (entry :: set) = (entry.1,.text (units entry.2)) :: setEntries set := rfl
    rw [step, get_cons, get_cons, ih]
    by_cases same : entry.1 = name
    · simp [same]
    · simp [same]

/-- The value of a variable is the one that is set, else the one that is inherited. -/
theorem get_composed : get (composed environment ambient) name =
    ((mapGet environment.set name).map (fun value => Value.text (units value))).or
      (if name ∈ environment.inherit then ambient name else none) := by
  have set_last : get environment.set.reverse name = mapGet environment.set name := rfl
  have inherited_last := @get_inheritedEntries ambient name environment.inherit.reverse
  rw [composed_eq, get_assignAll, get_assignAll, get_nil, Option.or_none]
  unfold setEntries inheritedEntries at *
  rw [← List.map_reverse, ← List.filterMap_reverse, inherited_last]
  have chosen := @get_setEntries name environment.set.reverse
  unfold setEntries at chosen
  rw [chosen, set_last]
  simp

theorem composed_distinct : ((composed environment ambient).map Prod.fst).Nodup := by
  rw [composed_eq]
  exact nodup_assignAll (nodup_assignAll List.nodup_nil)

theorem mapGet_none {set : List (String × String)} (absent : name ∉ set.map Prod.fst) :
    mapGet set name = none := by
  rw [← Option.not_isSome_iff_eq_none, mapGet_isSome]
  exact absent

/-- The ambient environments give the same value of every variable that is
inherited and not set. -/
def Agree (environment : EnvironmentPolicy) (first second : Ambient) : Prop :=
  ∀ name ∈ environment.inherit, name ∉ environment.set.map Prod.fst → first name = second name

theorem get_agree (agree : Agree environment first second) :
    get (composed environment first) name = get (composed environment second) name := by
  rw [get_composed, get_composed]
  by_cases present : name ∈ environment.set.map Prod.fst
  · obtain ⟨value,found⟩ := Option.isSome_iff_exists.mp (mapGet_isSome.mpr present)
    rw [found]
    rfl
  · by_cases inside : name ∈ environment.inherit
    · rw [agree name inside present]
    · rw [if_neg inside, if_neg inside]

def dropsSet (environment : EnvironmentPolicy) (name : String) : Bool :=
  decide (name ∉ environment.set.map Prod.fst)

theorem kept_inherited (agree : Agree environment first second) (names : List String)
    (inside : ∀ name ∈ names, name ∈ environment.inherit) :
    kept (dropsSet environment) (inheritedEntries first names) =
      kept (dropsSet environment) (inheritedEntries second names) := by
  unfold kept inheritedEntries
  rw [List.filter_filterMap, List.filter_filterMap]
  apply List.filterMap_congr
  intro name member
  by_cases present : name ∈ environment.set.map Prod.fst
  · have dropped : dropsSet environment name = false := by simpa [dropsSet] using present
    cases first name <;> cases second name <;> simp [Option.filter, dropped]
  · rw [agree name (inside name member) present]

theorem kept_composed : kept (dropsSet environment) (composed environment ambient) =
    assignAll [] (kept (dropsSet environment) (inheritedEntries ambient environment.inherit)) := by
  have overridden : kept (dropsSet environment) (setEntries environment.set) = [] := by
    apply List.filter_eq_nil_iff.mpr
    intro entry member
    obtain ⟨set,inside,rfl⟩ := List.mem_map.mp member
    simpa [dropsSet] using ⟨set.2,inside⟩
  rw [composed_eq, kept_assignAll, kept_assignAll, overridden]
  rfl

end Composition

section Outcome

variable {N : List String → Hash} {H : List UInt8 → Hash} {machine : Machine} {policy : Policy}
variable {ambient first second : Ambient} {built : SanitizedEnvironment}

theorem forM_filter {α : Type} {f : α → Except String Unit} {keep : α → Bool} {xs : List α}
    (passes : ∀ x ∈ xs, keep x = false → f x = .ok ⟨⟩) : forM xs f = forM (xs.filter keep) f := by
  induction xs with
  | nil => rfl
  | cons x xs ih =>
    obtain ⟨here,later⟩ := List.forall_mem_cons.mp passes
    rw [List.forM_cons, ih later]
    cases stays : keep x with
    | true => rw [List.filter_cons_of_pos stays, List.forM_cons]
    | false =>
      rw [List.filter_cons_of_neg (by simp [stays]), here stays]
      rfl

/-- The values that an accepted policy sets hold no zero character. -/
theorem accepted_set (accepted : validatePolicy N policy = .ok policy) :
    ∀ entry ∈ policy.environment.set, entry.2.toList.all (fun c => c.toNat != 0) = true := by
  simp only [validatePolicy, validatePolicyStructure, policySchema, environmentPolicy, bind_ok,
    forM_ok] at accepted
  obtain ⟨_,⟨_,_,_,_,_,_,_,⟨_,_,_,_,_,literals,_⟩,_⟩,_⟩ := accepted
  intro entry member
  have literal := literals entry member
  simp only [environmentLiteral, bind_ok, Schema.ensure_ok] at literal
  obtain ⟨_,_,free⟩ := literal
  exact free

theorem set_passes (accepted : validatePolicy N policy = .ok policy)
    (entry : String × Value) (member : entry ∈ composed policy.environment ambient)
    (overridden : dropsSet policy.environment entry.1 = false) : checkVariable entry = .ok ⟨⟩ := by
  obtain ⟨name,value⟩ := entry
  have present : name ∈ policy.environment.set.map Prod.fst := by simpa [dropsSet] using overridden
  obtain ⟨text,found⟩ := Option.isSome_iff_exists.mp (mapGet_isSome.mpr present)
  have read := (mem_iff_get composed_distinct).mp member
  rw [get_composed, found] at read
  obtain rfl : Value.text (units text) = value := by simpa using read
  exact checkVariable_units (accepted_set accepted _ (mapGet_mem found))

/-- Only the variables that are not set decide whether the check passes, and with what error. -/
theorem checked_agree (accepted : validatePolicy N policy = .ok policy)
    (agree : Agree policy.environment first second) :
    forM (composed policy.environment first) checkVariable =
      forM (composed policy.environment second) checkVariable := by
  have passes : ∀ ambient, forM (composed policy.environment ambient) checkVariable =
      forM (kept (dropsSet policy.environment) (composed policy.environment ambient)) checkVariable :=
    fun _ => forM_filter (set_passes accepted)
  rw [passes first, passes second, kept_composed, kept_composed,
    kept_inherited agree _ (fun _ member => member)]

/-- The same error, or the same variables with the same identity. -/
def SameOutcome : Except String SanitizedEnvironment → Except String SanitizedEnvironment → Prop
  | .ok a, .ok b => a.env.Perm b.env ∧ a.identity = b.identity
  | .error e, .error e' => e = e'
  | _, _ => False

theorem sameOutcome_bind {α : Type} (x : Except String α)
    {f g : α → Except String SanitizedEnvironment} (later : ∀ a, SameOutcome (f a) (g a)) :
    SameOutcome (x >>= f) (x >>= g) := by
  cases x with
  | error e => exact rfl
  | ok a => exact later a

theorem outcome_agree (accepted : validatePolicy N policy = .ok policy)
    (agree : Agree policy.environment first second) :
    SameOutcome (buildEnvironment N H machine policy first)
      (buildEnvironment N H machine policy second) := by
  dsimp only [buildEnvironment]
  rw [checked_agree accepted agree]
  apply sameOutcome_bind
  intro _
  apply sameOutcome_bind
  intro _
  apply sameOutcome_bind
  intro _
  apply sameOutcome_bind
  intro _
  constructor
  · exact perm_of_get composed_distinct composed_distinct (fun _ => get_agree agree)
  · have variables_same : variableOf H (composed policy.environment first) =
        variableOf H (composed policy.environment second) := by
      funext name
      rw [variableOf, variableOf, get_agree agree]
    rw [variables_same]

/-- What a returned environment is, and that all its values were checked. -/
theorem buildEnvironment_ok (built_ok : buildEnvironment N H machine policy ambient = .ok built) :
    built = ⟨composed policy.environment ambient,⟨machine.os,machine.arch,machine.release,
      (environmentUnion policy.environment).map
        (variableOf H (composed policy.environment ambient))⟩⟩ ∧
      ∀ entry ∈ composed policy.environment ambient, checkVariable entry = .ok ⟨⟩ := by
  simp only [buildEnvironment, bind_ok, check_ok, forM_ok, pure_ok] at built_ok
  obtain ⟨_,_,_,_,_,passed,_,_,rfl⟩ := built_ok
  exact ⟨rfl,passed⟩

theorem checkVariable_ok {name : String} {value : Value}
    (passed : checkVariable (name,value) = .ok ⟨⟩) :
    ∃ content, value = .text content ∧ Whole content := by
  cases value with
  | member => cases passed
  | text content =>
    simp only [checkVariable, bind_ok] at passed
    obtain ⟨_,_,_,decoded,_⟩ := passed
    exact ⟨content,rfl,whole_of_decoded content decoded⟩

theorem valueHash_injective (injective : Function.Injective H) {name : String} {v w : Option Value}
    (left : ∀ value, v = some value → checkVariable (name,value) = .ok ⟨⟩)
    (right : ∀ value, w = some value → checkVariable (name,value) = .ok ⟨⟩)
    (same : valueHash H v = valueHash H w) : v = w := by
  cases v with
  | none =>
    cases w with
    | none => rfl
    | some value =>
      obtain ⟨content,rfl,_⟩ := checkVariable_ok (right value rfl)
      cases same
  | some value =>
    obtain ⟨content,rfl,whole⟩ := checkVariable_ok (left value rfl)
    cases w with
    | none => cases same
    | some other =>
      obtain ⟨content',rfl,whole'⟩ := checkVariable_ok (right other rfl)
      have bytes := injective (Option.some.inj same)
      rw [fileBytes_injective whole whole' bytes]

theorem get_inherited {name : String} (inside : name ∈ policy.environment.inherit)
    (absent : name ∉ policy.environment.set.map Prod.fst) :
    get (composed policy.environment ambient) name = ambient name := by
  rw [get_composed, mapGet_none absent, if_pos inside]
  rfl

theorem mem_environmentUnion {environment : EnvironmentPolicy} {name : String}
    (inside : name ∈ environment.inherit) : name ∈ environmentUnion environment := by
  unfold environmentUnion
  rw [List.mem_insertionSort, List.mem_dedup]
  exact List.mem_append_left _ inside

theorem identity_differs (injective : Function.Injective H)
    (differ : ¬ Agree policy.environment first second) {built' : SanitizedEnvironment}
    (left : buildEnvironment N H machine policy first = .ok built)
    (right : buildEnvironment N H machine policy second = .ok built') :
    built.identity ≠ built'.identity := by
  obtain ⟨rfl,passed⟩ := buildEnvironment_ok left
  obtain ⟨rfl,passed'⟩ := buildEnvironment_ok right
  intro same
  apply differ
  intro name inside absent
  have entries := congrArg EnvironmentIdentity.entries same
  have entry := List.map_inj_left.mp entries name (mem_environmentUnion inside)
  have hashes := congrArg EnvironmentVariable.valueHash entry
  have each : ∀ ambient, (∀ entry ∈ composed policy.environment ambient,
      checkVariable entry = .ok ⟨⟩) → ∀ value,
      get (composed policy.environment ambient) name = some value →
        checkVariable (name,value) = .ok ⟨⟩ :=
    fun _ checked _ read => checked _ ((mem_iff_get composed_distinct).mpr read)
  have values := valueHash_injective injective (each first passed) (each second passed') hashes
  rwa [get_inherited inside absent, get_inherited inside absent] at values

end Outcome

/-- What a child receives and what is recorded of it depend on the ambient
environment through the inherited variables that the policy does not set, and
the record tells any two values of these apart. -/
theorem childEnvironment_noninterference (N : List String → Hash) (H : List UInt8 → Hash)
    (machine : Machine) (policy : Policy) (accepted : validatePolicy N policy = .ok policy) :
    (∀ first second, Agree policy.environment first second →
      SameOutcome (buildEnvironment N H machine policy first)
        (buildEnvironment N H machine policy second)) ∧
    (∀ ambient built, buildEnvironment N H machine policy ambient = .ok built →
      (built.env.map Prod.fst).Nodup ∧
      (∀ name value, mapGet policy.environment.set name = some value →
        get built.env name = some (.text (units value))) ∧
      ∀ name, name ∉ policy.environment.inherit → name ∉ policy.environment.set.map Prod.fst →
        get built.env name = none) ∧
    (Function.Injective H → ∀ first second, ¬ Agree policy.environment first second →
      ∀ built built', buildEnvironment N H machine policy first = .ok built →
        buildEnvironment N H machine policy second = .ok built' →
          built.identity ≠ built'.identity) := by
  refine ⟨fun _ _ agree => outcome_agree accepted agree,?_,?_⟩
  · intro ambient built returned
    obtain ⟨rfl,_⟩ := buildEnvironment_ok returned
    refine ⟨composed_distinct,?_,?_⟩
    · intro name value found
      show get (composed policy.environment ambient) name = _
      rw [get_composed, found]
      rfl
    · intro name outside absent
      show get (composed policy.environment ambient) name = none
      rw [get_composed, mapGet_none absent, if_neg outside]
      rfl
  · intro injective first second differ built built' left right
    exact identity_differs injective differ left right

/-- A digest of bytes for concrete environments. -/
def byteText (bytes : List UInt8) : Hash := String.ofList (bytes.map (fun b => Char.ofNat b.toNat))

theorem byteText_injective : Function.Injective byteText := by
  intro a b same
  have texts := String.ofList_injective same
  refine (List.map_inj_right ?_).mp texts
  intro x y chars
  have back : ∀ b : UInt8, (Char.ofNat b.toNat).toNat = b.toNat := by
    intro b
    have small := b.toNat_lt
    have valid : b.toNat.isValidChar := .inl (by omega)
    rw [Char.ofNat, dif_pos valid]
    rfl
  have values := congrArg Char.toNat chars
  rw [back, back] at values
  exact UInt8.toNat_inj.mp values

def sampleAmbient (path : String) : Ambient := fun name =>
  if name = "PATH" then some (.text (units path)) else none

def sampleMachine : Machine := ⟨"linux","x64","6.1"⟩

theorem childEnvironment_orderedPolicy :
    ∃ built built', buildEnvironment joinNames byteText sampleMachine orderedPolicy
        (sampleAmbient "/bin") = .ok built ∧
      buildEnvironment joinNames byteText sampleMachine orderedPolicy
        (sampleAmbient "") = .ok built' ∧ built.identity ≠ built'.identity := by
  have accepted : validatePolicy joinNames orderedPolicy = .ok orderedPolicy := by decide +kernel
  obtain ⟨_,_,differs⟩ := childEnvironment_noninterference joinNames byteText sampleMachine
    orderedPolicy accepted
  refine ⟨_,_,rfl,rfl,differs byteText_injective (sampleAmbient "/bin") (sampleAmbient "") ?_ _ _ rfl rfl⟩
  intro agree
  have same := agree "PATH" (by decide) (by decide)
  exact absurd same (by decide)

end ChildEnvironment

end EvidenceV4
