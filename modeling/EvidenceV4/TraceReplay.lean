import EvidenceV4.OrderedRecord
import EvidenceV4.RawLog
import Mathlib.Data.List.TakeWhile

/-!
# Replay of a trace through an adapter

A trace of a specification is loaded, its states are sent to an adapter one
line each, and every reply has to assign the same tokens to the variables. The
tokens carry no types, so a string passes for the number or truth value that it
spells.
-/

set_option autoImplicit false

namespace EvidenceV4

namespace TraceReplay

open CheckedExcept OrderedRecord
open CheckerJson (PyString points)
open EvidenceArtifact (decimalZeros)
open PolicyDocument (mapGet)
open PythonData

inductive LoadError where
  | valueError (message : PyString)
  | raised
  deriving DecidableEq

inductive Value where
  | int (value : ℤ)
  | bool (value : Bool)
  | str (value : PyString)
  deriving DecidableEq

abbrev TraceState := Entries PyString Value

section Loading

def digitValue (c : ℕ) : Option ℕ :=
  (decimalZeros.find? (fun z => z ≤ c && c ≤ z + 9)).map (fun z => c - z)

/-- Decimal digits with single underscores between them; `must` says that a digit has to follow. -/
def readDigits (must : Bool) (acc : ℕ) : PyString → Option ℕ
  | [] => if must then none else some acc
  | c :: rest =>
    match digitValue c with
    | some d => readDigits false (acc * 10 + d) rest
    | none => if c = 95 ∧ must = false then readDigits true acc rest else none

/-- `int(text)` -/
def readInt (text : PyString) : Option ℤ :=
  match strip text with
  | [] => none
  | c :: rest =>
    if c = 45 then (readDigits true 0 rest).map (fun n => -(n : ℤ))
    else if c = 43 then (readDigits true 0 rest).map (fun n => (n : ℤ))
    else (readDigits true 0 (c :: rest)).map (fun n => (n : ℤ))

/-- `int(value)` -/
def toInt : PyData → Option ℤ
  | .int value => some value
  | .bool value => some (if value then 1 else 0)
  | .float (.finite value) => some (if 0 ≤ value then value.floor else -(-value).floor)
  | .str text => readInt text
  | _ => none

variable (library : Library)

def decodeItfValue (v : PyData) : Except LoadError Value :=
  let unsupported : LoadError :=
    .valueError (say ["unsupported ITF value shape in v1: ",library.repr v])
  match v with
  | .dict fields =>
    match mapGet fields "#bigint" with
    | some written =>
      match toInt written with
      | some value => pure (.int value)
      | none => throw .raised
    | none => throw unsupported
  | .int value => pure (.int value)
  | .bool value => pure (.bool value)
  | .str text =>
    if text.any isSpace then
      throw (.valueError (say ["v1 protocol cannot carry strings with whitespace: ",library.repr v]))
    else pure (.str text)
  | _ => throw unsupported

/-- `data[key]` for a key that is a text. -/
def subscript (data : PyData) (key : PyString) : Except LoadError PyData :=
  match data with
  | .dict fields =>
    match mapGet fields key with
    | some value => pure value
    | none => throw .raised
  | _ => throw .raised

def iterate : PyData → Except LoadError (List PyData)
  | .list entries => pure entries
  | .dict fields => pure (fields.map (fun field => .str field.1))
  | .str text => pure (text.map (fun c => .str [c]))
  | _ => throw .raised

def textEntry : PyData → Except LoadError PyString
  | .str text => pure text
  | _ => throw .raised

def isMeta (name : PyString) : Bool := name.head? == some 35

def loadState (vars : List PyString) (raw : PyData) : Except LoadError TraceState :=
  vars.mapM (fun name => do
    let v ← subscript raw name
    let value ← decodeItfValue library v
    pure (name,value))

def loadTrace (data : PyData) : Except LoadError (List PyString × List TraceState) := do
  let listed ← subscript data "vars" >>= iterate
  let names ← listed.mapM textEntry
  let vars := sortedNames (names.filter (fun name => !isMeta name))
  let raws ← subscript data "states" >>= iterate
  let states ← raws.mapM (loadState library vars)
  pure (vars,states)

end Loading

section Protocol

def encodeValue : Value → PyString
  | .bool value => if value then "true" else "false"
  | .int value => points (toString value)
  | .str text => text

/-- `text.split()` -/
def words (text : PyString) : List PyString := (text.splitOnP isSpace).filter (fun word => word ≠ [])

/-- `token.partition("=")`, without the separator. -/
def binding (token : PyString) : PyString × PyString :=
  (token.takeWhile (fun c => c != 61),(token.dropWhile (fun c => c != 61)).tail)

def parseStateLine (line : PyString) : Entries PyString PyString :=
  assignAll [] (((words line).drop 1).map binding)

/-- The other end of the pipes: what it writes, line by line, the lines that it
takes, and whether it exits in time. -/
structure Adapter where
  lines : List PyString
  takes : PyString → Bool
  exits : Bool

inductive ReplayError where
  | divergence (step : ℤ) (detail : PyString)
  | keyError
  | brokenPipe
  | timeout
  deriving DecidableEq

/-- The declared outputs, the reply behind them and the lines that are left. -/
def readReply : List PyString → Except ReplayError (List PyString × PyString × List PyString)
  | [] => throw (.divergence (-1) "adapter closed stdout mid-replay")
  | line :: rest =>
    if (points "OUT ").isPrefixOf line then do
      let (outs,reply,left) ← readReply rest
      pure (line.drop 4 :: outs,reply,left)
    else pure ([],line,rest)

def encoded (state : TraceState) (name : PyString) : Except ReplayError PyString :=
  match get state name with
  | some value => pure (encodeValue value)
  | none => throw .keyError

def bindingsOf (vars : List PyString) (state : TraceState) : Except ReplayError PyString := do
  let tokens ← vars.mapM (fun name => do
    let value ← encoded state name
    pure (name ++ 61 :: value))
  pure (joined " " tokens)

def stateLine (step : ℕ) (bindings : PyString) : PyString :=
  (if step = 0 then points "INIT " else "EXPECT ") ++ bindings

variable (library : Library)

def compareVar (step : ℕ) (state : TraceState) (got : Entries PyString PyString) (name : PyString) :
    Except ReplayError Unit := do
  let expected ← encoded state name
  check (get got name = some expected) (.divergence step
    (say ["var ",name,": spec expects ",expected,", adapter replayed ",(get got name).getD "None"]))

def replayState (adapter : Adapter) (vars : List PyString) (step : ℕ) (state : TraceState)
    (lines : List PyString) : Except ReplayError (List PyString) := do
  let bindings ← bindingsOf vars state
  check (adapter.takes (stateLine step bindings) = true) .brokenPipe
  let (_,reply,left) ← readReply lines
  check ((points "ERR ").isPrefixOf reply = false)
    (.divergence step (say ["adapter error: ",reply.drop 4]))
  check ((points "STATE ").isPrefixOf reply = true)
    (.divergence step (say ["protocol violation: ",library.repr (.str reply)]))
  forM vars (compareVar step state (parseStateLine reply))
  pure left

def replayStates (adapter : Adapter) (vars : List PyString) :
    ℕ → List TraceState → List PyString → Except ReplayError (List PyString)
  | _, [], lines => pure lines
  | step, state :: states, lines => do
    let left ← replayState library adapter vars step state lines
    replayStates adapter vars (step + 1) states left

def replayTrace (adapter : Adapter) (vars : List PyString) (states : List TraceState) :
    Except ReplayError Unit := do
  check (adapter.takes (say ["VARS ",joined " " vars]) = true) .brokenPipe
  let _ ← replayStates library adapter vars 0 states adapter.lines
  check (adapter.takes "END" = true) .brokenPipe
  check (adapter.exits = true) .timeout

end Protocol

section Words

variable {text front : PyString} {tokens : List PyString}

def Solid (text : PyString) : Prop := ∀ c ∈ text, isSpace c = false

theorem solid_append {a b : PyString} (first : Solid a) (second : Solid b) : Solid (a ++ b) := by
  intro c member
  rcases List.mem_append.mp member with member | member
  · exact first c member
  · exact second c member

theorem words_append {c : ℕ} (space : isSpace c = true) (a b : PyString) :
    words (a ++ c :: b) = words a ++ words b := by
  rw [words, List.splitOnP_append_cons a b space, List.filter_append]
  rfl

theorem words_single (filled : text ≠ []) (solid : Solid text) : words text = [text] := by
  rw [words, List.splitOnP_eq_singleton solid]
  simp [filled]

theorem words_joined (each : ∀ token ∈ tokens, token ≠ [] ∧ Solid token) :
    words (joined " " tokens) = tokens := by
  induction tokens with
  | nil => rfl
  | cons token tokens ih =>
    obtain ⟨⟨filled,solid⟩,later⟩ := List.forall_mem_cons.mp each
    cases tokens with
    | nil => simpa [joined, List.intercalate] using words_single filled solid
    | cons next tokens =>
      have space : points " " = [32] := by decide
      have split : joined " " (token :: next :: tokens) = token ++ 32 :: joined " " (next :: tokens) := by
        simp [joined_cons, space]
      rw [split, words_append (by decide), words_single filled solid, ih later]
      rfl

theorem solid_splitOnP {part : PyString} (member : part ∈ text.splitOnP isSpace) : Solid part := by
  induction text generalizing part with
  | nil =>
    rw [List.splitOnP_nil, List.mem_singleton] at member
    rw [member]
    exact nofun
  | cons c text ih =>
    rw [List.splitOnP_cons_eq_if_modifyHead] at member
    split at member
    · rcases List.mem_cons.mp member with rfl | member
      · exact nofun
      · exact ih member
    · next ink =>
      have plain : isSpace c = false := by simpa using ink
      cases parts : text.splitOnP isSpace with
      | nil => exact absurd parts (List.splitOnP_ne_nil _ _)
      | cons first rest =>
        rw [parts] at member ih
        rcases List.mem_cons.mp member with rfl | member
        · intro d inside
          rcases List.mem_cons.mp inside with rfl | inside
          · exact plain
          · exact ih List.mem_cons_self d inside
        · exact ih (List.mem_cons_of_mem _ member)

theorem mem_words {word : PyString} (member : word ∈ words text) : Solid word :=
  solid_splitOnP (List.mem_filter.mp member).1

end Words

section Values

variable {library : Library} {v w : Value}

/-- A value of a trace. -/
def Admitted (library : Library) (v : Value) : Prop := ∃ data, decodeItfValue library data = .ok v

theorem admitted_str {text : PyString} (admitted : Admitted library (.str text)) : Solid text := by
  obtain ⟨data,decoded⟩ := admitted
  cases data with
  | str written =>
    simp only [decodeItfValue] at decoded
    split at decoded
    · cases decoded
    · next ink =>
      obtain rfl : written = text := by simpa using decoded
      simpa [Solid] using ink
  | dict fields =>
    simp only [decodeItfValue] at decoded
    split at decoded
    · split at decoded
      · cases decoded
      · cases decoded
    · cases decoded
  | _ => cases decoded

theorem number_solid (n : ℤ) : Solid (points (toString n)) := by
  intro c member
  obtain ⟨d,inside,rfl⟩ := List.mem_map.mp member
  rcases RawLog.number_ascii n d inside with rfl | digit
  · decide
  · have bounds : 48 ≤ d.toNat ∧ d.toNat ≤ 57 := by
      simpa [JsonText.isDigit, Char.le_def, UInt32.le_iff_toNat_le] using digit
    by_contra space
    rw [Bool.not_eq_false] at space
    simp only [isSpace, Bool.or_eq_true, Bool.and_eq_true, decide_eq_true_eq, beq_iff_eq] at space
    omega

theorem encodeValue_solid (admitted : Admitted library v) : Solid (encodeValue v) := by
  cases v with
  | int n => exact number_solid n
  | bool b =>
    unfold Solid
    cases b <;> decide
  | str text => exact admitted_str admitted

theorem number_injective {m n : ℤ} (same : points (toString m) = points (toString n)) : m = n := by
  have texts : (toString m).toList = (toString n).toList :=
    (List.map_inj_right (fun _ _ => Char.toNat_inj.mp)).mp same
  rw [← CanonicalRoundTrip.tokenValue_toString m, texts, CanonicalRoundTrip.tokenValue_toString]

theorem number_word (n : ℤ) (b : Bool) : encodeValue (.int n) ≠ encodeValue (.bool b) := by
  intro same
  have first : ∃ c ∈ points (toString n), 97 ≤ c := by
    change points (toString n) = _ at same
    rw [same]
    cases b
    · exact ⟨102,by decide,by decide⟩
    · exact ⟨116,by decide,by decide⟩
  obtain ⟨c,member,large⟩ := first
  obtain ⟨d,inside,rfl⟩ := List.mem_map.mp member
  rcases RawLog.number_ascii n d inside with rfl | digit
  · exact absurd large (by decide)
  · have bounds : 48 ≤ d.toNat ∧ d.toNat ≤ 57 := by
      simpa [JsonText.isDigit, Char.le_def, UInt32.le_iff_toNat_le] using digit
    omega

/-- Two values share a token when they are equal or one is the text that spells the other. -/
theorem encodeValue_eq_iff (v w : Value) : encodeValue v = encodeValue w ↔
    v = w ∨ v = .str (encodeValue w) ∨ w = .str (encodeValue v) := by
  constructor
  · intro same
    cases v with
    | str text => exact .inr (.inl (congrArg Value.str same))
    | int m =>
      cases w with
      | str text => exact .inr (.inr (congrArg Value.str same.symm))
      | int n => exact .inl (congrArg Value.int (number_injective same))
      | bool b => exact absurd same (number_word m b)
    | bool b =>
      cases w with
      | str text => exact .inr (.inr (congrArg Value.str same.symm))
      | int n => exact absurd same.symm (number_word n b)
      | bool b' =>
        cases b <;> cases b'
        · exact .inl rfl
        · exact absurd same (by decide)
        · exact absurd same (by decide)
        · exact .inl rfl
  · rintro (rfl | rfl | rfl)
    · rfl
    · rfl
    · rfl

end Values

section Tokens

variable {vars : List PyString} {state : TraceState} {name value : PyString}

theorem binding_token (plain : 61 ∉ name) : binding (name ++ 61 :: value) = (name,value) := by
  have all : ∀ c ∈ name, (c != 61) = true := by
    intro c member
    have other : c ≠ 61 := fun same => plain (same ▸ member)
    simpa using other
  rw [binding, List.takeWhile_append_of_pos all, List.dropWhile_append_of_pos all,
    List.takeWhile_cons_of_neg (by decide), List.dropWhile_cons_of_neg (by decide), List.append_nil]
  rfl

theorem binding_key (token : PyString) : 61 ∉ (binding token).1 := by
  intro member
  have stays := List.mem_takeWhile_imp member
  exact absurd stays (by decide)

/-- A name of a parsed line holds neither an equals sign nor white space. -/
theorem parseStateLine_key {line key : PyString}
    (member : key ∈ (parseStateLine line).map Prod.fst) : 61 ∉ key ∧ Solid key := by
  have inside : key ∈ (((words line).drop 1).map binding).map Prod.fst := by
    rw [← get_isSome, parseStateLine, get_assignAll, get_nil, Option.or_none, get_isSome] at member
    simpa using member
  rw [List.map_map] at inside
  obtain ⟨token,listed,rfl⟩ := List.mem_map.mp inside
  refine ⟨binding_key token,?_⟩
  intro c known
  exact mem_words (List.mem_of_mem_drop listed) c ((List.takeWhile_prefix _).subset known)

theorem words_stateLine (step : ℕ) (bindings : PyString) :
    (words (stateLine step bindings)).drop 1 = words bindings := by
  have verb : ∀ word : PyString, word ≠ [] → word.all (fun c => !isSpace c) = true →
      (words (word ++ 32 :: bindings)).drop 1 = words bindings := by
    intro word filled inked
    have solid : Solid word := by
      intro c member
      simpa using List.all_eq_true.mp inked c member
    rw [words_append (by decide), words_single filled solid]
    rfl
  have init : points "INIT " = points "INIT" ++ [32] := by decide
  have expect : points "EXPECT " = points "EXPECT" ++ [32] := by decide
  unfold stateLine
  split
  · rw [init, List.append_assoc]
    exact verb "INIT" (by decide) (by decide)
  · rw [expect, List.append_assoc]
    exact verb "EXPECT" (by decide) (by decide)

/-- A state as it is loaded: a value for every variable, in the order of the variables. -/
structure Loaded (library : Library) (vars : List PyString) (state : TraceState) : Prop where
  keys : state.map Prod.fst = vars
  distinct : vars.Nodup
  admitted : ∀ entry ∈ state, Admitted library entry.2

variable {library : Library}

def token (entry : PyString × Value) : PyString := entry.1 ++ 61 :: encodeValue entry.2

theorem bindingsOf_loaded (loaded : Loaded library vars state) :
    bindingsOf vars state = .ok (joined " " (state.map token)) := by
  have keys_distinct : (state.map Prod.fst).Nodup := loaded.keys ▸ loaded.distinct
  have each : vars.mapM (fun name => do
      let value ← encoded state name
      pure (name ++ 61 :: value)) = Except.ok (state.map token) := by
    rw [mapM_ok, ← loaded.keys, List.forall₂_map_left_iff, List.forall₂_map_right_iff,
      List.forall₂_same]
    rintro ⟨name,value⟩ member
    rw [encoded, (mem_iff_get keys_distinct).mp member]
    rfl
  rw [bindingsOf, each]
  rfl

/-- The tokens of a line are read back exactly when the names keep clear of the
sign and the spaces of the protocol. -/
theorem parse_stateLine_iff (loaded : Loaded library vars state) (step : ℕ) :
    parseStateLine (stateLine step (joined " " (state.map token))) =
      state.map (fun entry => (entry.1,encodeValue entry.2)) ↔
        ∀ name ∈ vars, 61 ∉ name ∧ Solid name := by
  constructor
  · intro same name member
    rw [← loaded.keys] at member
    obtain ⟨entry,known,rfl⟩ := List.mem_map.mp member
    apply @parseStateLine_key (stateLine step (joined " " (state.map token)))
    rw [same, List.map_map]
    exact List.mem_map.mpr ⟨entry,known,rfl⟩
  · intro clear
    have named : ∀ entry ∈ state, 61 ∉ entry.1 ∧ Solid entry.1 := by
      intro entry member
      apply clear
      rw [← loaded.keys]
      exact List.mem_map.mpr ⟨entry,member,rfl⟩
    have solid : ∀ word ∈ state.map token, word ≠ [] ∧ Solid word := by
      intro word member
      obtain ⟨entry,known,rfl⟩ := List.mem_map.mp member
      refine ⟨List.append_ne_nil_of_right_ne_nil _ (List.cons_ne_nil _ _),?_⟩
      apply solid_append (named entry known).2
      intro c inside
      rcases List.mem_cons.mp inside with rfl | inside
      · decide
      · exact encodeValue_solid (loaded.admitted entry known) c inside
    have read : (state.map token).map binding =
        state.map (fun entry => (entry.1,encodeValue entry.2)) := by
      rw [List.map_map]
      exact List.map_congr_left (fun entry member => binding_token (named entry member).1)
    rw [parseStateLine, words_stateLine, words_joined solid, read, assignAll_fresh]
    · rfl
    · rw [List.nil_append, List.map_map]
      exact loaded.keys ▸ loaded.distinct

end Tokens

section Runs

variable {library : Library} {adapter : Adapter} {vars : List PyString} {data : PyData}
variable {state : TraceState} {states : List TraceState} {lines left : List PyString} {step : ℕ}

/-- A turn of the adapter: its declared outputs and its reply. -/
abbrev Turn := List PyString × PyString

def Declared (turn : Turn) : Prop := ∀ out ∈ turn.1, (points "OUT ").isPrefixOf out = true

/-- The reply assigns the encoded value of the state to every variable. -/
def Agrees (vars : List PyString) (state : TraceState) (turn : Turn) : Prop :=
  (points "STATE ").isPrefixOf turn.2 = true ∧
    ∀ name ∈ vars, ∃ value, get state name = some value ∧
      get (parseStateLine turn.2) name = some (encodeValue value)

theorem readReply_ok {outs : List PyString} {reply : PyString}
    (read : readReply lines = .ok (outs,reply,left)) :
    ∃ turn : Turn, lines = turn.1 ++ turn.2 :: left ∧ Declared turn ∧ turn.2 = reply := by
  induction lines generalizing outs with
  | nil => cases read
  | cons line lines ih =>
    rw [readReply] at read
    split at read
    · next output =>
      simp only [bind_ok, pure_ok] at read
      obtain ⟨⟨outs',reply',left'⟩,later,same⟩ := read
      obtain ⟨rfl,rfl,rfl⟩ : line.drop 4 :: outs' = outs ∧ reply' = reply ∧ left' = left := by
        simpa using same
      obtain ⟨turn,rfl,declared,rfl⟩ := ih later
      refine ⟨(line :: turn.1,turn.2),rfl,?_,rfl⟩
      exact List.forall_mem_cons.mpr ⟨output,declared⟩
    · obtain ⟨_,rfl,rfl⟩ : [] = outs ∧ line = reply ∧ lines = left := by simpa using read
      exact ⟨([],line),rfl,by rintro _ ⟨⟩,rfl⟩

theorem compareVar_ok {got : Entries PyString PyString} {name : PyString}
    (passed : compareVar step state got name = .ok ⟨⟩) :
    ∃ value, get state name = some value ∧ get got name = some (encodeValue value) := by
  simp only [compareVar, bind_ok, check_ok] at passed
  obtain ⟨expected,written,same⟩ := passed
  rw [encoded] at written
  split at written
  · next value found =>
    obtain rfl : encodeValue value = expected := by simpa using written
    exact ⟨value,found,same⟩
  · cases written

theorem replayState_ok (passed : replayState library adapter vars step state lines = .ok left) :
    ∃ turn : Turn, lines = turn.1 ++ turn.2 :: left ∧ Declared turn ∧ Agrees vars state turn := by
  simp only [replayState, bind_ok, check_ok, forM_ok, pure_ok, exists_unit] at passed
  obtain ⟨_,_,_,⟨outs,reply,left'⟩,read,_,shaped,compared,rfl⟩ := passed
  obtain ⟨turn,split,declared,rfl⟩ := readReply_ok read
  exact ⟨turn,split,declared,shaped,fun name member => compareVar_ok (compared name member)⟩

theorem replayStates_ok (passed : replayStates library adapter vars step states lines = .ok left) :
    ∃ turns : List Turn, lines = turns.flatMap (fun turn => turn.1 ++ [turn.2]) ++ left ∧
      (∀ turn ∈ turns, Declared turn) ∧ List.Forall₂ (Agrees vars) states turns := by
  induction states generalizing step lines with
  | nil =>
    obtain rfl : lines = left := by simpa [replayStates] using passed
    exact ⟨[],rfl,nofun,.nil⟩
  | cons state states ih =>
    simp only [replayStates, bind_ok] at passed
    obtain ⟨middle,first,later⟩ := passed
    obtain ⟨turn,rfl,declared,agrees⟩ := replayState_ok first
    obtain ⟨turns,rfl,all_declared,all_agree⟩ := ih later
    refine ⟨turn :: turns,?_,List.forall_mem_cons.mpr ⟨declared,all_declared⟩,.cons agrees all_agree⟩
    simp

theorem textEntry_ok {entry : PyData} {name : PyString} :
    textEntry entry = .ok name ↔ entry = .str name := by
  cases entry <;> simp [textEntry]

theorem loadState_ok {raw : PyData} (distinct : vars.Nodup)
    (loaded : loadState library vars raw = .ok state) : Loaded library vars state ∧
      ∀ name ∈ vars, ∃ v value, subscript raw name = .ok v ∧ decodeItfValue library v = .ok value ∧
        get state name = some value := by
  have pairs := (mapM_ok _ _ _).mp loaded
  simp only [bind_ok, pure_ok] at pairs
  have keys : state.map Prod.fst = vars := by
    clear loaded distinct
    induction pairs with
    | nil => rfl
    | cons head _ ih =>
      obtain ⟨_,_,_,_,rfl⟩ := head
      rw [List.map_cons, ih]
  have keys_distinct : (state.map Prod.fst).Nodup := keys ▸ distinct
  refine ⟨⟨keys,distinct,?_⟩,?_⟩
  · intro entry member
    obtain ⟨name,_,v,_,value,decoded,rfl⟩ := forall₂_mem_right pairs member
    exact ⟨v,decoded⟩
  · intro name member
    obtain ⟨entry,inside,v,read,value,decoded,rfl⟩ := forall₂_mem_left pairs member
    exact ⟨v,value,read,decoded,(mem_iff_get keys_distinct).mp inside⟩

/-- What a loaded trace is made of: the names that are not meta, and a state for
every raw state. -/
theorem loadTrace_ok (loaded : loadTrace library data = .ok (vars,states)) :
    (∃ names, (subscript data "vars" >>= iterate) = .ok names ∧
      ∀ name, name ∈ vars ↔ PyData.str name ∈ names ∧ isMeta name = false) ∧ vars.Nodup ∧
    ∃ raws, (subscript data "states" >>= iterate) = .ok raws ∧
      List.Forall₂ (fun raw state => loadState library vars raw = .ok state) raws states := by
  simp only [loadTrace] at loaded
  rw [bind_ok] at loaded
  obtain ⟨listed,read,loaded⟩ := loaded
  rw [bind_ok] at loaded
  obtain ⟨names,texts,loaded⟩ := loaded
  rw [bind_ok] at loaded
  obtain ⟨raws,raw_read,loaded⟩ := loaded
  rw [bind_ok] at loaded
  obtain ⟨found,each,same⟩ := loaded
  obtain ⟨rfl,rfl⟩ : sortedNames (names.filter (fun name => !isMeta name)) = vars ∧ found = states := by
    simpa using same
  have entries := (mapM_ok _ _ _).mp texts
  refine ⟨⟨listed,read,?_⟩,sortedNames_nodup _,raws,raw_read,(mapM_ok _ _ _).mp each⟩
  intro name
  rw [mem_sortedNames, List.mem_filter]
  have member_iff : name ∈ names ↔ PyData.str name ∈ listed := by
    constructor
    · intro member
      obtain ⟨entry,inside,same⟩ := forall₂_mem_right entries member
      exact textEntry_ok.mp same ▸ inside
    · intro member
      obtain ⟨other,inside,same⟩ := forall₂_mem_left entries member
      have spelled := textEntry_ok.mp same
      injection spelled with spelled
      exact spelled ▸ inside
  rw [member_iff]
  simp

end Runs

/-- The reply assigns to every variable the token of its value in the trace. -/
def Replays (library : Library) (vars : List PyString) (raw : PyData) (turn : Turn) : Prop :=
  (points "STATE ").isPrefixOf turn.2 = true ∧
    ∀ name ∈ vars, ∃ v value, subscript raw name = .ok v ∧ decodeItfValue library v = .ok value ∧
      get (parseStateLine turn.2) name = some (encodeValue value)

theorem agrees_replays {library : Library} {vars : List PyString} (distinct : vars.Nodup)
    {raws : List PyData} {states : List TraceState} {turns : List Turn}
    (each : List.Forall₂ (fun raw state => loadState library vars raw = .ok state) raws states)
    (agree : List.Forall₂ (Agrees vars) states turns) :
    List.Forall₂ (Replays library vars) raws turns := by
  induction each generalizing turns with
  | nil =>
    cases agree
    exact .nil
  | cons head _ ih =>
    cases agree with
    | cons here later =>
      refine .cons ⟨here.1,?_⟩ (ih later)
      intro name member
      obtain ⟨v,value,read,decoded,found⟩ := (loadState_ok distinct head).2 name member
      obtain ⟨value',found',token_read⟩ := here.2 name member
      obtain rfl : value = value' := Option.some.inj (found.symm.trans found')
      exact ⟨v,value,read,decoded,token_read⟩

/-- A replay that returns has seen a reply for every state of the trace, in
order, with the token of the value of every variable. Tokens tell values of one
type apart, and a text from every value that it does not spell; those of a line
are read back exactly when no name holds an equals sign or white space. -/
theorem replayTrace_sound (library : Library) (data : PyData) (vars : List PyString)
    (states : List TraceState) (loaded : loadTrace library data = .ok (vars,states)) :
    (∃ names, (subscript data "vars" >>= iterate) = .ok names ∧
      ∀ name, name ∈ vars ↔ PyData.str name ∈ names ∧ isMeta name = false) ∧
    (∃ raws, (subscript data "states" >>= iterate) = .ok raws ∧
      ∀ adapter, replayTrace library adapter vars states = .ok () →
        ∃ turns left, adapter.lines = turns.flatMap (fun turn => turn.1 ++ [turn.2]) ++ left ∧
          (∀ turn ∈ turns, Declared turn) ∧ List.Forall₂ (Replays library vars) raws turns) ∧
    (∀ v w, encodeValue v = encodeValue w ↔
      v = w ∨ v = .str (encodeValue w) ∨ w = .str (encodeValue v)) ∧
    ∀ state ∈ states, ∀ step, ∃ bindings, bindingsOf vars state = .ok bindings ∧
      (parseStateLine (stateLine step bindings) =
        state.map (fun entry => (entry.1,encodeValue entry.2)) ↔
          ∀ name ∈ vars, 61 ∉ name ∧ Solid name) := by
  obtain ⟨names,distinct,raws,raw_read,each⟩ := loadTrace_ok loaded
  refine ⟨names,⟨raws,raw_read,?_⟩,encodeValue_eq_iff,?_⟩
  · intro adapter returned
    simp only [replayTrace, bind_ok, check_ok] at returned
    obtain ⟨_,_,left,passed,_⟩ := returned
    obtain ⟨turns,split,declared,agree⟩ := replayStates_ok passed
    exact ⟨turns,left,split,declared,agrees_replays distinct each agree⟩
  · intro state member step
    obtain ⟨raw,_,read⟩ := forall₂_mem_right each member
    have whole := (loadState_ok distinct read).1
    exact ⟨_,bindingsOf_loaded whole,parse_stateLine_iff whole step⟩

/-- A library for concrete traces. -/
def sampleLibrary : Library where
  repr := fun _ => []
  loads := fun _ => none
  sha256 := fun _ => []

/-- A trace of one state in which the variable `x` has this value. -/
def sampleTrace (value : PyData) : PyData :=
  .dict [(points "vars",.list [.str "x"]),
    (points "states",.list [.dict [(points "x",value)]])]

theorem sampleTrace_loaded :
    loadTrace sampleLibrary (sampleTrace (.int 1)) = .ok ([points "x"],[[(points "x",.int 1)]]) ∧
    loadTrace sampleLibrary (sampleTrace (.str "1")) =
      .ok ([points "x"],[[(points "x",.str "1")]]) :=
  ⟨rfl,rfl⟩

def sampleAdapter : Adapter := ⟨["STATE x=1"].map points,fun _ => true,true⟩

theorem sampleAdapter_answers :
    replayTrace sampleLibrary sampleAdapter [points "x"] [[(points "x",.int 1)]] = .ok () ∧
    replayTrace sampleLibrary sampleAdapter [points "x"] [[(points "x",.str "1")]] = .ok () := by
  decide +kernel

theorem sampleTrace_replayed :
    ∃ turns left,
      sampleAdapter.lines = turns.flatMap (fun turn : Turn => turn.1 ++ [turn.2]) ++ left ∧
        (∀ turn ∈ turns, Declared turn) ∧
        List.Forall₂ (Replays sampleLibrary [points "x"]) [.dict [(points "x",.int 1)]] turns := by
  obtain ⟨_,⟨raws,read,sound⟩,_⟩ := replayTrace_sound sampleLibrary (sampleTrace (.int 1)) _ _
    sampleTrace_loaded.1
  have same : raws = [.dict [(points "x",.int 1)]] := (Except.ok.inj read).symm
  subst same
  exact sound sampleAdapter sampleAdapter_answers.1

/-- One reply replays the number and the text that spells it, and a name with an
equals sign is read back as another. -/
theorem sampleTrace_confused :
    (loadTrace sampleLibrary (sampleTrace (.int 1)) = .ok ([points "x"],[[(points "x",.int 1)]]) ∧
      loadTrace sampleLibrary (sampleTrace (.str "1")) =
        .ok ([points "x"],[[(points "x",.str "1")]]) ∧
      ∃ adapter : Adapter,
        replayTrace sampleLibrary adapter [points "x"] [[(points "x",.int 1)]] = .ok () ∧
        replayTrace sampleLibrary adapter [points "x"] [[(points "x",.str "1")]] = .ok ()) ∧
    (Value.bool true ≠ .str "true" ∧ encodeValue (.bool true) = encodeValue (.str "true")) ∧
    bindingsOf [points "a=b"] [(points "a=b",.int 1)] = .ok (points "a=b=1") ∧
      parseStateLine (stateLine 0 "a=b=1") = [(points "a",points "b=1")] := by
  refine ⟨⟨sampleTrace_loaded.1,sampleTrace_loaded.2,sampleAdapter,sampleAdapter_answers⟩,?_⟩
  decide +kernel

end TraceReplay

end EvidenceV4
