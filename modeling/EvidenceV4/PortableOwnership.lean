import EvidenceV4.ControlRun
import EvidenceV4.JsonAgreement
import EvidenceV4.PythonData
import EvidenceV4.SeparatedFields
import Mathlib.Algebra.GroupWithZero.Nat

/-!
# The protocol log in the portable checker

The checker reads the retained log again: lines, messages and the order of
registrations and releases. It accepts the logs that the pipes accept, where every
group that was announced was released and retained.
-/

set_option autoImplicit false

namespace EvidenceV4

namespace PortableOwnership

open CheckedExcept
open CheckerJson hiding keyOrder
open JsonAgreement (toPythonField toPython_object keys_nodup parseJson_ok points_injective)
open ControlPipe (Kind Groups Message)
open PythonData (Library say)

section Checker

variable (library : Library)

def keyList (keys : List PyString) : PyString :=
  say [points "[",[44,32].intercalate ((keys.insertionSort (fun a b => a ≤ b)).map
    (fun key => library.repr (.str key))),points "]"]

def shape : List PyString := [points "event",points "pgid"]

def enum : Option PyValue → Except PyString Kind
  | some (.string text) =>
    if text = points "owned" then pure .owned
    else if text = points "released" then pure .released
    else V4Error "value.event: invalid enum value"
  | _ => V4Error "value.event: invalid enum value"

def positive : Option PyValue → Except PyString ℤ
  | some (.number pgid) =>
    if 1 ≤ pgid ∧ pgid ≤ CanonicalJson.maxSafeInteger then pure pgid
    else V4Error "value.pgid: invalid positive"
  | _ => V4Error "value.pgid: invalid positive"

/-- `validate` on the shape of a message. -/
def validate (value : PyValue) : Except PyString Message := do
  grammar none value
  match value with
  | .object fields => do
    let keys := fields.map Prod.fst
    let missing := shape.filter (fun key => key ∉ keys)
    let unknown := keys.filter (fun key => key ∉ shape)
    check (missing = [] ∧ unknown = []) (say [points "value: missing ",keyList library missing,
      points ", unknown ",keyList library unknown])
    let event ← enum (fields.lookup (points "event"))
    let pgid ← positive (fields.lookup (points "pgid"))
    pure ⟨event,pgid⟩
  | _ => V4Error "value: expected object"

/-- The body of the loop over the lines. -/
def account (groups : Groups) (line : List UInt8) : Except PyString Groups := do
  check (0 < line.length ∧ line.length ≤ 4096) (points "invalid ownership control message length")
  let value ← parseJson line
  let message ← validate library value
  match message.event with
  | .owned => do
    check (message.pgid ∉ groups.owned) (points "duplicate private ownership registration")
    pure { groups with owned := groups.owned ++ [message.pgid] }
  | .released => do
    check (message.pgid ∈ groups.owned ∧ message.pgid ∉ groups.released)
      (points "out-of-order private ownership release")
    pure { groups with released := groups.released ++ [message.pgid] }

def sameSet (a b : List ℤ) : Prop := (∀ x ∈ a, x ∈ b) ∧ ∀ x ∈ b, x ∈ a

instance (a b : List ℤ) : Decidable (sameSet a b) := inferInstanceAs (Decidable (_ ∧ _))

/-- The part of `_ownership` that reads the log of a passing execution; `hosted` are the
process identifiers of the retained children of a collector. -/
def accounts (log : List UInt8) (hosted : List ℤ) : Except PyString Unit := do
  check (log = [] ∨ log.getLast? = some 10) (points "partial ownership control message")
  let groups ← (log.splitOn 10).dropLast.foldlM (account library) .empty
  check (sameSet groups.owned groups.released ∧ sameSet groups.released hosted)
    (points "private protocol/retained process accounting mismatch")

end Checker

section Messages

open CanonicalJson (Value isSafeInteger maxSafeInteger parseJSON)
open ControlPipe (group event joinedKeys keyOrder readMessage)

variable {fields : List (String × Value)}

theorem length_intercalate {α : Type} (sep : α) {parts : List (List α)} (nonempty : parts ≠ []) :
    ([sep].intercalate parts).length + 1 = (parts.map (fun part => part.length + 1)).sum := by
  induction parts with
  | nil => exact absurd rfl nonempty
  | cons first parts ih =>
    cases parts with
    | nil => simp
    | cons second parts =>
      have later := ih (List.cons_ne_nil _ _)
      rw [List.intercalate_cons_cons, List.map_cons, List.sum_cons, ← later]
      simp
      omega

theorem joinedKeys_pair {keys : List String} (event : "event" ∈ keys) (pgid : "pgid" ∈ keys)
    (joined : List.intercalate [','] ((keys.insertionSort (fun a b => keyOrder a b)).map
      String.toList) = "event,pgid".toList) :
    keys.Perm ["event","pgid"] := by
  have sorted := List.perm_insertionSort (fun a b => keyOrder a b = true) keys
  have nonempty : (keys.insertionSort (fun a b => keyOrder a b)).map String.toList ≠ [] := by
    intro none_
    rw [none_] at joined
    cases joined
  have length := length_intercalate ',' nonempty
  rw [joined, List.map_map, (sorted.map _).sum_nat] at length
  have first := List.perm_cons_erase event
  have second := List.perm_cons_erase
    ((List.mem_erase_of_ne (by decide : "pgid" ≠ "event")).mpr pgid)
  have whole := first.trans (second.cons "event")
  rw [(whole.map _).sum_nat] at length
  have rest : (keys.erase "event").erase "pgid" = [] := by
    cases others : (keys.erase "event").erase "pgid" with
    | nil => rfl
    | cons other others' =>
      rw [others] at length
      simp at length
      omega
  rwa [rest] at whole

theorem joinedKeys_of {keys : List String} (whole : keys.Perm ["event","pgid"]) :
    List.intercalate [','] ((keys.insertionSort (fun a b => keyOrder a b)).map String.toList) =
      "event,pgid".toList := by
  have length := whole.length_eq
  have ⟨a,b,same⟩ := List.length_eq_two.mp length
  subst same
  have distinct := whole.nodup_iff.mpr (by decide)
  have first := whole.mem_iff.mp (List.mem_cons_self (a := a))
  have second := whole.mem_iff.mp (List.mem_cons_of_mem a (List.mem_singleton_self b))
  simp only [List.mem_cons, List.not_mem_nil, or_false] at first second
  rcases first with rfl | rfl <;> rcases second with rfl | rfl
  · simp at distinct
  · decide
  · decide
  · simp at distinct

def kindText : Kind → String
  | .owned => "owned"
  | .released => "released"

/-- What an object tells as a message. -/
structure Tells (fields : List (String × Value)) (message : Message) : Prop where
  event : fields.lookup "event" = some (.string (kindText message.event))
  pgid : fields.lookup "pgid" = some (.number message.pgid)
  positive : 0 < message.pgid
  safe : message.pgid ≤ maxSafeInteger
  keys : ∀ key ∈ fields.map Prod.fst, key = "event" ∨ key = "pgid"

theorem key_of_lookup {key : String} {value : Value} (found : fields.lookup key = some value) :
    key ∈ fields.map Prod.fst := by
  have ⟨before,after,whole,_⟩ := List.lookup_eq_some_iff.mp found
  rw [whole]
  simp

theorem group_ok {value : Option Value} {pgid : ℤ} : group value = .ok pgid ↔
    value = some (.number pgid) ∧ 0 < pgid ∧ pgid ≤ maxSafeInteger := by
  cases value with
  | none => simp [group]
  | some value =>
    cases value with
    | number n =>
      simp only [group, bind_ok, check_ok, exists_unit, pure_ok, isSafeInteger, decide_eq_true_eq]
      constructor
      · rintro ⟨⟨safe,large⟩,rfl⟩
        exact ⟨rfl,large,by omega⟩
      · rintro ⟨same,large,safe⟩
        cases same
        exact ⟨⟨by omega,large⟩,rfl⟩
    | _ => simp [group]

theorem event_ok {value : Option Value} {kind : Kind} : event value = .ok kind ↔
    value = some (.string (kindText kind)) := by
  cases value with
  | none => simp [event]
  | some value =>
    cases value with
    | string text =>
      rw [event]
      split_ifs with first second
      · cases kind <;> simp [kindText, first]
      · cases kind <;> simp [kindText, second]
      · cases kind <;> simp [kindText, first, second]
    | _ => simp [event]

/-- The host takes the objects that tell a message. -/
theorem readMessage_ok {bytes : List UInt8} {message : Message} : readMessage bytes = .ok message ↔
    ∃ fields, parseJSON bytes = .ok (.object fields) ∧ Tells fields message := by
  rw [readMessage, bind_ok]
  constructor
  · rintro ⟨value,read,same⟩
    cases value with
    | object fields =>
      simp only [bind_ok, check_ok, exists_unit, pure_ok, group_ok, event_ok] at same
      obtain ⟨joined,pgid,⟨found,positive,safe⟩,kind,said,rfl⟩ := same
      have keys := joinedKeys_pair (key_of_lookup said) (key_of_lookup found) joined
      exact ⟨fields,read,said,found,positive,safe,fun key member => by simpa using keys.mem_iff.mp member⟩
    | _ => simp at same
  · rintro ⟨fields,read,tells⟩
    use .object fields, read
    cases CanonicalRoundTrip.parseJSON_format read with
    | object _ _ distinct each =>
      have keys : (fields.map Prod.fst).Perm ["event","pgid"] := by
        rw [List.perm_ext_iff_of_nodup distinct (by decide)]
        intro key
        rw [List.mem_cons, List.mem_singleton]
        constructor
        · exact tells.keys key
        · rintro (rfl | rfl)
          · exact key_of_lookup tells.event
          · exact key_of_lookup tells.pgid
      simp only [bind_ok, check_ok, exists_unit, pure_ok, group_ok, event_ok]
      exact ⟨joinedKeys_of keys,message.pgid,⟨tells.pgid,tells.positive,tells.safe⟩,message.event,
        tells.event,rfl⟩

theorem lookup_points (fields : List (String × Value)) (key : String) :
    (fields.map toPythonField).lookup (points key) = (fields.lookup key).map toPython := by
  induction fields with
  | nil => rfl
  | cons field fields ih =>
    rw [List.map_cons, toPythonField, List.lookup_cons, List.lookup_cons, ih]
    by_cases same : key = field.1
    · simp [same]
    · have apart : points key ≠ points field.1 := fun h => same (points_injective h)
      simp [beq_false_of_ne apart, beq_false_of_ne same]

theorem enum_ok {value : Option Value} {kind : Kind} : enum (value.map toPython) = .ok kind ↔
    value = some (.string (kindText kind)) := by
  cases value with
  | none => simp [enum, V4Error]
  | some value =>
    cases value with
    | string text =>
      rw [Option.map_some, toPython, enum]
      simp only [points_injective.eq_iff]
      split_ifs with first second
      · cases kind <;> simp [kindText, first]
      · cases kind <;> simp [kindText, second]
      · cases kind <;> simp [kindText, first, second, V4Error]
    | _ => simp [enum, toPython, V4Error]

theorem positive_ok {value : Option Value} {pgid : ℤ} : positive (value.map toPython) = .ok pgid ↔
    value = some (.number pgid) ∧ 0 < pgid ∧ pgid ≤ maxSafeInteger := by
  cases value with
  | none => simp [positive, V4Error]
  | some value =>
    cases value with
    | number n =>
      rw [Option.map_some, toPython, positive]
      split_ifs with fine
      · simp only [pure_ok, Option.some.injEq, JsonText.Json.number.injEq]
        constructor
        · rintro rfl
          exact ⟨rfl,by omega,fine.2⟩
        · exact fun h => h.1
      · simp only [V4Error, throw_ok, false_iff, Option.some.injEq, JsonText.Json.number.injEq]
        rintro ⟨rfl,large,safe⟩
        exact fine ⟨by omega,safe⟩
    | _ => simp [positive, toPython, V4Error]

theorem shape_names {names : List String} (event : "event" ∈ names) (pgid : "pgid" ∈ names) :
    (shape.filter (fun key => key ∉ names.map points) = [] ∧
      (names.map points).filter (fun key => key ∉ shape) = []) ↔
      ∀ key ∈ names, key = "event" ∨ key = "pgid" := by
  have known : shape.filter (fun key => key ∉ names.map points) = [] := by
    rw [List.filter_eq_nil_iff]
    simp only [shape, decide_not, Bool.not_eq_true', decide_eq_false_iff_not, not_not,
      List.mem_map_of_injective points_injective, List.forall_mem_cons]
    exact ⟨event,pgid,nofun⟩
  rw [and_iff_right known, List.filter_eq_nil_iff, List.forall_mem_map]
  simp only [shape, decide_not, Bool.not_eq_true', decide_eq_false_iff_not, not_not, List.mem_cons,
    List.not_mem_nil, or_false, points_injective.eq_iff]

/-- The checker takes the same objects. -/
theorem validate_ok (library : Library) {v : Value} {message : Message}
    (walked : grammar none (toPython v) = .ok ()) : validate library (toPython v) = .ok message ↔
      ∃ fields, v = .object fields ∧ Tells fields message := by
  simp only [validate, walked, bind_ok, exists_unit, true_and]
  cases v with
  | object fields =>
    have names : (fields.map toPythonField).map Prod.fst = (fields.map Prod.fst).map points := by
      rw [List.map_map, List.map_map]
      rfl
    simp only [toPython_object, bind_ok, check_ok, exists_unit, pure_ok, lookup_points, enum_ok,
      positive_ok, names, JsonText.Json.object.injEq, exists_eq_left']
    constructor
    · rintro ⟨shaped,kind,said,pgid,⟨found,large,safe⟩,rfl⟩
      exact ⟨said,found,large,safe,
        (shape_names (key_of_lookup said) (key_of_lookup found)).mp shaped⟩
    · intro tells
      exact ⟨(shape_names (key_of_lookup tells.event) (key_of_lookup tells.pgid)).mpr tells.keys,
        message.event,tells.event,message.pgid,⟨tells.pgid,tells.positive,tells.safe⟩,rfl⟩
  | _ => simp [toPython, V4Error]

end Messages

section Logs

variable (library : Library)

theorem parseJson_walked {bytes : List UInt8} {value : PyValue} (read : parseJson bytes = .ok value) :
    grammar none value = .ok () := by
  simp only [parseJson, bind_ok, exists_unit, pure_ok] at read
  obtain ⟨_,_,_,_,walked,same⟩ := read
  exact same ▸ walked

/-- The host and the checker take the same lines for messages. -/
theorem message_agrees {line : List UInt8} {message : Message} :
    (∃ value, parseJson line = .ok value ∧ validate library value = .ok message) ↔
      ControlPipe.readMessage line = .ok message := by
  rw [readMessage_ok]
  constructor
  · rintro ⟨value,read,valid⟩
    have ⟨v,same,parsed⟩ := (parseJson_ok line value).mp read
    subst same
    have ⟨fields,object,tells⟩ := (validate_ok library (parseJson_walked read)).mp valid
    exact ⟨fields,object ▸ parsed,tells⟩
  · rintro ⟨fields,parsed,tells⟩
    have read := (parseJson_ok line _).mpr ⟨_,rfl,parsed⟩
    exact ⟨_,read,(validate_ok library (parseJson_walked read)).mpr ⟨fields,rfl,tells⟩⟩

theorem account_ok {groups groups' : Groups} {line : List UInt8} :
    account library groups line = .ok groups' ↔ (line ≠ [] ∧ line.length ≤ 4096) ∧
      ∃ message, ControlPipe.readMessage line = .ok message ∧
        groups.enter message = some groups' := by
  simp only [← message_agrees library, account, bind_ok, check_ok, exists_unit, List.length_pos_iff]
  apply and_congr_right
  intro _
  have admits : ∀ message : Message, (match message.event with
      | .owned => do
        check (message.pgid ∉ groups.owned) (points "duplicate private ownership registration")
        pure { groups with owned := groups.owned ++ [message.pgid] }
      | .released => do
        check (message.pgid ∈ groups.owned ∧ message.pgid ∉ groups.released)
          (points "out-of-order private ownership release")
        pure { groups with released := groups.released ++ [message.pgid] } :
      Except PyString Groups) = .ok groups' ↔ groups.enter message = some groups' := by
    intro message
    rw [Groups.enter]
    cases message.event <;> simp
  simp only [admits]
  constructor
  · rintro ⟨value,read,message,valid,next⟩
    exact ⟨message,⟨value,read,valid⟩,next⟩
  · rintro ⟨message,⟨value,read,valid⟩,next⟩
    exact ⟨value,read,message,valid,next⟩

theorem account_lines {groups groups' : Groups} {lines : List (List UInt8)} :
    lines.foldlM (account library) groups = .ok groups' ↔
      (∀ line ∈ lines, line ≠ [] ∧ line.length ≤ 4096) ∧ ∃ messages,
        List.Forall₂ (fun line message => ControlPipe.readMessage line = .ok message) lines messages ∧
          groups.replay messages = some groups' := by
  induction lines generalizing groups with
  | nil =>
    rw [List.foldlM_nil, pure_ok]
    constructor
    · rintro rfl
      exact ⟨by rintro _ ⟨⟩,[],.nil,rfl⟩
    · rintro ⟨_,_,reads,replayed⟩
      cases reads
      exact Option.some.inj replayed
  | cons line lines ih =>
    rw [List.foldlM_cons, bind_ok, List.forall_mem_cons]
    constructor
    · rintro ⟨middle,here,later⟩
      obtain ⟨fits,message,read,next⟩ := (account_ok library).mp here
      obtain ⟨each,messages,reads,replayed⟩ := ih.mp later
      use ⟨fits,each⟩, message :: messages, .cons read reads
      rw [Groups.replay, next, Option.bind_some, replayed]
    · rintro ⟨⟨fits,each⟩,_,reads,replayed⟩
      cases reads with
      | cons read reads =>
        rw [Groups.replay, Option.bind_eq_some_iff] at replayed
        obtain ⟨middle,next,replayed⟩ := replayed
        exact ⟨middle,(account_ok library).mpr ⟨fits,_,read,next⟩,ih.mpr ⟨each,_,reads,replayed⟩⟩

/-- The checker accepts a log just if the pipes accept it and every group that it announces was
released and is a retained one. -/
theorem accounts_iff (log : List UInt8) (hosted : List ℤ) : accounts library log hosted = .ok () ↔
    ∃ lines messages groups, ControlPipe.Orderly log lines messages groups ∧
      sameSet groups.owned groups.released ∧ sameSet groups.released hosted := by
  simp only [accounts, bind_ok, check_ok, exists_unit]
  constructor
  · rintro ⟨closed,groups,read,same⟩
    obtain ⟨each,messages,reads,replayed⟩ := (account_lines library).mp read
    have free := SeparatedFields.splitOn_apart 10 log
    have frames : ∀ line ∈ (log.splitOn 10).dropLast, FramedStream.Frame 10 4096 line :=
      fun line member => ⟨(each line member).1,(each line member).2,
        free line (List.dropLast_subset _ member)⟩
    exact ⟨_,messages,groups,⟨FramedStream.framed_splitOn closed,frames,reads,replayed⟩,same⟩
  · rintro ⟨lines,messages,groups,⟨whole,each,reads,replayed⟩,same⟩
    have pieces : (log.splitOn 10).dropLast = lines := by
      rw [whole, FramedStream.splitOn_framed (fun line member => (each line member).free),
        List.dropLast_concat]
    have closed : log = [] ∨ log.getLast? = some 10 := by
      rw [whole]
      exact FramedStream.framed_closed lines
    rw [pieces]
    exact ⟨closed,groups,(account_lines library).mpr ⟨fun line member => ⟨(each line member).full,
      (each line member).short⟩,messages,reads,replayed⟩,same⟩

end Logs

section Agreement

open ControlPipe (Event Keeps Orderly Pipe Registration fresh received run)

variable {log : List UInt8} {lines lines' : List (List UInt8)} {messages messages' : List Message}
  {groups groups' : Groups}

theorem orderly_unique (first : Orderly log lines messages groups)
    (second : Orderly log lines' messages' groups') : groups = groups' := by
  have ⟨whole,each,reads,replayed⟩ := first
  have ⟨whole',each',reads',replayed'⟩ := second
  have scanned := (FramedStream.scan_iff _ _).mpr ⟨whole,each⟩
  have same := congrArg FramedStream.Scan.frames
    (scanned.symm.trans ((FramedStream.scan_iff _ _).mpr ⟨whole',each'⟩))
  subst same
  have unique : Relator.RightUnique
      (fun line message => ControlPipe.readMessage line = .ok message) := by
    intro line first second one two
    exact Except.ok.inj (one.symm.trans two)
  have same := List.right_unique_forall₂' unique reads reads'
  subst same
  exact Option.some.inj (replayed.symm.trans replayed')

theorem closed_windows {hosted : List Registration} {windows : List ControlPipe.WindowState}
    (keeps : Keeps groups hosted windows) (fits : windows.length = hosted.length) :
    (sameSet groups.owned groups.released ∧
        sameSet groups.released (hosted.map Registration.pgid)) ↔
      ∀ state ∈ windows, state = .closed := by
  constructor
  · rintro ⟨⟨all,_⟩,_⟩ state member
    have ⟨i,place,same⟩ := List.mem_iff_getElem.mp member
    have inside : i ∈ hosted.map Registration.window := by
      rw [keeps.own, List.mem_range]
      omega
    have ⟨r,known,here⟩ := List.mem_map.mp inside
    have released := all r.pgid (keeps.pgid_mem.mpr ⟨r,known,rfl⟩)
    have closed := (keeps.closed r known).mpr released
    rw [here, List.getElem?_eq_getElem place, same] at closed
    exact Option.some.inj closed
  · intro closed
    have all : ∀ pgid ∈ groups.owned, pgid ∈ groups.released := by
      intro pgid owned
      have ⟨r,known,same⟩ := keeps.pgid_mem.mp owned
      subst same
      apply (keeps.closed r known).mp
      have place : r.window < windows.length := by
        have := keeps.window_lt known
        omega
      rw [List.getElem?_eq_getElem place, closed _ (List.getElem_mem place)]
    rw [keeps.owned]
    exact ⟨⟨all,keeps.known⟩,keeps.known,all⟩

/-- A run whose protocol has not failed retains a log that the checker accepts with the hosted
groups just if every window was closed by a release. -/
theorem retained_log (library : Library) {events : List Event} {s : Pipe}
    (ran : run fresh events = some s) (drained : s.Drained) (well : s.failed = false) :
    ∃ log, s.protocolLog = some log ∧
      (accounts library log (s.hosted.map Registration.pgid) = .ok () ↔
        ∀ state ∈ s.windows, state = .closed) := by
  have ⟨lines,messages,ledger,orderly,kept,_,keeps,fits⟩ := ControlPipe.protocol_kept ran drained well
  use received events, kept
  rw [accounts_iff, ← closed_windows keeps fits]
  constructor
  · rintro ⟨_,_,groups,other,same⟩
    rwa [orderly_unique orderly other]
  · intro same
    exact ⟨lines,messages,ledger,orderly,same⟩

theorem retained_log_sample : ∃ log, ControlPipe.sampleEnd.protocolLog = some log ∧
    (accounts ⟨fun _ => [],fun _ => none,fun _ => []⟩ log
        (ControlPipe.sampleEnd.hosted.map Registration.pgid) = .ok () ↔
      ∀ state ∈ ControlPipe.sampleEnd.windows, state = .closed) :=
  retained_log _ ControlPipe.sample_ran ControlPipe.sample_drained (by decide +kernel)

end Agreement

end PortableOwnership

end EvidenceV4
