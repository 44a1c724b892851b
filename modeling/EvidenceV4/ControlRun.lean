import EvidenceV4.ControlPipe

/-!
# What the pipes have seen at the end

As long as the protocol has not failed, the lines that were answered are the first
lines of what has arrived, in order. Each is a message that a ledger of groups
admits, and the registrations and their windows are those of the ledger.
-/

set_option autoImplicit false

namespace EvidenceV4

namespace ControlPipe

open FramedStream

/-- The groups that were announced and the released ones among them. -/
structure Groups where
  owned : List ℤ
  released : List ℤ
  deriving DecidableEq

namespace Groups

def empty : Groups := ⟨[],[]⟩

def enter (ledger : Groups) (message : Message) : Option Groups :=
  match message.event with
  | .owned =>
    if message.pgid ∈ ledger.owned then none
    else some { ledger with owned := ledger.owned ++ [message.pgid] }
  | .released =>
    if message.pgid ∈ ledger.owned ∧ message.pgid ∉ ledger.released then
      some { ledger with released := ledger.released ++ [message.pgid] }
    else none

def replay (ledger : Groups) : List Message → Option Groups
  | [] => some ledger
  | message :: messages => (ledger.enter message).bind (fun ledger => ledger.replay messages)

theorem replay_append (ledger : Groups) (first second : List Message) :
    ledger.replay (first ++ second) =
      (ledger.replay first).bind (fun ledger => ledger.replay second) := by
  induction first generalizing ledger with
  | nil => rfl
  | cons message first ih =>
    rw [List.cons_append, replay, replay, Option.bind_assoc]
    exact congrArg _ (funext ih)

theorem replay_snoc {ledger ledger' : Groups} {messages : List Message} {message : Message}
    (before : empty.replay messages = some ledger) (next : ledger.enter message = some ledger') :
    empty.replay (messages ++ [message]) = some ledger' := by
  rw [replay_append, before, Option.bind_some, replay, next]
  rfl

theorem enter_owned {ledger : Groups} {pgid : ℤ} (unseen : pgid ∉ ledger.owned) :
    ledger.enter ⟨.owned,pgid⟩ = some { ledger with owned := ledger.owned ++ [pgid] } :=
  if_neg unseen

theorem enter_released {ledger : Groups} {pgid : ℤ} (seen : pgid ∈ ledger.owned)
    (unseen : pgid ∉ ledger.released) :
    ledger.enter ⟨.released,pgid⟩ = some { ledger with released := ledger.released ++ [pgid] } :=
  if_pos ⟨seen,unseen⟩

end Groups

section Registry

/-- The registrations and the windows are those of a ledger. -/
structure Keeps (ledger : Groups) (hosted : List Registration) (windows : List WindowState) :
    Prop where
  owned : hosted.map Registration.pgid = ledger.owned
  own : hosted.map Registration.window = List.range hosted.length
  closed : ∀ r ∈ hosted, windows[r.window]? = some .closed ↔ r.pgid ∈ ledger.released
  ended : ∀ r ∈ hosted, r.pgid ∈ ledger.released → r.terminated = true
  distinct : ledger.owned.Nodup
  known : ∀ pgid ∈ ledger.released, pgid ∈ ledger.owned

variable {ledger : Groups} {hosted : List Registration} {windows : List WindowState} {pgid : ℤ}

theorem keeps_empty : Keeps .empty [] [] where
  owned := rfl
  own := rfl
  closed := nofun
  ended := nofun
  distinct := List.nodup_nil
  known := nofun

theorem Keeps.window_lt (keeps : Keeps ledger hosted windows) {r : Registration}
    (member : r ∈ hosted) : r.window < hosted.length := by
  have := List.mem_map_of_mem (f := Registration.window) member
  rwa [keeps.own, List.mem_range] at this

theorem Keeps.pgid_mem (keeps : Keeps ledger hosted windows) :
    pgid ∈ ledger.owned ↔ ∃ r ∈ hosted, r.pgid = pgid := by
  rw [← keeps.owned, List.mem_map]

theorem Keeps.same_group (keeps : Keeps ledger hosted windows) {r q : Registration}
    (first : r ∈ hosted) (second : q ∈ hosted) (same : r.pgid = q.pgid) : r = q := by
  have distinct := keeps.distinct
  rw [← keeps.owned] at distinct
  exact List.inj_on_of_nodup_map distinct first second same

theorem Keeps.same_window (keeps : Keeps ledger hosted windows) {r q : Registration}
    (first : r ∈ hosted) (second : q ∈ hosted) (same : r.window = q.window) : r = q := by
  have distinct := List.nodup_range (n := hosted.length)
  rw [← keeps.own] at distinct
  exact List.inj_on_of_nodup_map distinct first second same

theorem Keeps.host (keeps : Keeps ledger hosted windows) (unseen : pgid ∉ ledger.owned)
    (fits : windows.length = hosted.length+1) :
    Keeps { ledger with owned := ledger.owned ++ [pgid] } (hosted ++ [⟨pgid,hosted.length,false⟩])
      (windows.set hosted.length .active) where
  owned := by rw [List.map_append, keeps.owned]; rfl
  own := by rw [List.map_append, keeps.own, List.length_append]; exact List.range_succ.symm
  closed := by
    intro r member
    rw [List.mem_append, List.mem_singleton] at member
    cases member with
    | inl old =>
      rw [List.getElem?_set_ne (Nat.ne_of_gt (keeps.window_lt old))]
      exact keeps.closed r old
    | inr new =>
      subst new
      have absent : pgid ∉ ledger.released := fun released => unseen (keeps.known pgid released)
      simp [absent, fits]
  ended := by
    intro r member released
    rw [List.mem_append, List.mem_singleton] at member
    cases member with
    | inl old => exact keeps.ended r old released
    | inr new =>
      subst new
      exact absurd (keeps.known pgid released) unseen
  distinct := by
    rw [List.nodup_append]
    exact ⟨keeps.distinct,List.nodup_singleton pgid,
      fun a first b second => by rintro rfl; exact unseen (List.mem_singleton.mp second ▸ first)⟩
  known := fun p released => List.mem_append_left _ (keeps.known p released)

theorem Keeps.opened (keeps : Keeps ledger hosted windows) (fits : windows.length = hosted.length) :
    Keeps ledger hosted (windows ++ [.pending]) where
  owned := keeps.owned
  own := keeps.own
  closed := by
    intro r member
    rw [List.getElem?_append_left (fits.symm ▸ keeps.window_lt member)]
    exact keeps.closed r member
  ended := keeps.ended
  distinct := keeps.distinct
  known := keeps.known

theorem mem_mark {r : Registration} : r ∈ mark pgid hosted ↔
    ∃ q ∈ hosted, q.pgid = r.pgid ∧ q.window = r.window ∧
      r.terminated = (q.terminated || q.pgid = pgid) := by
  rw [mark, List.mem_map]
  constructor
  · rintro ⟨q,member,rfl⟩
    use q, member
    split_ifs with same <;> simp [same]
  · rintro ⟨q,member,same,place,ended⟩
    use q, member
    split_ifs with group <;> cases r <;> cases q <;> simp_all

theorem marked_mem {r : Registration} (member : r ∈ hosted) :
    ⟨r.pgid,r.window,r.terminated || decide (r.pgid = pgid)⟩ ∈ mark pgid hosted :=
  mem_mark.mpr ⟨r,member,rfl,rfl,rfl⟩

theorem map_mark {β : Type} (f : Registration → β)
    (blind : ∀ r : Registration, f { r with terminated := true } = f r) :
    (mark pgid hosted).map f = hosted.map f := by
  rw [mark, List.map_map]
  apply List.map_congr_left
  intro r _
  rw [Function.comp_apply]
  split_ifs
  · exact blind r
  · rfl

theorem Keeps.mark (keeps : Keeps ledger hosted windows) :
    Keeps ledger (mark pgid hosted) windows where
  owned := by rw [map_mark _ (fun _ => rfl), keeps.owned]
  own := by rw [map_mark _ (fun _ => rfl), keeps.own, ControlPipe.mark, List.length_map]
  closed := by
    intro r member
    have ⟨q,known,same,place,_⟩ := mem_mark.mp member
    rw [← same, ← place]
    exact keeps.closed q known
  ended := by
    intro r member released
    have ⟨q,known,same,_,ended⟩ := mem_mark.mp member
    rw [ended, keeps.ended q known (same ▸ released)]
    rfl
  distinct := keeps.distinct
  known := keeps.known

theorem Keeps.close (keeps : Keeps ledger hosted windows) {r : Registration} (member : r ∈ hosted)
    (ended : r.terminated = true) (fits : windows.length = hosted.length) :
    Keeps { ledger with released := ledger.released ++ [r.pgid] } hosted
      (windows.set r.window .closed) where
  owned := keeps.owned
  own := keeps.own
  closed := by
    intro q known
    rw [List.mem_append, List.mem_singleton]
    by_cases same : q = r
    · subst same
      have := keeps.window_lt known
      simp [fits, this]
    · have apart : r.window ≠ q.window := fun place => same (keeps.same_window known member place.symm)
      rw [List.getElem?_set_ne apart, keeps.closed q known]
      exact ⟨.inl,fun h => h.resolve_right (fun group => same (keeps.same_group known member group))⟩
  ended := by
    intro q known released
    rw [List.mem_append, List.mem_singleton] at released
    cases released with
    | inl before => exact keeps.ended q known before
    | inr now => rwa [keeps.same_group known member now]
  distinct := keeps.distinct
  known := by
    intro p released
    rw [List.mem_append, List.mem_singleton] at released
    cases released with
    | inl before => exact keeps.known p before
    | inr now => exact keeps.pgid_mem.mpr ⟨r,member,now.symm⟩

end Registry

section Invariant

def lines (tasks : List Task) : List (List UInt8) :=
  tasks.filterMap (fun task =>
    match task with
    | .store _ => none
    | .message line => some line)

def unstored (tasks : List Task) : List UInt8 :=
  tasks.flatMap (fun task =>
    match task with
    | .store bytes => bytes
    | .message _ => [])

def Phase.bytes : Phase → List UInt8
  | .storing bytes => bytes
  | _ => []

/-- The message that is being handled and that the ledger does not hold yet. -/
def Phase.message : Phase → Option Message
  | .collecting message => some message
  | .identifying pgid => some ⟨.owned,pgid⟩
  | .opening pgid => some ⟨.owned,pgid⟩
  | .registering pgid _ => some ⟨.owned,pgid⟩
  | .terminating pgid _ => some ⟨.released,pgid⟩
  | .closing pgid _ => some ⟨.released,pgid⟩
  | _ => none

/-- What has been checked before a phase. -/
def Phase.Ready (ledger : Groups) (hosted : List Registration) (windows : List WindowState) :
    Phase → Prop
  | .identifying pgid => windows.length = hosted.length ∧ pgid ∉ ledger.owned
  | .opening pgid => windows.length = hosted.length ∧ pgid ∉ ledger.owned
  | .registering pgid window =>
    windows.length = hosted.length+1 ∧ window = hosted.length ∧ pgid ∉ ledger.owned
  | .terminating pgid window =>
    windows.length = hosted.length ∧ pgid ∉ ledger.released ∧
      ∃ r ∈ hosted, r.pgid = pgid ∧ r.window = window
  | .closing pgid window =>
    windows.length = hosted.length ∧ pgid ∉ ledger.released ∧
      ∃ r ∈ hosted, r.pgid = pgid ∧ r.window = window ∧ r.terminated = true
  | _ => windows.length = hosted.length

/-- What holds of pipes that have received some bytes and have not failed. -/
structure Good (bytes : List UInt8) (s : Pipe) (answered : List (List UInt8))
    (messages : List Message) (ledger : Groups) : Prop where
  stream : scan 10 4096 bytes = ⟨answered ++ lines s.tasks,s.buffer,none⟩
  logged : s.log ++ s.phase.bytes ++ unstored s.tasks = bytes
  valid : s.logValid = true
  read : List.Forall₂ (fun line message => readMessage line = .ok message) answered
    (messages ++ s.phase.message.toList)
  replayed : Groups.empty.replay messages = some ledger
  keeps : Keeps ledger s.hosted s.windows
  ready : s.phase.Ready ledger s.hosted s.windows
  count : s.acknowledged = messages.length
  complete : s.ended = true → s.buffer = []

def Tracks (bytes : List UInt8) (s : Pipe) : Prop :=
  s.failed = false → ∃ answered messages ledger, Good bytes s answered messages ledger

theorem good_fresh : Good [] fresh [] [] .empty where
  stream := by simp [scan, scanFrom, lines, fresh]
  logged := rfl
  valid := rfl
  read := .nil
  replayed := rfl
  keeps := keeps_empty
  ready := rfl
  count := rfl
  complete := fun _ => rfl

end Invariant

section Steps

variable {bytes : List UInt8} {s t : Pipe} {answered : List (List UInt8)} {messages : List Message}
  {ledger ledger' : Groups} {message : Message}

theorem Good.change (good : Good bytes s answered messages ledger) {next : Phase}
    {hosted : List Registration} {windows : List WindowState}
    (quiet : next.bytes = s.phase.bytes) (same : next.message = s.phase.message)
    (keeps : Keeps ledger hosted windows) (ready : next.Ready ledger hosted windows) :
    Good bytes { s with hosted := hosted, windows := windows, phase := next } answered messages
      ledger where
  stream := good.stream
  logged := by rw [quiet]; exact good.logged
  valid := good.valid
  read := by rw [same]; exact good.read
  replayed := good.replayed
  keeps := keeps
  ready := ready
  count := good.count
  complete := good.complete

theorem Good.move (good : Good bytes s answered messages ledger) {next : Phase}
    (quiet : next.bytes = s.phase.bytes) (same : next.message = s.phase.message)
    (ready : next.Ready ledger s.hosted s.windows) :
    Good bytes { s with phase := next } answered messages ledger :=
  good.change quiet same good.keeps ready

/-- The message of a phase enters the ledger with its acknowledgement. -/
theorem Good.answer (good : Good bytes s answered messages ledger)
    (current : s.phase.message = some message) (quiet : s.phase.bytes = [])
    (admitted : ledger.enter message = some ledger') {hosted : List Registration}
    {windows : List WindowState} (keeps : Keeps ledger' hosted windows)
    (fits : windows.length = hosted.length) :
    Good bytes { s with
        hosted := hosted
        windows := windows
        acknowledged := s.acknowledged+1
        phase := .acknowledging }
      answered (messages ++ [message]) ledger' where
  stream := good.stream
  logged := by rw [← good.logged, quiet]; rfl
  valid := good.valid
  read := by
    have read := good.read
    rw [current] at read
    exact (List.append_nil (messages ++ [message])).symm ▸ read
  replayed := Groups.replay_snoc good.replayed admitted
  keeps := keeps
  ready := fits
  count := by rw [List.length_append, ← good.count]; rfl
  complete := good.complete

theorem acknowledge_failed (well : s.acknowledge.failed = false) :
    s.acknowledge = { s with acknowledged := s.acknowledged+1, phase := .acknowledging } := by
  rw [Pipe.acknowledge] at well ⊢
  split_ifs at well ⊢ with lapsed
  · cases well
  · rfl

theorem settle_failed {phase : Phase} {outcome : Outcome} (fails : outcome ≠ .done)
    (moved : s.settle phase outcome = some t) : t.failed = true := by
  cases outcome with
  | done => exact absurd rfl fails
  | failed message | unsaved message =>
    cases phase <;> simp only [Pipe.settle, Option.some.injEq, reduceCtorEq] at moved <;>
      (subst moved; rfl)

theorem good_collected (good : Good bytes s answered messages ledger)
    (phase : s.phase = .collecting message) (well : (s.collected message).failed = false) :
    Good bytes (s.collected message) answered messages ledger := by
  have fits : s.windows.length = s.hosted.length := by
    have ready := good.ready
    rwa [phase] at ready
  rcases message with ⟨event,pgid⟩
  cases event with
  | owned =>
    simp only [Pipe.collected] at well ⊢
    split_ifs at well ⊢ with known
    · cases well
    · have unseen : pgid ∉ ledger.owned := by
        rw [good.keeps.pgid_mem]
        simpa using known
      exact good.move (by rw [phase]; rfl) (by rw [phase]; rfl) ⟨fits,unseen⟩
  | released =>
    simp only [Pipe.collected] at well ⊢
    cases found : s.hosted.find? (fun r => r.pgid = pgid) with
    | none =>
      rw [found] at well
      cases well
    | some r =>
      simp only [found] at well ⊢
      split_ifs at well ⊢ with ended
      · cases well
      · have member := List.mem_of_find?_eq_some found
        have group : r.pgid = pgid := by simpa using List.find?_some found
        have unseen : pgid ∉ ledger.released := fun released =>
          ended (good.keeps.ended r member (group.symm ▸ released))
        exact good.move (by rw [phase]; rfl) (by rw [phase]; rfl) ⟨fits,unseen,r,member,group,rfl⟩

theorem good_settle (good : Good bytes s answered messages ledger)
    (moved : s.settle s.phase .done = some t) (well : t.failed = false) :
    ∃ messages ledger, Good bytes t answered messages ledger := by
  have ready := good.ready
  cases phase : s.phase with
  | idle =>
    rw [phase] at moved
    cases moved
  | storing data =>
    rw [phase] at moved ready
    cases moved
    use messages, ledger
    constructor
    · exact good.stream
    · show s.log ++ data ++ [] ++ unstored s.tasks = bytes
      have logged := good.logged
      rw [phase] at logged
      rw [List.append_nil]
      exact logged
    · exact good.valid
    · have read := good.read
      rwa [phase] at read
    · exact good.replayed
    · exact good.keeps
    · exact ready
    · exact good.count
    · exact good.complete
  | collecting message =>
    rw [phase] at moved
    cases moved
    exact ⟨messages,ledger,good_collected good phase well⟩
  | identifying pgid =>
    rw [phase] at moved ready
    cases moved
    exact ⟨messages,ledger,good.move (by rw [phase]; rfl) (by rw [phase]; rfl) ready⟩
  | opening pgid =>
    rw [phase] at moved ready
    cases moved
    have ⟨fits,unseen⟩ := ready
    have ready : (Phase.registering pgid s.windows.length).Ready ledger s.hosted
        (s.windows ++ [.pending]) := ⟨by rw [List.length_append, fits]; rfl,fits,unseen⟩
    exact ⟨messages,ledger,good.change (by rw [phase]; rfl) (by rw [phase]; rfl)
      (good.keeps.opened fits) ready⟩
  | registering pgid window =>
    rw [phase] at moved ready
    cases moved
    have ⟨fits,place,unseen⟩ := ready
    subst place
    rw [acknowledge_failed well]
    have fits' : (s.windows.set s.hosted.length .active).length =
        (s.hosted ++ [Registration.mk pgid s.hosted.length false]).length := by
      rw [List.length_set, List.length_append, fits]
      rfl
    exact ⟨_,_,good.answer (by rw [phase]; rfl) (by rw [phase]; rfl) (Groups.enter_owned unseen)
      (good.keeps.host unseen fits) fits'⟩
  | terminating pgid window =>
    rw [phase] at moved ready
    cases moved
    have ⟨fits,unseen,r,member,group,place⟩ := ready
    have ready : (Phase.closing pgid window).Ready ledger (mark pgid s.hosted) s.windows := by
      have length : (mark pgid s.hosted).length = s.hosted.length := List.length_map _
      exact ⟨by rw [fits, length],unseen,_,marked_mem member,group,place,by simp [group]⟩
    exact ⟨messages,ledger,good.change (by rw [phase]; rfl) (by rw [phase]; rfl)
      good.keeps.mark ready⟩
  | closing pgid window =>
    rw [phase] at moved ready
    cases moved
    have ⟨fits,unseen,r,member,group,place,ended⟩ := ready
    subst group place
    rw [acknowledge_failed well]
    exact ⟨_,_,good.answer (by rw [phase]; rfl) (by rw [phase]; rfl)
      (Groups.enter_released (good.keeps.pgid_mem.mpr ⟨r,member,rfl⟩) unseen)
      (good.keeps.close member ended fits) (List.length_set.trans fits)⟩
  | acknowledging =>
    rw [phase] at moved ready
    cases moved
    exact ⟨messages,ledger,good.move (by rw [phase]; rfl) (by rw [phase]; rfl) ready⟩

theorem begin_ok {line : List UInt8} (well : (s.begin line).failed = false) :
    ∃ message, readMessage line = .ok message ∧ s.registered = true ∧
      s.begin line = { s with phase := .collecting message } := by
  rw [Pipe.begin] at well ⊢
  by_cases lapsed : s.failed = true
  · rw [if_pos lapsed] at well
    cases well
  · rw [if_neg lapsed] at well ⊢
    cases read : readMessage line with
    | error text =>
      rw [read] at well
      cases well
    | ok message =>
      simp only [read] at well ⊢
      split_ifs at well ⊢ with known
      · exact ⟨message,rfl,known,rfl⟩
      · cases well

theorem good_begin {line : List UInt8} {tasks : List Task}
    (good : Good bytes s answered messages ledger) (idle : s.phase = .idle)
    (next : s.tasks = .message line :: tasks) (read : readMessage line = .ok message) :
    Good bytes { s with tasks := tasks, phase := .collecting message } (answered ++ [line])
      messages ledger where
  stream := by
    have stream := good.stream
    rw [next] at stream
    rw [stream, List.append_assoc]
    rfl
  logged := by
    have logged := good.logged
    rwa [next, idle] at logged
  valid := good.valid
  read := by
    have done := good.read
    rw [idle] at done
    have done : List.Forall₂ (fun line message => readMessage line = .ok message) answered
      messages := (List.append_nil messages) ▸ done
    exact List.rel_append done (.cons read .nil)
  replayed := good.replayed
  keeps := good.keeps
  ready := by
    have ready := good.ready
    rwa [idle] at ready
  count := good.count
  complete := good.complete

theorem good_store {data : List UInt8} {tasks : List Task}
    (good : Good bytes s answered messages ledger) (idle : s.phase = .idle)
    (next : s.tasks = .store data :: tasks) :
    Good bytes { s with tasks := tasks, phase := .storing data } answered messages ledger where
  stream := by
    have stream := good.stream
    rwa [next] at stream
  logged := by
    have logged := good.logged
    rw [next, idle] at logged
    rw [← logged]
    simp [Phase.bytes, unstored]
  valid := good.valid
  read := by
    have read := good.read
    rwa [idle] at read
  replayed := good.replayed
  keeps := good.keeps
  ready := by
    have ready := good.ready
    rwa [idle] at ready
  count := good.count
  complete := good.complete

theorem lines_append (first second : List Task) : lines (first ++ second) = lines first ++ lines second :=
  List.filterMap_append ..

theorem lines_messages (frames : List (List UInt8)) : lines (frames.map Task.message) = frames := by
  induction frames with
  | nil => rfl
  | cons frame frames ih => exact congrArg (frame :: ·) ih

theorem unstored_append (first second : List Task) :
    unstored (first ++ second) = unstored first ++ unstored second :=
  List.flatMap_append ..

theorem unstored_messages (frames : List (List UInt8)) :
    unstored (frames.map Task.message) = [] := by
  induction frames with
  | nil => rfl
  | cons frame frames ih => exact ih

theorem good_data {data : List UInt8} (good : Good bytes s answered messages ledger)
    (running : s.failed = false) (more : s.ended = false) (well : (s.data data).failed = false) :
    Good (bytes ++ data) (s.data data) answered messages ledger := by
  rw [Pipe.data, if_neg (by simp [running])] at well ⊢
  simp only [readFrames_eq] at well ⊢
  have whole : scan 10 4096 (bytes ++ data) =
      ⟨(scan 10 4096 bytes).frames ++ (scan 10 4096 ((scan 10 4096 bytes).rest ++ data)).frames,
        (scan 10 4096 ((scan 10 4096 bytes).rest ++ data)).rest,
        (scan 10 4096 ((scan 10 4096 bytes).rest ++ data)).fault⟩ :=
    scanFrom_append List.not_mem_nil (congrArg Scan.fault good.stream)
  rw [good.stream] at whole
  dsimp only at whole
  cases fault : (scan 10 4096 (s.buffer ++ data)).fault with
  | some reason =>
    rw [fault] at well
    cases well
  | none =>
    constructor
    · rw [whole, fault]
      show _ = Scan.mk (answered ++ lines (s.tasks ++ _)) _ none
      rw [lines_append, List.append_assoc]
      exact congrArg (fun frames => Scan.mk (answered ++ (lines s.tasks ++ frames)) _ none)
        (lines_messages _).symm
    · show s.log ++ s.phase.bytes ++ unstored (s.tasks ++ _) = bytes ++ data
      rw [unstored_append, ← List.append_assoc, good.logged]
      show bytes ++ (data ++ unstored _) = bytes ++ data
      rw [unstored_messages, List.append_nil]
    · exact good.valid
    · exact good.read
    · exact good.replayed
    · exact good.keeps
    · exact good.ready
    · exact good.count
    · intro ended
      rw [more] at ended
      cases ended

theorem Phase.Ready.mark {phase : Phase} {hosted : List Registration} {windows : List WindowState}
    {pgid : ℤ} (ready : phase.Ready ledger hosted windows) :
    phase.Ready ledger (mark pgid hosted) windows := by
  have length : (ControlPipe.mark pgid hosted).length = hosted.length := List.length_map _
  cases phase with
  | terminating group window =>
    have ⟨fits,unseen,r,member,same,place⟩ := ready
    exact ⟨by rw [fits, length],unseen,_,marked_mem member,same,place⟩
  | closing group window =>
    have ⟨fits,unseen,r,member,same,place,ended⟩ := ready
    exact ⟨by rw [fits, length],unseen,_,marked_mem member,same,place,by simp [ended]⟩
  | _ => simpa only [Ready, length] using ready

theorem good_start (good : Good bytes s answered messages ledger) (moved : s.start = some t)
    (well : t.failed = false) : ∃ answered, Good bytes t answered messages ledger := by
  rw [Pipe.start] at moved
  split_ifs at moved with idle
  cases next : s.tasks with
  | nil =>
    rw [next] at moved
    cases moved
  | cons task tasks =>
    rw [next] at moved
    cases task with
    | store data =>
      cases moved
      exact ⟨answered,good_store good idle next⟩
    | message line =>
      cases moved
      have ⟨message,read,_,same⟩ := begin_ok well
      have begun : Good bytes { s with tasks := tasks, phase := .collecting message }
        (answered ++ [line]) messages ledger := good_begin good idle next read
      rw [same]
      exact ⟨_,begun⟩

theorem good_eof (good : Good bytes s answered messages ledger) (well : s.eof.failed = false) :
    Good bytes s.eof answered messages ledger := by
  rw [Pipe.eof] at well ⊢
  split_ifs at well ⊢ with clear
  · exact { good with complete := fun _ => clear }
  · cases well

theorem good_interrupt (good : Good bytes s answered messages ledger) (cause : Interrupt) :
    Good bytes (s.interrupt cause) answered messages ledger := by
  cases cause <;> exact { good with }

/-- What one event keeps. -/
theorem good_event {event : Event} (good : Good bytes s answered messages ledger)
    (running : s.failed = false) (moved : step s event = some t) (well : t.failed = false) :
    ∃ answered messages ledger, Good (bytes ++ event.bytes) t answered messages ledger := by
  cases event with
  | data data =>
    simp only [step] at moved
    split_ifs at moved with ended
    cases moved
    exact ⟨answered,messages,ledger,good_data good running (by simpa using ended) well⟩
  | eof =>
    simp only [step] at moved
    split_ifs at moved with ended
    cases moved
    simp only [Event.bytes, List.append_nil]
    exact ⟨answered,messages,ledger,good_eof good well⟩
  | broken text =>
    cases moved
    cases well
  | start =>
    simp only [Event.bytes, List.append_nil]
    have ⟨answered,good⟩ := good_start good moved well
    exact ⟨answered,messages,ledger,good⟩
  | settle outcome =>
    simp only [Event.bytes, List.append_nil]
    by_cases fine : outcome = .done
    · subst fine
      exact ⟨answered,good_settle good moved well⟩
    · have := settle_failed fine moved
      rw [well] at this
      cases this
  | sweep pgid =>
    cases moved
    simp only [Event.bytes, List.append_nil]
    exact ⟨answered,messages,ledger,good.change rfl rfl good.keeps.mark good.ready.mark⟩
  | register | observe pid =>
    cases moved
    simp only [Event.bytes, List.append_nil]
    exact ⟨answered,messages,ledger,{ good with }⟩
  | interrupt cause =>
    cases moved
    simp only [Event.bytes, List.append_nil]
    exact ⟨answered,messages,ledger,good_interrupt good cause⟩

theorem acknowledge_over (lapsed : s.failed = true) : s.acknowledge.failed = true := by
  rw [Pipe.acknowledge, lapsed]
  rfl

theorem collected_over (lapsed : s.failed = true) : (s.collected message).failed = true := by
  rw [Pipe.collected]
  cases message.event with
  | owned =>
    dsimp only
    split_ifs
    · rfl
    · exact lapsed
  | released =>
    cases s.hosted.find? (fun r => r.pgid = message.pgid) with
    | none => rfl
    | some r =>
      dsimp only
      split_ifs
      · rfl
      · exact lapsed

theorem settle_over {phase : Phase} (lapsed : s.failed = true)
    (moved : s.settle phase .done = some t) : t.failed = true := by
  cases phase with
  | idle => cases moved
  | collecting message =>
    cases moved
    exact collected_over lapsed
  | registering pgid window =>
    cases moved
    exact acknowledge_over lapsed
  | closing pgid window =>
    cases moved
    exact acknowledge_over lapsed
  | storing data | identifying pgid | opening pgid | terminating pgid window | acknowledging =>
    cases moved
    exact lapsed

theorem start_over (lapsed : s.failed = true) (moved : s.start = some t) : t.failed = true := by
  rw [Pipe.start] at moved
  split_ifs at moved with idle
  cases next : s.tasks with
  | nil =>
    rw [next] at moved
    cases moved
  | cons task tasks =>
    rw [next] at moved
    cases task with
    | store data =>
      cases moved
      exact lapsed
    | message line =>
      cases moved
      rw [Pipe.begin, if_pos lapsed]
      rfl

/-- A protocol that has failed stays failed. -/
theorem failed_step {event : Event} (lapsed : s.failed = true) (moved : step s event = some t) :
    t.failed = true := by
  cases event with
  | data data =>
    simp only [step] at moved
    split_ifs at moved
    cases moved
    rw [Pipe.data, if_pos lapsed]
    exact lapsed
  | eof =>
    simp only [step] at moved
    split_ifs at moved
    cases moved
    rw [Pipe.eof]
    split_ifs
    · exact lapsed
    · rfl
  | start => exact start_over lapsed moved
  | settle outcome =>
    by_cases fine : outcome = .done
    · subst fine
      exact settle_over lapsed moved
    · exact settle_failed fine moved
  | broken text =>
    cases moved
    rfl
  | interrupt cause =>
    cases moved
    cases cause <;> exact lapsed
  | register | sweep pgid | observe pid =>
    cases moved
    exact lapsed

end Steps

section Runs

variable {bytes : List UInt8} {s t : Pipe}

theorem tracks_step {event : Event} (tracks : Tracks bytes s) (moved : step s event = some t) :
    Tracks (bytes ++ event.bytes) t := by
  intro well
  have running : s.failed = false := by
    rw [← Bool.not_eq_true]
    intro lapsed
    rw [failed_step lapsed moved] at well
    cases well
  have ⟨_,_,_,good⟩ := tracks running
  exact good_event good running moved well

theorem tracks_run {events : List Event} (tracks : Tracks bytes s) (ran : run s events = some t) :
    Tracks (bytes ++ received events) t := by
  induction events generalizing bytes s with
  | nil =>
    cases ran
    rw [received, List.flatMap_nil, List.append_nil]
    exact tracks
  | cons event events ih =>
    rw [run, Option.bind_eq_some_iff] at ran
    have ⟨middle,moved,ran⟩ := ran
    rw [received, List.flatMap_cons, ← List.append_assoc]
    exact ih (tracks_step tracks moved) ran

/-- What a stream must be for the protocol to accept it: lines of limited length with a line feed
behind each, each a message that the ledger of those before it admits. -/
def Orderly (bytes : List UInt8) (lines : List (List UInt8)) (messages : List Message)
    (ledger : Groups) : Prop :=
  bytes = framed 10 lines ∧ (∀ line ∈ lines, Frame 10 4096 line) ∧
    List.Forall₂ (fun line message => readMessage line = .ok message) lines messages ∧
    Groups.empty.replay messages = some ledger

/-- When a run has come to its end without a failure of the protocol, whatever the chunks, the
order of the events and the interrupts, the log holds what has arrived, every line is an admitted
message with one acknowledgement, and a window is closed just for the released groups. -/
theorem protocol_kept {events : List Event} (ran : run fresh events = some s) (drained : s.Drained)
    (well : s.failed = false) : ∃ lines messages ledger,
      Orderly (received events) lines messages ledger ∧ s.protocolLog = some (received events) ∧
        s.acknowledged = lines.length ∧ Keeps ledger s.hosted s.windows ∧
        s.windows.length = s.hosted.length := by
  have tracks : Tracks (received events) s :=
    tracks_run (fun _ => ⟨_,_,_,good_fresh⟩) ran
  have ⟨answered,messages,ledger,good⟩ := tracks well
  have ⟨ended,tasks,phase⟩ := drained
  have stream := good.stream
  rw [tasks, good.complete ended] at stream
  have read := good.read
  have logged := good.logged
  have ready := good.ready
  rw [phase] at read logged ready
  have log : s.log = received events := by simpa [tasks, Phase.bytes, unstored] using logged
  have read : List.Forall₂ (fun line message => readMessage line = .ok message) answered
    messages := (List.append_nil messages) ▸ read
  have orderly : Orderly (received events) answered messages ledger :=
    ⟨by simpa [lines] using (scan_iff _ _).mp stream |>.1,
      by simpa [lines] using (scan_iff _ _).mp stream |>.2,read,good.replayed⟩
  have kept : s.protocolLog = some (received events) := by
    rw [Pipe.protocolLog, if_pos good.valid, log]
  exact ⟨answered,messages,ledger,orderly,kept,good.count.trans read.length_eq.symm,good.keeps,ready⟩

end Runs

section Verdict

variable {bytes more : List UInt8} {s t : Pipe} {answered lines' : List (List UInt8)}
  {messages messages' : List Message} {ledger ledger' : Groups}

/-- An event of a run in which nothing outside the protocol goes wrong. -/
def Event.Clean : Event → Prop
  | .broken _ => False
  | .settle outcome => outcome = .done
  | .sweep _ => False
  | .interrupt _ => False
  | _ => True

theorem orderly_lines (good : Good bytes s answered messages ledger)
    (orderly : Orderly (bytes ++ more) lines' messages' ledger') :
    ∃ later, lines' = answered ++ (lines s.tasks ++ later) := by
  have ⟨whole,each,_,_⟩ := orderly
  have read := (scan_iff _ _).mpr ⟨whole,each⟩
  have first : scan 10 4096 (bytes ++ more) = _ :=
    scanFrom_append List.not_mem_nil (congrArg Scan.fault good.stream)
  rw [read, show scanFrom 10 4096 [] bytes = _ from good.stream] at first
  use (scan 10 4096 (s.buffer ++ more)).frames
  have frames := congrArg Scan.frames first
  rwa [List.append_assoc] at frames

theorem forall₂_split {α β : Type} {R : α → β → Prop} {first second : List α} {whole : List β}
    (each : List.Forall₂ R (first ++ second) whole) :
    ∃ front back, whole = front ++ back ∧ List.Forall₂ R first front ∧ List.Forall₂ R second back := by
  use whole.take first.length, whole.drop first.length, (List.take_append_drop _ _).symm
  constructor
  · have := List.forall₂_take first.length each
    rwa [List.take_left] at this
  · have := List.forall₂_drop first.length each
    rwa [List.drop_left] at this

/-- A line that waits to be answered is a message where the whole stream is accepted. -/
theorem orderly_read {line : List UInt8} (good : Good bytes s answered messages ledger)
    (orderly : Orderly (bytes ++ more) lines' messages' ledger') (member : line ∈ lines s.tasks) :
    ∃ message, readMessage line = .ok message := by
  have ⟨later,split⟩ := orderly_lines good orderly
  have ⟨_,_,read,_⟩ := orderly
  have member : line ∈ lines' := by
    rw [split]
    exact List.mem_append_right _ (List.mem_append_left _ member)
  have ⟨i,place,same⟩ := List.mem_iff_getElem.mp member
  have ⟨length,each⟩ := List.forall₂_iff_get.mp read
  have := each i place (length ▸ place)
  rw [List.get_eq_getElem, same] at this
  exact ⟨_,this⟩

/-- The message that is being handled is admitted where the whole stream is accepted. -/
theorem orderly_enters {message : Message} (good : Good bytes s answered messages ledger)
    (orderly : Orderly (bytes ++ more) lines' messages' ledger')
    (current : s.phase.message = some message) : (ledger.enter message).isSome = true := by
  have ⟨later,split⟩ := orderly_lines good orderly
  have ⟨_,_,read,replayed⟩ := orderly
  rw [split] at read
  have ⟨front,back,whole,here,_⟩ := forall₂_split read
  have unique : Relator.RightUnique (fun line message => readMessage line = .ok message) := by
    intro line first second one two
    exact Except.ok.inj (one.symm.trans two)
  have same : front = messages ++ s.phase.message.toList :=
    List.right_unique_forall₂' unique here good.read
  rw [whole, same, current, Groups.replay_append, Groups.replay_append, good.replayed,
    Option.bind_some] at replayed
  cases admitted : ledger.enter message with
  | some next => rfl
  | none => simp [Groups.replay, admitted] at replayed

/-- No way to go on makes the stream one that is accepted. -/
def Lost (bytes : List UInt8) (s : Pipe) : Prop :=
  (∀ more lines messages ledger, ¬ Orderly (bytes ++ more) lines messages ledger) ∨
    s.ended = true ∧ ∀ lines messages ledger, ¬ Orderly bytes lines messages ledger

/-- The groups that are known to have ended were released, or are being released. -/
def Settled (s : Pipe) : Prop := ∀ r ∈ s.hosted, r.terminated = true →
  s.windows[r.window]? = some .closed ∨ s.phase = .closing r.pgid r.window

/-- What holds of pipes outside which nothing goes wrong. -/
structure Calm (bytes : List UInt8) (s : Pipe) : Prop where
  registered : s.registered = true
  timedOut : s.timedOut = false
  cancelled : s.cancelled = false
  verdict : s.failed = false ∧ Settled s ∨ s.failed = true ∧ Lost bytes s

theorem lost_frames {data : List UInt8} (good : Good bytes s answered messages ledger)
    (fault : (readFrames (s.buffer ++ data)).fault ≠ none) : Lost (bytes ++ data) t := by
  rw [readFrames_eq] at fault
  apply Or.inl
  intro more lines messages ledger orderly
  have ⟨whole,each,_,_⟩ := orderly
  have read := congrArg Scan.fault ((scan_iff _ _).mpr ⟨whole,each⟩)
  have first : scan 10 4096 (bytes ++ data) = _ :=
    scanFrom_append List.not_mem_nil (congrArg Scan.fault good.stream)
  rw [show scanFrom 10 4096 [] bytes = _ from good.stream] at first
  have fails : (scanFrom 10 4096 [] (bytes ++ data)).fault ≠ none := by
    rw [show scanFrom 10 4096 [] (bytes ++ data) = _ from first]
    exact fault
  exact (@scanFrom_fault UInt8 _ 10 4096 [] (bytes ++ data) more List.not_mem_nil fails).1 read

theorem lost_remainder (good : Good bytes s answered messages ledger) (left : s.buffer ≠ [])
    (ended : t.ended = true) : Lost bytes t := by
  apply Or.inr
  use ended
  intro lines messages ledger orderly
  have ⟨whole,each,_,_⟩ := orderly
  have read := congrArg Scan.rest ((scan_iff _ _).mpr ⟨whole,each⟩)
  rw [good.stream] at read
  exact left read

/-- What no event takes back. -/
structure Flags (s t : Pipe) : Prop where
  registered : s.registered = true → t.registered = true
  timedOut : t.timedOut = s.timedOut
  cancelled : t.cancelled = s.cancelled
  ended : s.ended = true → t.ended = true

theorem refuse_flags (message : String) : Flags s (s.refuse message) := ⟨id,rfl,rfl,id⟩

theorem raise_flags (fault : Option Fault) : Flags s (s.raise fault) := by
  cases fault <;> exact ⟨id,rfl,rfl,id⟩

theorem acknowledge_flags : Flags s s.acknowledge := by
  rw [Pipe.acknowledge]
  split_ifs
  · exact refuse_flags _
  · exact ⟨id,rfl,rfl,id⟩

theorem begin_flags (line : List UInt8) : Flags s (s.begin line) := by
  rw [Pipe.begin]
  split
  · exact refuse_flags _
  · split
    · exact refuse_flags _
    · split
      · exact ⟨id,rfl,rfl,id⟩
      · exact refuse_flags _

theorem collected_flags (message : Message) : Flags s (s.collected message) := by
  rw [Pipe.collected]
  split
  · split
    · exact refuse_flags _
    · exact ⟨id,rfl,rfl,id⟩
  · split
    · exact refuse_flags _
    · split
      · exact refuse_flags _
      · exact ⟨id,rfl,rfl,id⟩

theorem flags_step {event : Event} (clean : event.Clean) (moved : step s event = some t) :
    Flags s t := by
  cases event with
  | data data =>
    simp only [step] at moved
    split_ifs at moved
    cases moved
    rw [Pipe.data]
    split_ifs
    · exact ⟨id,rfl,rfl,id⟩
    · have ⟨registered,timedOut,cancelled,ended⟩ := @raise_flags { s with
        tasks := s.tasks ++ .store data :: (readFrames (s.buffer ++ data)).frames.map Task.message
        buffer := (readFrames (s.buffer ++ data)).rest } (readFrames (s.buffer ++ data)).fault
      exact ⟨registered,timedOut,cancelled,ended⟩
  | eof =>
    simp only [step] at moved
    split_ifs at moved
    cases moved
    rw [Pipe.eof]
    split_ifs <;> exact ⟨id,rfl,rfl,fun _ => rfl⟩
  | broken text | sweep pgid | interrupt cause => exact clean.elim
  | register =>
    cases moved
    exact ⟨fun _ => rfl,rfl,rfl,id⟩
  | observe pid =>
    cases moved
    exact ⟨id,rfl,rfl,id⟩
  | start =>
    simp only [step, Pipe.start] at moved
    split_ifs at moved
    cases next : s.tasks with
    | nil =>
      rw [next] at moved
      cases moved
    | cons task tasks =>
      rw [next] at moved
      cases task with
      | store data =>
        cases moved
        exact ⟨id,rfl,rfl,id⟩
      | message line =>
        cases moved
        have ⟨registered,timedOut,cancelled,ended⟩ := @begin_flags { s with tasks := tasks } line
        exact ⟨registered,timedOut,cancelled,ended⟩
  | settle outcome =>
    cases clean
    simp only [step] at moved
    cases phase : s.phase with
    | idle =>
      rw [phase] at moved
      cases moved
    | collecting message =>
      rw [phase] at moved
      cases moved
      exact collected_flags message
    | registering pgid window =>
      rw [phase] at moved
      cases moved
      have ⟨registered,timedOut,cancelled,ended⟩ :=
        @acknowledge_flags ((s.setWindow window .active).host pgid window)
      exact ⟨registered,timedOut,cancelled,ended⟩
    | closing pgid window =>
      rw [phase] at moved
      cases moved
      have ⟨registered,timedOut,cancelled,ended⟩ := @acknowledge_flags (s.setWindow window .closed)
      exact ⟨registered,timedOut,cancelled,ended⟩
    | storing data | identifying pgid | opening pgid | terminating pgid window | acknowledging =>
      rw [phase] at moved
      cases moved
      exact ⟨id,rfl,rfl,id⟩

theorem Settled.quiet (settled : Settled s) (other : ∀ pgid window, s.phase ≠ .closing pgid window)
    {r : Registration} (member : r ∈ s.hosted) (ended : r.terminated = true) :
    s.windows[r.window]? = some .closed :=
  (settled r member ended).resolve_right (other _ _)

theorem lost_refused {message : Message} (good : Good bytes s answered messages ledger)
    (current : s.phase.message = some message) (refused : ledger.enter message = none) :
    Lost bytes t := by
  apply Or.inl
  intro more lines messages ledger orderly
  have := orderly_enters good orderly current
  rw [refused] at this
  cases this

theorem settled_collected {message : Message} (good : Good bytes s answered messages ledger)
    (settled : Settled s) (running : s.failed = false) (phase : s.phase = .collecting message) :
    (s.collected message).failed = false ∧ Settled (s.collected message) ∨
      (s.collected message).failed = true ∧ Lost bytes (s.collected message) := by
  have quiet : ∀ next : Phase, Settled { s with phase := next } := fun next r member ended =>
    .inl (settled.quiet (by simp [phase]) member ended)
  have current : s.phase.message = some message := by
    rw [phase]
    rfl
  rcases message with ⟨event,pgid⟩
  cases event with
  | owned =>
    simp only [Pipe.collected]
    split_ifs with known
    · have seen : pgid ∈ ledger.owned := by
        rw [good.keeps.pgid_mem]
        simpa using known
      exact .inr ⟨rfl,lost_refused good current (if_pos seen)⟩
    · exact .inl ⟨running,quiet _⟩
  | released =>
    simp only [Pipe.collected]
    cases found : s.hosted.find? (fun r => r.pgid = pgid) with
    | none =>
      have unseen : pgid ∉ ledger.owned := by
        rw [good.keeps.pgid_mem]
        simpa using found
      exact .inr ⟨rfl,lost_refused good current (if_neg (fun h => unseen h.1))⟩
    | some r =>
      dsimp only
      have member := List.mem_of_find?_eq_some found
      have group : r.pgid = pgid := by simpa using List.find?_some found
      split_ifs with ended
      · have closed := settled.quiet (by simp [phase]) member ended
        have released := (good.keeps.closed r member).mp closed
        exact .inr ⟨rfl,lost_refused good current (if_neg (fun h => h.2 (group ▸ released)))⟩
      · exact .inl ⟨running,quiet _⟩

theorem acknowledge_calm (running : s.failed = false) (timely : s.timedOut = false)
    (wanted : s.cancelled = false) :
    s.acknowledge = { s with acknowledged := s.acknowledged+1, phase := .acknowledging } := by
  rw [Pipe.acknowledge, running, timely, wanted]
  rfl

theorem settled_settle (good : Good bytes s answered messages ledger) (settled : Settled s)
    (running : s.failed = false) (timely : s.timedOut = false) (wanted : s.cancelled = false)
    (moved : s.settle s.phase .done = some t) :
    t.failed = false ∧ Settled t ∨ t.failed = true ∧ Lost bytes t := by
  have ready := good.ready
  cases phase : s.phase with
  | idle =>
    rw [phase] at moved
    cases moved
  | collecting message =>
    rw [phase] at moved
    cases moved
    exact settled_collected good settled running phase
  | storing data | identifying pgid | acknowledging =>
    rw [phase] at moved
    cases moved
    exact .inl ⟨running,fun r member ended => .inl (settled.quiet (by simp [phase]) member ended)⟩
  | opening pgid =>
    rw [phase] at moved
    cases moved
    apply Or.inl
    use running
    intro r member ended
    have closed := settled.quiet (by simp [phase]) member ended
    exact .inl (List.getElem?_append_left (List.getElem?_eq_some_iff.mp closed).1 ▸ closed)
  | registering pgid window =>
    rw [phase] at moved ready
    cases moved
    rw [@acknowledge_calm ((s.setWindow window .active).host pgid window) running timely wanted]
    apply Or.inl
    use running
    intro r member ended
    have ⟨fits,place,_⟩ := ready
    cases List.mem_append.mp member with
    | inl old =>
      have closed := settled.quiet (by simp [phase]) old ended
      have apart : window ≠ r.window := by
        have := good.keeps.window_lt old
        omega
      exact .inl ((List.getElem?_set_ne apart).trans closed)
    | inr new =>
      rw [List.mem_singleton.mp new] at ended
      cases ended
  | terminating pgid window =>
    rw [phase] at moved ready
    cases moved
    apply Or.inl
    use running
    intro r member ended
    have ⟨_,_,first,known,group,place⟩ := ready
    have ⟨q,old,same,here,when_⟩ := mem_mark.mp member
    rw [ended] at when_
    by_cases before : q.terminated = true
    · have closed := settled.quiet (by simp [phase]) old before
      rw [here] at closed
      exact .inl closed
    · have now : q.pgid = pgid := by simpa [before] using when_.symm
      have := good.keeps.same_group known old (group.trans now.symm)
      subst this
      rw [← same, ← here, group, place]
      exact .inr rfl
  | closing pgid window =>
    rw [phase] at moved ready
    cases moved
    rw [@acknowledge_calm (s.setWindow window .closed) running timely wanted]
    apply Or.inl
    use running
    intro r member ended
    have ⟨fits,_⟩ := ready
    have inside := good.keeps.window_lt member
    apply Or.inl
    show (s.windows.set window .closed)[r.window]? = some .closed
    by_cases same : window = r.window
    · rw [same, List.getElem?_set_self (by omega)]
    · rw [List.getElem?_set_ne same]
      apply (settled r member ended).resolve_right
      intro current
      rw [phase] at current
      cases current
      exact same rfl

theorem settled_start (good : Good bytes s answered messages ledger) (settled : Settled s)
    (running : s.failed = false) (known : s.registered = true) (moved : s.start = some t) :
    t.failed = false ∧ Settled t ∨ t.failed = true ∧ Lost bytes t := by
  rw [Pipe.start] at moved
  split_ifs at moved with idle
  have quiet : ∀ tasks next, Settled { s with tasks := tasks, phase := next } :=
    fun tasks next r member ended => .inl (settled.quiet (by simp [idle]) member ended)
  cases next : s.tasks with
  | nil =>
    rw [next] at moved
    cases moved
  | cons task tasks =>
    rw [next] at moved
    cases task with
    | store data =>
      cases moved
      exact .inl ⟨running,quiet _ _⟩
    | message line =>
      cases moved
      rw [Pipe.begin, if_neg (by simp [running])]
      cases read : readMessage line with
      | error text =>
        apply Or.inr
        use rfl
        apply Or.inl
        intro more lines' messages ledger orderly
        have member : line ∈ lines s.tasks := by
          rw [next]
          exact List.mem_cons_self
        have ⟨message,fine⟩ := orderly_read good orderly member
        rw [read] at fine
        cases fine
      | ok message =>
        dsimp only
        rw [if_pos known]
        exact .inl ⟨running,quiet _ _⟩

theorem calm_event {event : Event} (good : Good bytes s answered messages ledger)
    (calm : Calm bytes s) (settled : Settled s) (running : s.failed = false) (clean : event.Clean)
    (moved : step s event = some t) :
    t.failed = false ∧ Settled t ∨ t.failed = true ∧ Lost (bytes ++ event.bytes) t := by
  cases event with
  | data data =>
    simp only [step] at moved
    split_ifs at moved with ended
    cases moved
    rw [Pipe.data, if_neg (by simp [running])]
    cases fault : (readFrames (s.buffer ++ data)).fault with
    | none =>
      dsimp only
      rw [fault]
      exact .inl ⟨running,settled⟩
    | some reason =>
      dsimp only
      rw [fault]
      have fails : (readFrames (s.buffer ++ data)).fault ≠ none := by
        rw [fault]
        exact nofun
      exact .inr ⟨rfl,lost_frames good fails⟩
  | eof =>
    simp only [step] at moved
    split_ifs at moved with ended
    cases moved
    simp only [Event.bytes, List.append_nil]
    rw [Pipe.eof]
    split_ifs with clear
    · exact .inl ⟨running,settled⟩
    · exact .inr ⟨rfl,lost_remainder good clear rfl⟩
  | broken text | sweep pgid | interrupt cause => exact clean.elim
  | register | observe pid =>
    cases moved
    exact .inl ⟨running,settled⟩
  | start =>
    simp only [Event.bytes, List.append_nil]
    exact settled_start good settled running calm.registered moved
  | settle outcome =>
    cases clean
    simp only [Event.bytes, List.append_nil]
    exact settled_settle good settled running calm.timedOut calm.cancelled moved

theorem lost_step {event : Event} (lost : Lost bytes s) (flags : Flags s t)
    (moved : step s event = some t) : Lost (bytes ++ event.bytes) t := by
  cases lost with
  | inl lost =>
    apply Or.inl
    intro more
    rw [List.append_assoc]
    exact lost _
  | inr lapsed =>
    have ⟨ended,lost⟩ := lapsed
    apply Or.inr
    use flags.ended ended
    cases event with
    | data data =>
      rw [step, if_pos ended] at moved
      cases moved
    | _ => simpa only [Event.bytes, List.append_nil] using lost

theorem calm_step {event : Event} (tracks : Tracks bytes s) (calm : Calm bytes s)
    (clean : event.Clean) (moved : step s event = some t) : Calm (bytes ++ event.bytes) t := by
  have flags := flags_step clean moved
  constructor
  · exact flags.registered calm.registered
  · rw [flags.timedOut, calm.timedOut]
  · rw [flags.cancelled, calm.cancelled]
  · cases calm.verdict with
    | inl fine =>
      have ⟨running,settled⟩ := fine
      have ⟨_,_,_,good⟩ := tracks running
      exact calm_event good calm settled running clean moved
    | inr lapsed =>
      have ⟨failed,lost⟩ := lapsed
      exact .inr ⟨failed_step failed moved,lost_step lost flags moved⟩

theorem calm_run {events : List Event} (tracks : Tracks bytes s) (calm : Calm bytes s)
    (clean : ∀ event ∈ events, event.Clean) (ran : run s events = some t) :
    Calm (bytes ++ received events) t := by
  induction events generalizing bytes s with
  | nil =>
    cases ran
    rw [received, List.flatMap_nil, List.append_nil]
    exact calm
  | cons event events ih =>
    have ⟨here,later⟩ := List.forall_mem_cons.mp clean
    rw [run, Option.bind_eq_some_iff] at ran
    have ⟨middle,moved,ran⟩ := ran
    rw [received, List.flatMap_cons, ← List.append_assoc]
    exact ih (tracks_step tracks moved) (calm_step tracks calm here moved) later ran

/-- Where nothing outside the protocol goes wrong, the chunks and the order of the events do not
matter: the protocol holds to its end just for the streams that are accepted. -/
theorem protocol_exact {events : List Event} (clean : ∀ event ∈ events, event.Clean)
    (ran : run fresh (.register :: events) = some s) (drained : s.Drained) :
    s.failed = false ↔ ∃ lines messages ledger, Orderly (received events) lines messages ledger := by
  constructor
  · intro well
    have ⟨lines,messages,ledger,orderly,_⟩ := protocol_kept ran drained well
    exact ⟨lines,messages,ledger,orderly⟩
  · rintro ⟨lines,messages,ledger,orderly⟩
    have tracks : Tracks [] { fresh with registered := true } :=
      fun _ => ⟨[],[],.empty,{ good_fresh with }⟩
    have calm : Calm [] { fresh with registered := true } :=
      ⟨rfl,rfl,rfl,.inl ⟨rfl,nofun⟩⟩
    have calm := calm_run tracks calm clean ran
    cases calm.verdict with
    | inl fine => exact fine.1
    | inr lapsed =>
      cases lapsed.2 with
      | inl lost =>
        have := lost [] lines messages ledger
        rw [List.append_nil] at this
        exact absurd orderly this
      | inr lost => exact absurd orderly (lost.2 lines messages ledger)

end Verdict

section Sample

def task (waits : ℕ) : List Event := .start :: List.replicate waits (.settle .done)

/-- Two lines in two chunks, of which the second arrives before the first is stored. -/
def sampleEvents : List Event :=
  let owned := Schema.utf8Bytes "\x7b\"event\":\"owned\",\"pgid\":7\x7d\n"
  let released := Schema.utf8Bytes "\x7b\"event\":\"released\",\"pgid\":7\x7d\n"
  [.data (owned.take 10),.data (owned.drop 10 ++ released),.eof] ++ task 1 ++ task 1 ++ task 5 ++
    task 4

def sampleEnd : Pipe := (run fresh (.register :: sampleEvents)).getD fresh

theorem sample_ran : run fresh (.register :: sampleEvents) = some sampleEnd := by decide +kernel

theorem sample_drained : sampleEnd.Drained := by decide +kernel

theorem protocol_kept_sample : ∃ lines messages ledger,
    Orderly (received (.register :: sampleEvents)) lines messages ledger ∧
      sampleEnd.protocolLog = some (received (.register :: sampleEvents)) ∧
      sampleEnd.acknowledged = lines.length ∧ Keeps ledger sampleEnd.hosted sampleEnd.windows ∧
      sampleEnd.windows.length = sampleEnd.hosted.length :=
  protocol_kept sample_ran sample_drained (by decide +kernel)

theorem sample_clean : ∀ event ∈ sampleEvents, event.Clean := by
  simp [sampleEvents, task, Event.Clean, List.replicate]

theorem protocol_exact_sample : sampleEnd.failed = false ↔
    ∃ lines messages ledger, Orderly (received sampleEvents) lines messages ledger :=
  protocol_exact sample_clean sample_ran sample_drained

end Sample




end ControlPipe

end EvidenceV4
