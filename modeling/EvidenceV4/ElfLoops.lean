import EvidenceV4.ElfEncoding
import Mathlib.Data.List.Pairwise

/-!
# The parts of an encoding as the reader takes them

Fields of a slice are fields of the file at the slice's place. The loops over
program headers and over dynamic entries keep the single values of each kind, and
a string is gathered from its chunks up to its terminator.
-/

set_option autoImplicit false

namespace EvidenceV4

namespace ElfLoops

open CheckedExcept
open ElfReader
open ElfEncoding
open LoggedReads

section Fields

variable {file : List UInt8} {wide little : Bool} {start size place other : ℕ}

theorem u16_slice (within : place + 2 ≤ size) :
    u16 little (slice file start size) place = u16 little file (start + place) := by
  rw [u16, slice_slice within, u16]

theorem u32_slice (within : place + 4 ≤ size) :
    u32 little (slice file start size) place = u32 little file (start + place) := by
  rw [u32, slice_slice within, u32]

theorem word_slice (within : if wide then place + 8 ≤ size else other + 4 ≤ size) :
    word wide little (slice file start size) place other =
      word wide little file (start + place) (start + other) := by
  cases wide
  · exact u32_slice (by simpa using within)
  · show u64 little (slice file start size) place = u64 little file (start + place)
    rw [u64, slice_slice (by simpa using within), u64]

theorem safe_ok {n : ℕ} (small : n ≤ maxSafe) : safe n = .ok n := by
  rw [safe, if_pos small]
  rfl

theorem safeWord_ok {bytes : List UInt8} (small : word wide little bytes place other ≤ maxSafe) :
    safeWord wide little bytes place other = .ok (word wide little bytes place other) := by
  cases wide
  · rfl
  · exact safe_ok small

/-- A header that stands in the file is read from the slice that holds it. -/
theorem header_read {h : Header} (at_ : HeaderAt file wide little (start + place) h)
    (within : place + headerSize wide ≤ size) (small : h.offset ≤ maxSafe ∧ h.length ≤ maxSafe) :
    header wide little (slice file start size) place = .ok h := by
  have room : place + (if wide then 56 else 32) ≤ size := within
  have offset : word wide little (slice file start size) (place + 8) (place + 4) = h.offset := by
    rw [word_slice (by cases wide <;> simp at room ⊢ <;> omega), ← at_.offset]
    simp only [Nat.add_assoc]
  have address : word wide little (slice file start size) (place + 16) (place + 8) = h.address := by
    rw [word_slice (by cases wide <;> simp at room ⊢ <;> omega), ← at_.address]
    simp only [Nat.add_assoc]
  have length : word wide little (slice file start size) (place + 32) (place + 16) = h.length := by
    rw [word_slice (by cases wide <;> simp at room ⊢ <;> omega), ← at_.length]
    simp only [Nat.add_assoc]
  have kind : u32 little (slice file start size) place = h.kind := by
    rw [u32_slice (by split_ifs at room <;> omega), at_.kind]
  rw [header, safeWord_ok (by rw [offset]; exact small.1), safeWord_ok (by rw [length]; exact small.2),
    offset, length, address, kind]
  rfl

theorem entry_slice {tag v : ℕ} (at_ : EntryAt file wide little (start + place) tag v)
    (within : place + entrySize wide ≤ size) :
    EntryAt (slice file start size) wide little place tag v := by
  have room : place + (if wide then 16 else 8) ≤ size := within
  constructor
  · rw [word_slice (by cases wide <;> simp at room ⊢ <;> omega), at_.tag]
  · rw [word_slice (by cases wide <;> simp at room ⊢ <;> omega), ← at_.value]
    simp only [Nat.add_assoc]

end Fields

section Strings

variable {file : List UInt8}

theorem or_ne_zero (x : UInt8) {mark : UInt8} (nonzero : 0 < mark.toNat) : x ||| mark ≠ 0 := by
  intro same
  have code := congrArg UInt8.toNat same
  rw [UInt8.toNat_or] at code
  have bound : mark.toNat ≤ x.toNat ||| mark.toNat := Nat.right_le_or
  rw [code, UInt8.toNat_zero] at bound
  omega

/-- The code of a character other than the terminator has no zero byte. -/
theorem zero_not_mem_char {c : Char} (other : c ≠ '\x00') : 0 ∉ String.utf8EncodeChar c := by
  rw [String.utf8EncodeChar_eq_utf8EncodeCharFast]
  unfold String.utf8EncodeCharFast
  dsimp only
  split_ifs with small
  · rw [List.mem_singleton]
    intro zero
    have code := congrArg UInt8.toNat zero
    rw [UInt32.toNat_toUInt8, UInt8.toNat_zero] at code
    rw [UInt32.le_iff_toNat_le] at small
    have small : c.val.toNat ≤ 127 := small
    rw [Nat.mod_eq_of_lt (by omega)] at code
    exact other (Char.ext (UInt32.toNat_inj.mp code.symm))
  all_goals
    simp only [List.mem_cons, List.not_mem_nil, or_false, not_or]
  · exact ⟨(or_ne_zero _ (by decide)).symm,(or_ne_zero _ (by decide)).symm⟩
  · exact ⟨(or_ne_zero _ (by decide)).symm,(or_ne_zero _ (by decide)).symm,
      (or_ne_zero _ (by decide)).symm⟩
  · exact ⟨(or_ne_zero _ (by decide)).symm,(or_ne_zero _ (by decide)).symm,
      (or_ne_zero _ (by decide)).symm,(or_ne_zero _ (by decide)).symm⟩

theorem zero_not_mem_bytes {text : Text} (plain : '\x00' ∉ text) : 0 ∉ bytesOf text := by
  rw [bytesOf, Utf8Order.utf8Bytes_ofList, List.mem_flatMap]
  rintro ⟨c,member,zero⟩
  exact zero_not_mem_char (fun same => plain (same ▸ member)) zero

theorem terminated_takeWhile {bytes : List UInt8} {text : Text} (form : Terminated bytes text) :
    0 ∈ bytes ∧ bytes.takeWhile (· ≠ 0) = bytesOf text := by
  obtain ⟨plain,rest,rfl⟩ := form
  constructor
  · simp
  · have each : ∀ b ∈ bytesOf text, decide (b ≠ 0) = true := by
      intro b member
      exact decide_eq_true fun zero => zero_not_mem_bytes plain (zero ▸ member)
    rw [List.takeWhile_append_of_pos each]
    simp

theorem decode_ok {bytes : List UInt8} {text : Text} (form : Terminated bytes text) :
    decode bytes = .ok text := by
  have ⟨zero,front⟩ := terminated_takeWhile form
  rw [decode, if_pos zero, front]
  exact CanonicalRoundTrip.decodeUTF8_bytes text

theorem takeWhile_found {front back : List UInt8} (found : 0 ∈ front) :
    (front ++ back).takeWhile (· ≠ 0) = front.takeWhile (· ≠ 0) := by
  induction front with
  | nil => simp at found
  | cons b front ih =>
    by_cases zero : b = 0
    · simp [zero]
    · have later : 0 ∈ front := (List.mem_cons.mp found).resolve_left (Ne.symm zero)
      simp only [List.cons_append, ne_eq, zero, not_false_eq_true, decide_true,
        List.takeWhile_cons_of_pos]
      rw [← ih later]

theorem takeWhile_missing {front back : List UInt8} (missing : 0 ∉ front) :
    (front ++ back).takeWhile (· ≠ 0) = front ++ back.takeWhile (· ≠ 0) :=
  List.takeWhile_append_of_pos fun _ member => decide_eq_true fun zero => missing (zero ▸ member)

theorem paths_text {ps : List Text} (plain : ∀ path ∈ ps, ':' ∉ path) : paths (pathText ps) = ps := by
  rw [pathText]
  split_ifs with empty
  · rw [empty]
    rfl
  · exact List.splitOn_intercalate ':' plain empty

/-- The chunks of a string are joined up to the first zero byte. -/
theorem chunks_result {start remaining : ℕ} (small : file.length ≤ maxSafe)
    (within : start + remaining ≤ file.length) {more consumed : ℕ} {done : List UInt8}
    (enough : remaining - consumed ≤ more)
    (zero : 0 ∈ slice file (start + consumed) (remaining - consumed)) :
    (chunks file start remaining more consumed done).result =
      CanonicalJson.decodeUTF8
        (done ++ (slice file (start + consumed) (remaining - consumed)).takeWhile (· ≠ 0)) := by
  induction more generalizing consumed done with
  | zero =>
    rw [Nat.le_zero.mp enough, slice_zero] at zero
    simp at zero
  | succ more ih =>
    have left : consumed < remaining := by
      by_contra spent
      rw [Nat.sub_eq_zero_of_le (by omega), slice_zero] at zero
      simp at zero
    let width := min 1024 (remaining - consumed)
    have joined : slice file (start + consumed) (remaining - consumed) =
        slice file (start + consumed) width ++
          slice file (start + (consumed + width)) (remaining - (consumed + width)) := by
      rw [← Nat.add_assoc, ← slice_split]
      congr 1
      omega
    rw [chunks, if_pos left, read_bind (read_result small (by omega)), joined]
    rw [joined] at zero
    by_cases found : 0 ∈ slice file (start + consumed) width
    · rw [if_pos found, settle_result, takeWhile_found found]
    · have length : (slice file (start + consumed) width).length = width :=
        length_slice (by omega)
      have later := (List.mem_append.mp zero).resolve_left found
      rw [if_neg found, length, ih (by omega) later, takeWhile_missing found, List.append_assoc]

/-- The load segments of the headers, as the reader keeps them. -/
def loadsOf (headers : List Header) : List Load :=
  (headers.filter (fun h => h.kind = 1)).map fun h => ⟨h.address,h.offset,h.length⟩

/-- The string table is found in its load segment, which is the only one with its address. -/
theorem table_found {headers : List Header} {t : StringTable}
    (apart : (headers.filter (fun h => h.kind = 1)).Pairwise (fun a b =>
      a.address + a.length ≤ b.address ∨ b.address + b.length ≤ a.address))
    (member : t.load ∈ headers) (kind : t.load.kind = 1) (low : t.load.address ≤ t.address)
    (high : t.address < t.load.address + t.load.length) :
    (loadsOf headers).find?
        (fun load => load.address ≤ t.address ∧ t.address < load.address + load.size) =
      some ⟨t.load.address,t.load.offset,t.load.length⟩ := by
  let holds (load : Load) : Bool :=
    decide (load.address ≤ t.address ∧ t.address < load.address + load.size)
  show (loadsOf headers).find? holds = _
  have single : t.load ∈ headers.filter (fun h => h.kind = 1) :=
    List.mem_filter.mpr ⟨member,decide_eq_true kind⟩
  have present : (⟨t.load.address,t.load.offset,t.load.length⟩ : Load) ∈ loadsOf headers :=
    List.mem_map.mpr ⟨t.load,single,rfl⟩
  cases found : (loadsOf headers).find? holds with
  | none =>
    have missed := List.find?_eq_none.mp found _ present
    exact absurd (decide_eq_true ⟨low,high⟩) missed
  | some load =>
    have inside : load.address ≤ t.address ∧ t.address < load.address + load.size :=
      of_decide_eq_true (show holds load = true from List.find?_some found)
    obtain ⟨h,other,rfl⟩ := List.mem_map.mp (List.mem_of_find?_eq_some found)
    have same : h = t.load := by
      by_contra different
      have : Std.Symm (fun a b : Header =>
          a.address + a.length ≤ b.address ∨ b.address + b.length ≤ a.address) :=
        ⟨fun _ _ => Or.symm⟩
      have separate := apart.forall other single different
      dsimp only at inside
      omega
    rw [same]

/-- A string of an encoding is read from its place in the string table. -/
theorem string_result {image : LinuxELF} (e : Encoding file image) (small : file.length ≤ maxSafe)
    (ranges : ∀ h ∈ e.headers, h.offset + h.length ≤ file.length) {d : ElfReader.Dynamic} (address : d.address = e.table.map (·.address))
    (size : d.size = (e.table.map (·.size)).getD 0) {offset : ℕ} {text : Text}
    (here : StringAt file e.table offset text) :
    (string file (loadsOf e.headers) d offset).result = .ok text := by
  obtain ⟨t,known,before,form⟩ := here
  have table := e.strings
  rw [known] at table address size
  obtain ⟨-,-,member,kind,low,high⟩ := table
  have inFile := ranges t.load member
  have safe_gap : safe (t.address - t.load.address) = .ok (t.address - t.load.address) :=
    safe_ok (by omega)
  have size : d.size = t.size := size
  have ⟨zero,text_bytes⟩ := terminated_takeWhile form
  have found := table_found e.apart member kind low (by omega)
  rw [string, address]
  dsimp only [Option.map_some]
  rw [if_neg (by omega), found]
  dsimp only
  rw [safe_gap, read_bind (settle_result _), size]
  let start := t.load.offset + (t.address - t.load.address) + offset
  have gathered := @chunks_result file start (t.size - offset) small (by omega) (t.size - offset) 0 []
    le_rfl zero
  apply gathered.trans
  exact (congrArg _ text_bytes).trans (CanonicalRoundTrip.decodeUTF8_bytes text)

end Strings

section Loops

/-- A value that is there before a loop, or that the loop finds once. -/
inductive Once {α β : Type} (R : α → β → Prop) : Option β → List α → Option β → Prop
  | kept (b : Option β) : Once R b [] b
  | found {a : α} {b : β} : R a b → Once R none [a] (some b)

theorem Once.nil_inv {α β : Type} {R : α → β → Prop} {before after : Option β}
    (once : Once R before [] after) : after = before := by
  cases once
  rfl

theorem Once.cons_inv {α β : Type} {R : α → β → Prop} {before after : Option β} {a : α}
    {rest : List α} (once : Once R before (a :: rest) after) :
    before = none ∧ rest = [] ∧ ∃ b, R a b ∧ after = some b := by
  cases once with
  | found held => exact ⟨rfl,rfl,_,held,rfl⟩

variable {file : List UInt8} {wide little : Bool}

/-- The loop over the program headers keeps the loads and the single other segments. -/
theorem programs_result (small : file.length ≤ maxSafe) {headers : List Header}
    (segments : ∀ h ∈ headers, h.offset + h.length ≤ file.length) {loads : List Load}
    {before interpreter : Option Text} {placed dynamic : Option (ℕ × ℕ)}
    (interpreted : Once (fun h => Terminated (slice file h.offset h.length)) before
      (headers.filter (fun h => h.kind = 3)) interpreter)
    (dynamics : Once (fun h place => place = (h.offset,h.length)) placed
      (headers.filter (fun h => h.kind = 2)) dynamic) :
    (headers.foldlM (program file) ⟨loads,before,placed⟩).result =
      .ok ⟨loads ++ loadsOf headers,interpreter,dynamic⟩ := by
  induction headers generalizing loads before placed with
  | nil =>
    rw [interpreted.nil_inv, dynamics.nil_inv]
    simp [loadsOf]
  | cons h headers ih =>
    have ⟨inFile,later⟩ := List.forall_mem_cons.mp segments
    rw [List.foldlM_cons]
    by_cases load : h.kind = 1
    · have step : (program file ⟨loads,before,placed⟩ h).result =
          .ok ⟨loads ++ [⟨h.address,h.offset,h.length⟩],before,placed⟩ := by
        rw [program, if_neg (by omega), if_pos load]
        rfl
      rw [read_bind step, ih later (by simpa [load] using interpreted) (by simpa [load] using dynamics)]
      simp [loadsOf, load]
    by_cases place : h.kind = 2
    · simp only [place, decide_true, List.filter_cons_of_pos] at dynamics
      obtain ⟨rfl,none_left,_,rfl,rfl⟩ := dynamics.cons_inv
      have step : (program file ⟨loads,before,none⟩ h).result =
          .ok ⟨loads,before,some (h.offset,h.length)⟩ := by
        rw [program, if_neg (by omega), if_neg load, if_pos place]
        rfl
      rw [read_bind step, ih later (by simpa [place] using interpreted) (none_left ▸ .kept _)]
      simp [loadsOf, load]
    by_cases named : h.kind = 3
    · simp only [named, decide_true, List.filter_cons_of_pos] at interpreted
      obtain ⟨rfl,none_left,text,form,rfl⟩ := interpreted.cons_inv
      have step : (program file ⟨loads,none,placed⟩ h).result = .ok ⟨loads,some text,placed⟩ := by
        rw [program, if_neg (by omega), if_neg load, if_neg place, if_pos named, if_neg (by simp),
          read_bind (read_result small inFile), decode_ok form]
        rfl
      rw [read_bind step, ih later (none_left ▸ .kept _) (by simpa [named] using dynamics)]
      simp [loadsOf, load]
    · have step : (program file ⟨loads,before,placed⟩ h).result = .ok ⟨loads,before,placed⟩ := by
        rw [program, if_neg (by omega), if_neg load, if_neg place, if_neg named]
        rfl
      rw [read_bind step, ih later (by simpa [named] using interpreted)
        (by simpa [place] using dynamics)]
      simp [loadsOf, load]

/-- The dynamic entries before the terminator are taken one after another. -/
theorem entries_result {es : List (ℕ × ℕ)} {bytes : List UInt8} {left offset : ℕ}
    {state : ElfReader.Dynamic} (room : es.length < left)
    (each : ∀ i (h : i < es.length), es[i].1 ≠ 0 ∧
      EntryAt bytes wide little (offset + i * entrySize wide) es[i].1 es[i].2)
    (last : word wide little bytes (offset + es.length * entrySize wide)
      (offset + es.length * entrySize wide) = 0) :
    entries wide little bytes left offset state = es.foldlM (fun s e => entry s e.1 e.2) state := by
  induction es generalizing left offset state with
  | nil =>
    cases left with
    | zero => simp at room
    | succ left =>
      simp only [List.length_nil, Nat.zero_mul, Nat.add_zero] at last
      rw [entries, last]
      rfl
  | cons e es ih =>
    cases left with
    | zero => simp at room
    | succ left =>
      have ⟨nonzero,here⟩ := each 0 (Nat.succ_pos _)
      rw [List.getElem_cons_zero] at nonzero
      rw [Nat.zero_mul, Nat.add_zero, List.getElem_cons_zero] at here
      rw [entries, here.tag, here.value, List.foldlM_cons, if_neg nonzero]
      apply bind_congr_ok rfl
      intro s _
      apply ih (by simpa using room)
      · intro i within
        have there := each (i + 1) (Nat.succ_lt_succ within)
        rw [Nat.succ_mul, Nat.add_comm (i * _), ← Nat.add_assoc] at there
        exact there
      · rw [List.length_cons, Nat.succ_mul, Nat.add_comm (es.length * _), ← Nat.add_assoc] at last
        exact last

def latest (before : Option ℕ) (values : List ℕ) : Option ℕ := values.foldl (fun _ v => some v) before

/-- What the loop over the dynamic entries has seen after all of them. -/
def seen (s : ElfReader.Dynamic) (es : List (ℕ × ℕ)) : ElfReader.Dynamic where
  needed := s.needed ++ valuesOf es 1
  soname := latest s.soname (valuesOf es 14)
  rpath := latest s.rpath (valuesOf es 15)
  runpath := latest s.runpath (valuesOf es 29)
  address := latest s.address (valuesOf es 5)
  size := (valuesOf es 10).foldl (fun _ v => v) s.size

theorem valuesOf_cons (e : ℕ × ℕ) (es : List (ℕ × ℕ)) (tag : ℕ) :
    valuesOf (e :: es) tag = valuesOf [e] tag ++ valuesOf es tag := by
  rw [valuesOf, ← List.singleton_append, List.filter_append, List.map_append]
  rfl

theorem seen_cons (s : ElfReader.Dynamic) (e : ℕ × ℕ) (es : List (ℕ × ℕ)) :
    seen (seen s [e]) es = seen s (e :: es) := by
  simp only [seen, latest, valuesOf_cons e es, List.foldl_append, List.append_assoc]

theorem valuesOf_single (tag v kind : ℕ) :
    valuesOf [(tag,v)] kind = if tag = kind then [v] else [] := by
  split_ifs with same
  · simp [valuesOf, same]
  · simp [valuesOf, same]

theorem entry_ok {s : ElfReader.Dynamic} {tag v : ℕ}
    (small : tag ∈ [1,10,14,15,29] → v ≤ maxSafe) : entry s tag v = .ok (seen s [(tag,v)]) := by
  rw [entry]
  split_ifs with needed address size soname rpath runpath
  · rw [safe_ok (small (by simp [needed]))]
    simp [seen, valuesOf_single, latest, needed, bind, Except.bind, pure, Except.pure]
  · simp [seen, valuesOf_single, latest, address, pure, Except.pure]
  · rw [safe_ok (small (by simp [size]))]
    simp [seen, valuesOf_single, latest, size, bind, Except.bind, pure, Except.pure]
  · rw [safe_ok (small (by simp [soname]))]
    simp [seen, valuesOf_single, latest, soname, bind, Except.bind, pure, Except.pure]
  · rw [safe_ok (small (by simp [rpath]))]
    simp [seen, valuesOf_single, latest, rpath, bind, Except.bind, pure, Except.pure]
  · rw [safe_ok (small (by simp [runpath]))]
    simp [seen, valuesOf_single, latest, runpath, bind, Except.bind, pure, Except.pure]
  · simp [seen, valuesOf_single, latest, needed, address, size, soname, rpath, runpath, pure,
      Except.pure]

theorem entry_foldlM {es : List (ℕ × ℕ)} {s : ElfReader.Dynamic}
    (small : ∀ tag ∈ [1,10,14,15,29], ∀ v ∈ valuesOf es tag, v ≤ maxSafe) :
    es.foldlM (fun s e => entry s e.1 e.2) s = .ok (seen s es) := by
  induction es generalizing s with
  | nil => simp [seen, valuesOf, latest, pure, Except.pure]
  | cons e es ih =>
    have first : e.1 ∈ [1,10,14,15,29] → e.2 ≤ maxSafe := by
      intro known
      apply small e.1 known
      rw [valuesOf_cons]
      exact List.mem_append_left _ (by simp [valuesOf])
    have rest : ∀ tag ∈ [1,10,14,15,29], ∀ v ∈ valuesOf es tag, v ≤ maxSafe := by
      intro tag known v member
      apply small tag known
      rw [valuesOf_cons]
      exact List.mem_append_right _ member
    rw [List.foldlM_cons, entry_ok first]
    exact ih rest |>.trans (congrArg _ (seen_cons s e es))

end Loops

end ElfLoops

end EvidenceV4
