import EvidenceV4.CanonicalRoundTrip
import EvidenceV4.ElfReader

/-!
# Encodings of an image

A file encodes an image when its header, its program headers, its dynamic
entries and its string table say so, whatever their places in the file. The bytes
of a segment lie within the file and loaded segments do not overlap. A program
header of kind zero is unused, and nothing is known of its range. The reader asks
for no byte outside the file, whatever the file is.
-/

set_option autoImplicit false

namespace EvidenceV4

namespace ElfEncoding

open CheckedExcept
open ElfReader
open LoggedReads
open Schema (utf8Bytes)

section Encodings

def bytesOf (text : Text) : List UInt8 := utf8Bytes (String.ofList text)

/-- The bytes of a text and its terminator, and whatever follows. -/
def Terminated (bytes : List UInt8) (text : Text) : Prop :=
  '\x00' ∉ text ∧ ∃ rest, bytes = bytesOf text ++ 0 :: rest

/-- A program header at its place in the file. -/
structure HeaderAt (file : List UInt8) (wide little : Bool) (place : ℕ) (h : Header) : Prop where
  kind : u32 little file place = h.kind
  offset : word wide little file (place + 8) (place + 4) = h.offset
  address : word wide little file (place + 16) (place + 8) = h.address
  length : word wide little file (place + 32) (place + 16) = h.length

/-- A dynamic entry at its place in the file. -/
structure EntryAt (file : List UInt8) (wide little : Bool) (place tag value : ℕ) : Prop where
  tag : word wide little file place place = tag
  value : word wide little file (place + 8) (place + 4) = value

instance (file : List UInt8) (wide little : Bool) (place : ℕ) (h : Header) :
    Decidable (HeaderAt file wide little place h) :=
  decidable_of_iff
    (u32 little file place = h.kind ∧ word wide little file (place + 8) (place + 4) = h.offset ∧
      word wide little file (place + 16) (place + 8) = h.address ∧
      word wide little file (place + 32) (place + 16) = h.length)
    ⟨fun ⟨a,b,c,d⟩ => ⟨a,b,c,d⟩,fun ⟨a,b,c,d⟩ => ⟨a,b,c,d⟩⟩

instance (file : List UInt8) (wide little : Bool) (place tag value : ℕ) :
    Decidable (EntryAt file wide little place tag value) :=
  decidable_of_iff
    (word wide little file place place = tag ∧ word wide little file (place + 8) (place + 4) = value)
    ⟨fun ⟨a,b⟩ => ⟨a,b⟩,fun ⟨a,b⟩ => ⟨a,b⟩⟩

def entrySize (wide : Bool) : ℕ := if wide then 16 else 8

def headerSize (wide : Bool) : ℕ := if wide then 56 else 32

/-- The number of program headers, which a section header holds where it is too great. -/
def CountIs (file : List UInt8) (wide little : Bool) (n : ℕ) : Prop :=
  let written := u16 little file (if wide then 56 else 44)
  if n < 0xffff then written = n
  else
    let section_ := word wide little file 40 32
    written = 0xffff ∧ section_ + (if wide then 64 else 40) ≤ file.length ∧
      u32 little file (section_ + if wide then 44 else 28) = n

structure StringTable where
  address : ℕ
  size : ℕ
  load : Header

def valuesOf (entries : List (ℕ × ℕ)) (tag : ℕ) : List ℕ :=
  (entries.filter (fun entry => entry.1 = tag)).map Prod.snd

/-- The string at an offset of the string table. -/
def StringAt (file : List UInt8) (table : Option StringTable) (offset : ℕ) (text : Text) : Prop :=
  ∃ t, table = some t ∧ offset < t.size ∧
    Terminated (slice file (t.load.offset + (t.address - t.load.address) + offset)
      (t.size - offset)) text

/-- The entries of a tag that stands at most once. -/
def OptionalString (file : List UInt8) (table : Option StringTable) (values : List ℕ)
    (text : Option Text) : Prop :=
  match text with
  | none => values = []
  | some text => ∃ offset, values = [offset] ∧ StringAt file table offset text

/-- The joined paths of an entry that is there just if there are paths. -/
def pathText (paths : List Text) : Option Text :=
  if paths = [] then none else some ([':'].intercalate paths)

structure Encoding (file : List UInt8) (image : LinuxELF) where
  little : Bool
  headers : List Header
  entries : List (ℕ × ℕ)
  table : Option StringTable
  phoff : ℕ
  stride : ℕ
  magic : slice file 0 4 = ElfReader.magic
  class_ : file[4]? = some (if image.wide then 2 else 1)
  order : file[5]? = some (if little then 1 else 2)
  version : file[6]? = some 1
  long : (if image.wide then 64 else 52) ≤ file.length
  kind : u16 little file 16 ∈ [1,2,3]
  machine : u16 little file 18 = image.machine
  place : word image.wide little file 32 28 = phoff
  room : u16 little file (if image.wide then 54 else 42) = stride
  count : CountIs file image.wide little headers.length
  strides : headers ≠ [] → headerSize image.wide ≤ stride
  inFile : phoff + stride * headers.length ≤ file.length
  header : ∀ i (h : i < headers.length),
    HeaderAt file image.wide little (phoff + i * stride) headers[i]
  segments : ∀ h ∈ headers, h.kind ≠ 0 → h.length ≠ 0 → h.offset + h.length ≤ file.length
  apart : (headers.filter (fun h => h.kind = 1)).Pairwise (fun a b =>
    a.address + a.length ≤ b.address ∨ b.address + b.length ≤ a.address)
  interpreter : match image.interpreter with
    | none => headers.filter (fun h => h.kind = 3) = []
    | some text => ∃ h, headers.filter (fun h => h.kind = 3) = [h] ∧
        Terminated (slice file h.offset h.length) text
  dynamic : match headers.filter (fun h => h.kind = 2) with
    | [] => entries = []
    | [d] => (entries.length + 1) * entrySize image.wide ≤ d.length ∧
        (∀ i (h : i < entries.length), entries[i].1 ≠ 0 ∧
          EntryAt file image.wide little (d.offset + i * entrySize image.wide) entries[i].1
            entries[i].2) ∧
        word image.wide little file (d.offset + entries.length * entrySize image.wide)
          (d.offset + entries.length * entrySize image.wide) = 0
    | _ => False
  strings : match table with
    | none => valuesOf entries 5 = [] ∧ valuesOf entries 10 = []
    | some t => valuesOf entries 5 = [t.address] ∧ valuesOf entries 10 = [t.size] ∧
        t.load ∈ headers ∧ t.load.kind = 1 ∧ t.load.address ≤ t.address ∧
        t.address + t.size ≤ t.load.address + t.load.length
  needed : List.Forall₂ (StringAt file table) (valuesOf entries 1) image.needed
  soname : OptionalString file table (valuesOf entries 14) image.soname
  rpath : OptionalString file table (valuesOf entries 15) (pathText image.rpath)
  runpath : OptionalString file table (valuesOf entries 29) (pathText image.runpath)
  plain : ∀ path ∈ image.rpath ++ image.runpath, ':' ∉ path

end Encodings

section Bounds

variable {file : List UInt8}

theorem bounded_read (offset length : ℕ) : Bounded file.length (read file offset length) :=
  bounded_readAt _ _ _ _ _

theorem bounded_program (state : Programs) (h : Header) :
    Bounded file.length (program file state h) := by
  rw [program]
  split_ifs
  · exact bounded_fail _
  · exact bounded_pure _
  · exact bounded_fail _
  · exact bounded_pure _
  · exact bounded_fail _
  · exact bounded_bind (bounded_read _ _) fun _ => bounded_bind (bounded_settle _) fun _ =>
      bounded_pure _
  · exact bounded_pure _

theorem bounded_dynamic (wide little : Bool) (place : Option (ℕ × ℕ)) :
    Bounded file.length (dynamic file wide little place) := by
  cases place with
  | none => exact bounded_pure _
  | some place => exact bounded_bind (bounded_read _ _) fun _ => bounded_settle _

theorem bounded_chunks (place remaining more consumed : ℕ) (done : List UInt8) :
    Bounded file.length (chunks file place remaining more consumed done) := by
  induction more generalizing consumed done with
  | zero => exact bounded_fail _
  | succ more ih =>
    rw [chunks]
    split_ifs
    · refine bounded_bind (bounded_read _ _) fun bytes => ?_
      split_ifs
      · exact bounded_settle _
      · exact ih _ _
    · exact bounded_fail _

theorem bounded_string (loads : List Load) (d : ElfReader.Dynamic) (offset : ℕ) :
    Bounded file.length (string file loads d offset) := by
  rw [string]
  split
  · exact bounded_fail _
  · split_ifs
    · exact bounded_fail _
    · split
      · exact bounded_fail _
      · exact bounded_bind (bounded_settle _) fun _ => bounded_chunks _ _ _ _ _

theorem bounded_optional {read : ℕ → Parse Text} (each : ∀ offset, Bounded file.length (read offset))
    (offset : Option ℕ) : Bounded file.length (optional read offset) := by
  cases offset with
  | none => exact bounded_pure _
  | some offset => exact bounded_bind (each offset) fun _ => bounded_pure _

theorem bounded_image (wide little : Bool) (head : List UInt8) :
    Bounded file.length (image file wide little head) := by
  refine bounded_bind (bounded_settle _) fun phoff => ?_
  apply bounded_ite (bounded_fail _)
  refine bounded_bind (bounded_read _ _) fun programs => ?_
  refine bounded_bind (bounded_foldlM fun state index =>
    bounded_bind (bounded_settle _) fun h => bounded_program state h) fun seen => ?_
  refine bounded_bind (bounded_dynamic _ _ _) fun d => ?_
  have strings : ∀ offset, Bounded file.length (string file seen.loads d offset) :=
    bounded_string seen.loads d
  refine bounded_bind (bounded_each strings) fun needed => ?_
  refine bounded_bind (bounded_optional strings _) fun soname => ?_
  refine bounded_bind (bounded_optional strings _) fun rpath => ?_
  exact bounded_bind (bounded_optional strings _) fun runpath => bounded_pure _

/-- The reader asks for nothing outside the file, also where it fails. -/
theorem elf_bounded (file : List UInt8) : Bounded file.length (elf file) := by
  apply bounded_ite (bounded_fail _)
  refine bounded_bind (bounded_read _ _) fun head => bounded_ite ?_ (bounded_pure _)
  refine bounded_bind (bounded_settle _) fun ⟨wide,little⟩ => bounded_ite (bounded_fail _) ?_
  exact bounded_bind (bounded_image _ _ _) fun _ => bounded_pure _

theorem read_result {offset length : ℕ} (small : file.length ≤ maxSafe)
    (within : offset + length ≤ file.length) :
    (read file offset length).result = .ok (slice file offset length) :=
  readAt_result (by simp only [decide_eq_true_eq]; omega) within

theorem prefix_head {start : List UInt8} (short : start.length ≤ 64) :
    start.isPrefixOf (slice file 0 (min 64 file.length)) = true ↔ start <+: file := by
  rw [List.isPrefixOf_iff_prefix, slice, List.drop_zero]
  constructor
  · exact fun before => before.trans (List.take_prefix _ _)
  · intro before
    refine List.prefix_take_iff.mpr ⟨before,?_⟩
    exact le_min short before.length_le

/-- Of a file of safe length the reader says that it is no image just if the magic is absent. -/
theorem elf_none (small : file.length ≤ maxSafe) :
    (elf file).result = .ok none ↔ ¬magic <+: file := by
  rw [elf, if_neg (by omega), read_bind (read_result small (by omega)), ← prefix_head (by decide)]
  by_cases found : magic.isPrefixOf (slice file 0 (min 64 file.length)) = true
  · rw [if_pos found, bind_result]
    simp only [found, not_true_eq_false, iff_false]
    intro none_read
    have ⟨⟨wide,little⟩,_,none_read⟩ := (bind_ok _ _ _).mp none_read
    split_ifs at none_read
    · rw [bind_result] at none_read
      have ⟨image,_,none_read⟩ := (bind_ok _ _ _).mp none_read
      simp at none_read
    · simp at none_read
  · rw [if_neg found]
    simp [found]

end Bounds

end ElfEncoding

end EvidenceV4
