import EvidenceV4.ElfLoops

/-!
# The reader returns the encoded image

The reader gives back the image of every encoding that its guards admit. They
refuse a file above the greatest safe length, a number of program headers that
does not stand in the file header, and a program header whose range leaves the
file also where nothing is loaded from it.
-/

set_option autoImplicit false

namespace EvidenceV4

namespace ElfRoundTrip

open CheckedExcept
open ElfReader
open ElfEncoding
open ElfLoops
open LoggedReads

section Images

variable {file : List UInt8} {image : LinuxELF} (e : Encoding file image)
  (small : file.length ≤ maxSafe) (ranges : ∀ h ∈ e.headers, h.offset + h.length ≤ file.length)

include e small ranges

theorem table_size : ∀ t, e.table = some t → t.size ≤ maxSafe := by
  intro t known
  have table := e.strings
  rw [known] at table
  obtain ⟨-,-,member,-,low,high⟩ := table
  have inFile := ranges t.load member
  omega

theorem string_small {offset : ℕ} {text : Text} (here : StringAt file e.table offset text) :
    offset ≤ maxSafe := by
  obtain ⟨t,known,before,-⟩ := here
  have bound := table_size e small ranges t known
  omega

theorem optional_small {values : List ℕ} {text : Option Text}
    (here : OptionalString file e.table values text) : ∀ v ∈ values, v ≤ maxSafe := by
  intro v member
  cases text with
  | none =>
    have empty : values = [] := here
    simp [empty] at member
  | some text =>
    obtain ⟨offset,rfl,there⟩ := here
    rw [List.mem_singleton.mp member]
    exact string_small e small ranges there

/-- The numbers that the reader takes from the dynamic entries are safe. -/
theorem values_small : ∀ tag ∈ [1,10,14,15,29], ∀ v ∈ valuesOf e.entries tag, v ≤ maxSafe := by
  intro tag known
  simp only [List.mem_cons, List.not_mem_nil, or_false] at known
  rcases known with rfl | rfl | rfl | rfl | rfl
  · intro v member
    obtain ⟨text,-,here⟩ := forall₂_mem_left e.needed member
    exact string_small e small ranges here
  · intro v member
    have table := e.strings
    cases known : e.table with
    | none =>
      rw [known] at table
      simp [table.2] at member
    | some t =>
      rw [known] at table
      rw [table.2.1, List.mem_singleton] at member
      rw [member]
      exact table_size e small ranges t known
  · exact optional_small e small ranges e.soname
  · exact optional_small e small ranges e.rpath
  · exact optional_small e small ranges e.runpath

omit small ranges in
theorem interpreter_once : Once (fun h => Terminated (slice file h.offset h.length)) none
    (e.headers.filter (fun h => h.kind = 3)) image.interpreter := by
  have given := e.interpreter
  cases known : image.interpreter with
  | none =>
    rw [known] at given
    rw [given]
    exact .kept none
  | some text =>
    rw [known] at given
    obtain ⟨h,single,form⟩ := given
    rw [single]
    exact .found form

/-- The dynamic segment is found, and its entries are those of the encoding. -/
theorem dynamic_once : ∃ place, Once (fun h place => place = (h.offset,h.length)) none
      (e.headers.filter (fun h => h.kind = 2)) place ∧
    (dynamic file image.wide e.little place).result = .ok (seen noDynamic e.entries) := by
  have given := e.dynamic
  cases known : e.headers.filter (fun h => h.kind = 2) with
  | nil =>
    rw [known] at given
    rw [show e.entries = [] from given]
    exact ⟨none,.kept none,rfl⟩
  | cons d rest =>
    rw [known] at given
    cases rest with
    | cons _ _ => exact given.elim
    | nil =>
      obtain ⟨room,each,last⟩ := given
      refine ⟨some (d.offset,d.length),.found rfl,?_⟩
      have member : d ∈ e.headers := (List.mem_filter.mp (known ▸ List.mem_cons_self)).1
      have inFile := ranges d member
      have step : 0 < entrySize image.wide := by
        rw [entrySize]
        split_ifs <;> omega
      have left : e.entries.length < d.length / entrySize image.wide :=
        (Nat.le_div_iff_mul_le step).mpr room
      rw [dynamic, read_bind (read_result small inFile), settle_result, length_slice inFile]
      refine (entries_result left ?_ ?_).trans (entry_foldlM (values_small e small ranges))
      · intro i within
        have ⟨nonzero,here⟩ := each i within
        refine ⟨nonzero,?_⟩
        rw [Nat.zero_add]
        apply entry_slice here
        calc i * entrySize image.wide + entrySize image.wide
            = (i + 1) * entrySize image.wide := (Nat.succ_mul _ _).symm
          _ ≤ (e.entries.length + 1) * entrySize image.wide := Nat.mul_le_mul_right _ (by omega)
          _ ≤ d.length := room
      · rw [Nat.zero_add, word_slice, last]
        rw [Nat.succ_mul] at room
        have room : _ + (if image.wide then 16 else 8) ≤ d.length := room
        split_ifs at room ⊢ <;> omega

theorem strings_result {offset : ℕ} {text : Text} (here : StringAt file e.table offset text) :
    (string file (loadsOf e.headers) (seen noDynamic e.entries) offset).result = .ok text := by
  have table := e.strings
  cases known : e.table with
  | none =>
    obtain ⟨t,some_table,-⟩ := here
    rw [known] at some_table
    cases some_table
  | some t =>
    rw [known] at table
    obtain ⟨address,size,-⟩ := table
    refine string_result e small ranges ?_ ?_ here
    · rw [known]
      simp [seen, latest, address]
    · rw [known]
      simp [seen, size]

theorem optional_result {values : List ℕ} {text : Option Text}
    (here : OptionalString file e.table values text) :
    (optional (string file (loadsOf e.headers) (seen noDynamic e.entries))
      (latest none values)).result = .ok text := by
  cases text with
  | none =>
    rw [show values = [] from here]
    rfl
  | some text =>
    obtain ⟨offset,rfl,there⟩ := here
    exact read_bind (strings_result e small ranges there) _

/-- Behind the checks of the file header the reader gives the image of the encoding. -/
theorem image_result (few : e.headers.length < 0xffff) {n : ℕ}
    (long : (if image.wide then 64 else 52) ≤ n) :
    (ElfReader.image file image.wide e.little (slice file 0 n)).result = .ok image := by
  have field : ∀ at_, at_ + 2 ≤ (if image.wide then 64 else 52) →
      u16 e.little (slice file 0 n) at_ = u16 e.little file at_ := by
    intro at_ inside
    rw [u16_slice (by omega), Nat.zero_add]
  have count : u16 e.little (slice file 0 n) (if image.wide then 56 else 44) = e.headers.length := by
    rw [field _ (by split_ifs <;> omega)]
    have written := e.count
    simp only [CountIs] at written
    rw [if_pos few] at written
    exact written
  have stride : u16 e.little (slice file 0 n) (if image.wide then 54 else 42) = e.stride := by
    rw [field _ (by split_ifs <;> omega), e.room]
  have machine : u16 e.little (slice file 0 n) 18 = image.machine := by
    rw [field _ (by split_ifs <;> omega), e.machine]
  have place : word image.wide e.little (slice file 0 n) 32 28 = e.phoff := by
    rw [word_slice (by split_ifs at long ⊢ <;> omega), Nat.zero_add, Nat.zero_add, e.place]
  have inFile := e.inFile
  have phoff : safeWord image.wide e.little (slice file 0 n) 32 28 = .ok e.phoff := by
    rw [safeWord_ok (by omega), place]
  have accepted : ¬(e.headers.length = 0xffff ∨ e.headers.length ≠ 0 ∧
      e.stride < if image.wide then 56 else 32) := by
    rintro (many | ⟨some_headers,narrow⟩)
    · omega
    · have wide := e.strides (List.ne_nil_of_length_pos (Nat.pos_of_ne_zero some_headers))
      exact absurd wide (Nat.not_le_of_lt narrow)
  obtain ⟨at_,dynamics,read_dynamic⟩ := dynamic_once e small ranges
  have programs : ((List.range e.headers.length).foldlM
      (programAt file image.wide e.little (slice file e.phoff (e.stride * e.headers.length)) e.stride)
      ⟨[],none,none⟩).result = .ok ⟨loadsOf e.headers,image.interpreter,at_⟩ := by
    rw [foldlM_result, foldlM_range, ← foldlM_result,
      programs_result small ranges (interpreter_once e) dynamics]
    · rfl
    · intro s i inside
      have inSegment := ranges e.headers[i] (List.getElem_mem inside)
      have wide := e.strides (List.ne_nil_of_length_pos (by omega))
      have fits : i * e.stride + headerSize image.wide ≤ e.stride * e.headers.length :=
        calc i * e.stride + headerSize image.wide
            ≤ i * e.stride + e.stride := Nat.add_le_add_left wide _
          _ = e.stride * (i + 1) := by rw [Nat.mul_succ, Nat.mul_comm]
          _ ≤ e.stride * e.headers.length := Nat.mul_le_mul_left _ inside
      have read := header_read (e.header i inside) fits ⟨by omega,by omega⟩
      rw [programAt, read, read_bind (settle_result _)]
  rw [ElfReader.image, read_bind phoff]
  dsimp only
  rw [count, stride, if_neg accepted, read_bind (read_result small inFile), read_bind programs,
    read_bind read_dynamic]
  dsimp only
  have needed := each_result (e.needed.imp fun _ _ here => strings_result e small ranges here)
  have soname := optional_result e small ranges e.soname
  have rpath := optional_result e small ranges e.rpath
  have runpath := optional_result e small ranges e.runpath
  have rpaths : paths (pathText image.rpath) = image.rpath :=
    paths_text fun path member => e.plain path (List.mem_append_left _ member)
  have runpaths : paths (pathText image.runpath) = image.runpath :=
    paths_text fun path member => e.plain path (List.mem_append_right _ member)
  rw [show (seen noDynamic e.entries).needed = valuesOf e.entries 1 from rfl, read_bind needed]
  rw [show (seen noDynamic e.entries).soname = latest none (valuesOf e.entries 14) from rfl,
    read_bind soname]
  rw [show (seen noDynamic e.entries).rpath = latest none (valuesOf e.entries 15) from rfl,
    read_bind rpath]
  rw [show (seen noDynamic e.entries).runpath = latest none (valuesOf e.entries 29) from rfl,
    read_bind runpath]
  rw [rpaths, runpaths, machine]
  rfl

omit small ranges in
/-- The checks of the file header admit an encoding. -/
theorem encoding_result {n : ℕ} (within : n ≤ file.length)
    (long : (if image.wide then 64 else 52) ≤ n) :
    encoding (slice file 0 n) = .ok (image.wide,e.little) := by
  have field : ∀ {i b}, file[i]? = some b → i < n → (slice file 0 n).getD i 0 = b := by
    intro i b known inside
    rw [slice, List.drop_zero, List.getD_eq_getElem?_getD, List.getElem?_take_of_lt inside, known]
    rfl
  have length : (slice file 0 n).length = n := length_slice (by omega)
  have class_ := field e.class_ (by split_ifs at long <;> omega)
  have order := field e.order (by split_ifs at long <;> omega)
  have version := field e.version (by split_ifs at long <;> omega)
  rw [encoding, class_, order, version, length]
  cases known : image.wide <;> cases e.little <;> rw [known] at long <;>
    simp_all [pure, Except.pure]

end Images

section Exactness

variable {file head : List UInt8} {wide little : Bool}

/-- Behind the magic and the checks of the file header the result is that of the image. -/
theorem elf_image (small : file.length ≤ maxSafe)
    (front : slice file 0 (min 64 file.length) = head) (start : magic.isPrefixOf head = true)
    (form : encoding head = .ok (wide,little)) (kind : u16 little head 16 ∈ [1,2,3]) :
    (elf file).result = some <$> (ElfReader.image file wide little head).result := by
  rw [elf, if_neg (by omega), read_bind (read_result small (by omega)), front, if_pos start, form,
    read_bind (settle_result _)]
  dsimp only
  rw [if_neg (not_not_intro kind), bind_result]
  cases (ElfReader.image file wide little head).result with
  | error e => rfl
  | ok image => rfl

theorem image_refused {phoff : ℕ} (place : safeWord wide little head 32 28 = .ok phoff)
    (many : u16 little head (if wide then 56 else 44) = 0xffff) :
    (ElfReader.image file wide little head).result =
      .error "Unsupported ELF program-header encoding" := by
  rw [ElfReader.image, read_bind place, many, if_pos (.inl rfl)]
  rfl

/-- The reader gives the image back. -/
theorem elf_result {image : LinuxELF} (e : Encoding file image) (small : file.length ≤ maxSafe)
    (ranges : ∀ h ∈ e.headers, h.offset + h.length ≤ file.length)
    (few : e.headers.length < 0xffff) : (elf file).result = .ok (some image) := by
  have long := e.long
  have wide_long : (if image.wide then 64 else 52) ≤ min 64 file.length := by
    split_ifs at long ⊢ <;> omega
  have start : magic <+: file := by
    rw [← e.magic, slice, List.drop_zero]
    exact List.take_prefix 4 file
  have kind : u16 e.little (slice file 0 (min 64 file.length)) 16 ∈ [1,2,3] := by
    rw [u16_slice (by split_ifs at wide_long <;> omega), Nat.zero_add]
    exact e.kind
  rw [elf_image small rfl ((prefix_head (by decide)).mpr start)
    (encoding_result e (by omega) wide_long) kind, image_result e small ranges few wide_long]
  rfl

/-- The reader stays within the file, and finds no image just where the magic is absent, in a file
of safe length. It gives back the image of each of its encodings in such a file with fewer than
65535 program headers whose ranges all lie within the file. -/
theorem elf_exact : (∀ file, Bounded file.length (elf file)) ∧
    (∀ file : List UInt8, file.length ≤ maxSafe →
      ((elf file).result = .ok none ↔ ¬magic <+: file)) ∧
    ∀ (file : List UInt8) (image : LinuxELF) (e : Encoding file image), file.length ≤ maxSafe →
      e.headers.length < 0xffff → (∀ h ∈ e.headers, h.offset + h.length ≤ file.length) →
      (elf file).result = .ok (some image) :=
  ⟨elf_bounded,fun _ => elf_none,fun _ _ e small few ranges => elf_result e small ranges few⟩

/-- A shared object that needs the library `a`. -/
def plainFile : List UInt8 :=
  [0x7f,0x45,0x4c,0x46,1,1,1,0,0,0,0,0,0,0,0,0,3,0,3,0,1,0,0,0,0,0,0,0,52,0,0,0,0,0,0,0,0,0,0,0,
    52,0,32,0,2,0,0,0,0,0,0,0] ++
  [1,0,0,0,0,0,0,0,0,16,0,0,0,0,0,0,151,0,0,0,151,0,0,0,4,0,0,0,0,0,0,0] ++
  [2,0,0,0,116,0,0,0,116,16,0,0,0,0,0,0,32,0,0,0,32,0,0,0,4,0,0,0,0,0,0,0] ++
  [1,0,0,0,1,0,0,0,5,0,0,0,148,16,0,0,10,0,0,0,3,0,0,0,0,0,0,0,0,0,0,0] ++ [0,97,0]

def plainImage : LinuxELF := ⟨3,false,none,none,[['a']],[],[]⟩

def plainTable : StringTable := ⟨4244,3,⟨1,0,4096,151⟩⟩

set_option maxRecDepth 4000 in
def plainEncoding : Encoding plainFile plainImage where
  little := true
  headers := [⟨1,0,4096,151⟩,⟨2,116,4212,32⟩]
  entries := [(1,1),(5,4244),(10,3)]
  table := some plainTable
  phoff := 52
  stride := 32
  magic := by decide
  class_ := by decide
  order := by decide
  version := by decide
  long := by decide
  kind := by decide
  machine := by decide
  place := by decide
  room := by decide
  count := by
    show u16 true plainFile 44 = 2
    decide
  strides := by decide
  inFile := by decide
  header := by decide
  segments := by decide
  apart := by decide
  interpreter := rfl
  dynamic := by
    show 4 * 8 ≤ 32 ∧ (∀ i (h : i < 3), _) ∧ _
    decide
  strings := by
    refine ⟨by decide,by decide,List.mem_cons_self,by decide,by decide,by decide⟩
  needed := .cons ⟨plainTable,rfl,by decide,by decide,[],by decide⟩ .nil
  soname := rfl
  rpath := rfl
  runpath := rfl
  plain := by decide

set_option maxRecDepth 4000 in
theorem plain_read : (elf plainFile).result = .ok (some plainImage) :=
  elf_exact.2.2 plainFile plainImage plainEncoding (by decide) (by decide) (by decide)

def emptyImage : LinuxELF := ⟨0,false,none,none,[],[],[]⟩

/-- An object whose only program header is unused and holds no range of the file. -/
def unusedFile : List UInt8 :=
  [0x7f,0x45,0x4c,0x46,1,1,1,0,0,0,0,0,0,0,0,0,1,0,0,0,1,0,0,0,0,0,0,0,52,0,0,0,0,0,0,0,0,0,0,0,
    52,0,32,0,1,0,0,0,0,0,0,0] ++
  [0,0,0,0,255,255,255,255] ++ List.replicate 24 0

set_option maxRecDepth 4000 in
def unusedEncoding : Encoding unusedFile emptyImage where
  little := true
  headers := [⟨0,0xffffffff,0,0⟩]
  entries := []
  table := none
  phoff := 52
  stride := 32
  magic := by decide
  class_ := by decide
  order := by decide
  version := by decide
  long := by decide
  kind := by decide
  machine := by decide
  place := by decide
  room := by decide
  count := by
    show u16 true unusedFile 44 = 1
    decide
  strides := by decide
  inFile := by decide
  header := by decide
  segments := by decide
  apart := by decide
  interpreter := rfl
  dynamic := rfl
  strings := ⟨rfl,rfl⟩
  needed := .nil
  soname := rfl
  rpath := rfl
  runpath := rfl
  plain := by decide

/-- A file header and a section header that holds the number of program headers. -/
def manyHead : List UInt8 :=
  [0x7f,0x45,0x4c,0x46,1,1,1,0,0,0,0,0,0,0,0,0,1,0,0,0,1,0,0,0,0,0,0,0,92,0,0,0,52,0,0,0,0,0,0,0,
    52,0,32,0,255,255,40,0,1,0,0,0] ++
  List.replicate 28 0 ++ [255,255,0,0] ++ List.replicate 8 0

/-- The bytes of 65535 unused program headers. -/
@[irreducible] def manyTail : List UInt8 := List.replicate (65535 * 32) 0

def manyFile : List UInt8 := manyHead ++ manyTail

@[irreducible] def unusedHeaders (n : ℕ) : List Header := List.replicate n ⟨0,0,0,0⟩

theorem length_unused (n : ℕ) : (unusedHeaders n).length = n := by
  rw [unusedHeaders, List.length_replicate]

theorem mem_unused {n : ℕ} {h : Header} (member : h ∈ unusedHeaders n) : h = ⟨0,0,0,0⟩ := by
  rw [unusedHeaders] at member
  exact List.eq_of_mem_replicate member

theorem filter_unused (n : ℕ) {kind : ℕ} (used : kind ≠ 0) :
    (unusedHeaders n).filter (fun h => h.kind = kind) = [] := by
  rw [List.filter_eq_nil_iff]
  intro h member
  rw [mem_unused member]
  simpa using used.symm

theorem many_length : manyFile.length = 92 + 65535 * 32 := by
  rw [manyFile, List.length_append, manyTail, List.length_replicate]
  rfl

theorem many_front {place width : ℕ} (within : place + width ≤ 92) :
    slice manyFile place width = slice manyHead place width :=
  slice_front within

theorem many_zero {place : ℕ} (within : place + 4 ≤ 65535 * 32) :
    u32 true manyFile (92 + place) = 0 := by
  rw [u32, manyFile, show 92 = manyHead.length from rfl, slice_back, manyTail,
    slice_replicate 0 within, number_zeros]

set_option maxRecDepth 4000 in
theorem many_encoding : Nonempty (Encoding manyFile emptyImage) := ⟨{
    little := true
    headers := unusedHeaders 65535
    entries := []
    table := none
    phoff := 92
    stride := 32
    magic := by rw [many_front (by decide)]; decide
    class_ := by decide
    order := by decide
    version := by decide
    long := by rw [many_length]; decide
    kind := by rw [u16, many_front (by decide)]; decide
    machine := by rw [u16, many_front (by decide)]; decide
    place := by
      show u32 true manyFile 28 = 92
      rw [u32, many_front (by decide)]
      decide
    room := by
      show u16 true manyFile 42 = 32
      rw [u16, many_front (by decide)]
      decide
    count := by
      have counted : u16 true manyFile 44 = 0xffff := by
        rw [u16, many_front (by decide)]
        decide
      have place : word false true manyFile 40 32 = 52 := by
        show u32 true manyFile 32 = 52
        rw [u32, many_front (by decide)]
        decide
      have info : u32 true manyFile (52 + 28) = 65535 := by
        rw [u32, many_front (by decide)]
        decide
      rw [length_unused]
      simp only [CountIs]
      rw [if_neg (by decide)]
      refine ⟨counted,?_,?_⟩
      · rw [show emptyImage.wide = false from rfl, place, many_length]
        decide
      · rw [show emptyImage.wide = false from rfl, place]
        exact info
    strides := fun _ => by decide
    inFile := by rw [length_unused, many_length]
    header := by
      intro i inside
      rw [mem_unused (List.getElem_mem inside)]
      rw [length_unused] at inside
      constructor
      · exact many_zero (by omega)
      · show u32 true manyFile (92 + i * 32 + 4) = 0
        rw [Nat.add_assoc]
        exact many_zero (by omega)
      · show u32 true manyFile (92 + i * 32 + 8) = 0
        rw [Nat.add_assoc]
        exact many_zero (by omega)
      · show u32 true manyFile (92 + i * 32 + 16) = 0
        rw [Nat.add_assoc]
        exact many_zero (by omega)
    segments := by
      intro h member used
      rw [mem_unused member] at used
      exact absurd rfl used
    apart := by
      rw [filter_unused _ (by decide)]
      exact .nil
    interpreter := filter_unused _ (by decide)
    dynamic := by rw [filter_unused _ (by decide)]
    strings := ⟨rfl,rfl⟩
    needed := .nil
    soname := rfl
    rpath := rfl
    runpath := rfl
    plain := by decide}⟩

theorem many_refused : (elf manyFile).result = .error "Unsupported ELF program-header encoding" := by
  have small : manyFile.length ≤ maxSafe := by
    rw [many_length, maxSafe]
    omega
  have front : slice manyFile 0 (min 64 manyFile.length) = slice manyHead 0 64 := by
    rw [many_length, min_eq_left (by omega)]
    exact many_front (by omega)
  have form : encoding (slice manyHead 0 64) = .ok (false,true) := rfl
  have place : safeWord false true (slice manyHead 0 64) 32 28 = .ok 92 := rfl
  have many : u16 true (slice manyHead 0 64) 44 = 0xffff := by decide
  rw [elf_image small front (by decide) form (by decide), image_refused place many]
  rfl

/-- The reader fails on a file above the safe length although it has no magic, and on images with
65535 program headers or with an unused header that holds no range of the file. -/
theorem guards_refuse :
    (¬magic <+: List.replicate (maxSafe + 1) 0 ∧
      (elf (List.replicate (maxSafe + 1) 0)).result = .error "Oversize ELF input") ∧
    (Nonempty (Encoding manyFile emptyImage) ∧
      (elf manyFile).result = .error "Unsupported ELF program-header encoding") ∧
    (Nonempty (Encoding unusedFile emptyImage) ∧
      (elf unusedFile).result = .error "ELF segment escapes file") := by
  refine ⟨⟨?_,?_⟩,⟨many_encoding,many_refused⟩,⟨⟨unusedEncoding⟩,rfl⟩⟩
  · intro before
    have member := before.subset (show (0x7f : UInt8) ∈ magic from List.mem_cons_self)
    exact absurd (List.eq_of_mem_replicate member) (by decide)
  · rw [elf, List.length_replicate, if_pos (Nat.lt_succ_self _)]
    rfl

end Exactness

end ElfRoundTrip

end EvidenceV4
