import EvidenceV4.CanonicalJson
import EvidenceV4.LoggedReads
import Mathlib.Algebra.Group.Nat.Defs

/-!
# The reader of ELF metadata

The reader takes the file header, the program headers, the interpreter, the
dynamic entries and their strings from a regular file that does not change. A
number of 64 bits is refused above the greatest safe integer, and every range is
checked against the length of the file before it is read.
-/

set_option autoImplicit false

namespace EvidenceV4

namespace ElfReader

open CanonicalJson (decodeUTF8)
open LoggedReads

abbrev Text := List Char

/-- The metadata of an image, where `wide` says that it has 64 bits. -/
structure LinuxELF where
  machine : ℕ
  wide : Bool
  interpreter : Option Text
  soname : Option Text
  needed : List Text
  rpath : List Text
  runpath : List Text
  deriving DecidableEq

def maxSafe : ℕ := 2 ^ 53 - 1

abbrev Parse := Reading String

section Numbers

def safe (n : ℕ) : Except String ℕ :=
  if n ≤ maxSafe then pure n else throw "Oversize ELF metadata"

/-- `read`, which refuses a range that is not in the file. -/
def read (file : List UInt8) (offset length : ℕ) : Parse (List UInt8) :=
  readAt file (decide (offset ≤ maxSafe ∧ length ≤ maxSafe)) "ELF metadata escapes file" offset length

def u16 (little : Bool) (bytes : List UInt8) (offset : ℕ) : ℕ := number little (slice bytes offset 2)

def u32 (little : Bool) (bytes : List UInt8) (offset : ℕ) : ℕ := number little (slice bytes offset 4)

def u64 (little : Bool) (bytes : List UInt8) (offset : ℕ) : ℕ := number little (slice bytes offset 8)

/-- A word of the class of the image, as a safe integer. -/
def safeWord (wide little : Bool) (bytes : List UInt8) (at64 at32 : ℕ) : Except String ℕ :=
  if wide then safe (u64 little bytes at64) else pure (u32 little bytes at32)

def word (wide little : Bool) (bytes : List UInt8) (at64 at32 : ℕ) : ℕ :=
  if wide then u64 little bytes at64 else u32 little bytes at32

end Numbers

section Programs

structure Load where
  address : ℕ
  offset : ℕ
  size : ℕ
  deriving DecidableEq

/-- What the loop over the program headers has seen. -/
structure Programs where
  loads : List Load
  interpreter : Option Text
  dynamic : Option (ℕ × ℕ)

/-- The text before the first zero byte. -/
def decode (bytes : List UInt8) : Except String Text :=
  if 0 ∈ bytes then decodeUTF8 (bytes.takeWhile (· ≠ 0)) else throw "Unterminated ELF string"

structure Header where
  kind : ℕ
  offset : ℕ
  address : ℕ
  length : ℕ

def header (wide little : Bool) (programs : List UInt8) (base : ℕ) : Except String Header := do
  let offset ← safeWord wide little programs (base + 8) (base + 4)
  let length ← safeWord wide little programs (base + 32) (base + 16)
  pure ⟨u32 little programs base,offset,word wide little programs (base + 16) (base + 8),length⟩

def program (file : List UInt8) (state : Programs) (h : Header) : Parse Programs :=
  if file.length < h.offset + h.length then fail "ELF segment escapes file"
  else if h.kind = 1 then
    pure { state with loads := state.loads ++ [⟨h.address,h.offset,h.length⟩] }
  else if h.kind = 2 then
    if state.dynamic.isSome then fail "Duplicate ELF dynamic segment"
    else pure { state with dynamic := some (h.offset,h.length) }
  else if h.kind = 3 then
    -- An empty interpreter counts as none.
    if state.interpreter.any (· ≠ []) then fail "Duplicate ELF interpreter"
    else do
      let bytes ← read file h.offset h.length
      let interpreter ← settle (decode bytes)
      pure { state with interpreter := some interpreter }
  else pure state

def programAt (file : List UInt8) (wide little : Bool) (programs : List UInt8) (stride : ℕ)
    (state : Programs) (index : ℕ) : Parse Programs := do
  let h ← settle (header wide little programs (index * stride))
  program file state h

end Programs

section Dynamic

/-- What the loop over the dynamic entries has seen. -/
structure Dynamic where
  needed : List ℕ
  soname : Option ℕ
  rpath : Option ℕ
  runpath : Option ℕ
  address : Option ℕ
  size : ℕ

def entry (state : Dynamic) (tag raw : ℕ) : Except String Dynamic :=
  if tag = 1 then do
    let offset ← safe raw
    pure { state with needed := state.needed ++ [offset] }
  else if tag = 5 then pure { state with address := some raw }
  else if tag = 10 then do
    let size ← safe raw
    pure { state with size := size }
  else if tag = 14 then do
    let offset ← safe raw
    pure { state with soname := some offset }
  else if tag = 15 then do
    let offset ← safe raw
    pure { state with rpath := some offset }
  else if tag = 29 then do
    let offset ← safe raw
    pure { state with runpath := some offset }
  else pure state

/-- The loop over so many whole entries, up to the one with the tag zero. -/
def entries (wide little : Bool) (bytes : List UInt8) : ℕ → ℕ → Dynamic → Except String Dynamic
  | 0, _, _ => throw "Unterminated ELF dynamic segment"
  | left + 1, offset, state => do
    let tag := word wide little bytes offset offset
    let raw := word wide little bytes (offset + 8) (offset + 4)
    if tag = 0 then pure state
    else do
      let state ← entry state tag raw
      entries wide little bytes left (offset + if wide then 16 else 8) state

def noDynamic : Dynamic := ⟨[],none,none,none,none,0⟩

def dynamic (file : List UInt8) (wide little : Bool) : Option (ℕ × ℕ) → Parse Dynamic
  | none => pure noDynamic
  | some (offset,size) => do
    let bytes ← read file offset size
    settle (entries wide little bytes (bytes.length / if wide then 16 else 8) 0 noDynamic)

/-- The loop over chunks of a string; it is left when nothing remains. -/
def chunks (file : List UInt8) (begin_ remaining : ℕ) : ℕ → ℕ → List UInt8 → Parse Text
  | 0, _, _ => fail "Unterminated ELF dynamic string"
  | more + 1, consumed, done =>
    if consumed < remaining then do
      let bytes ← read file (begin_ + consumed) (min 1024 (remaining - consumed))
      if 0 ∈ bytes then settle (decodeUTF8 (done ++ bytes.takeWhile (· ≠ 0)))
      else chunks file begin_ remaining more (consumed + bytes.length) (done ++ bytes)
    else fail "Unterminated ELF dynamic string"

def string (file : List UInt8) (loads : List Load) (d : Dynamic) (offset : ℕ) : Parse Text :=
  match d.address with
  | none => fail "Missing ELF dynamic string table"
  | some address =>
    if d.size ≤ offset then fail "Missing ELF dynamic string table"
    else
      match loads.find? (fun load => load.address ≤ address ∧ address < load.address + load.size) with
      | none => fail "ELF dynamic string table is not file-backed"
      | some segment => do
        let within ← settle (safe (address - segment.address))
        chunks file (segment.offset + within + offset) (d.size - offset) (d.size - offset) 0 []

/-- The string at an offset, if there is one. -/
def optional (read : ℕ → Parse Text) : Option ℕ → Parse (Option Text)
  | none => pure none
  | some offset => do
    let text ← read offset
    pure (some text)

def paths (text : Option Text) : List Text := (text.map (·.splitOn ':')).getD []

end Dynamic

section File

def magic : List UInt8 := [0x7f,0x45,0x4c,0x46]

/-- The image behind the checks of the file header. -/
def image (file : List UInt8) (wide little : Bool) (head : List UInt8) : Parse LinuxELF := do
  let phoff ← settle (safeWord wide little head 32 28)
  let stride := u16 little head (if wide then 54 else 42)
  let count := u16 little head (if wide then 56 else 44)
  if count = 0xffff ∨ count ≠ 0 ∧ stride < (if wide then 56 else 32) then
    fail "Unsupported ELF program-header encoding"
  else do
    let programs ← read file phoff (stride * count)
    let seen ← (List.range count).foldlM (programAt file wide little programs stride) ⟨[],none,none⟩
    let d ← dynamic file wide little seen.dynamic
    let string := string file seen.loads d
    let needed ← each string d.needed
    let soname ← optional string d.soname
    let rpath ← optional string d.rpath
    let runpath ← optional string d.runpath
    pure ⟨u16 little head 18,wide,seen.interpreter,soname,needed,paths rpath,paths runpath⟩

def encoding (head : List UInt8) : Except String (Bool × Bool) :=
  let class_ := head.getD 4 0
  let order := head.getD 5 0
  if class_ ∉ [1,2] ∨ order ∉ [1,2] ∨ head.getD 6 0 ≠ 1 ∨
      head.length < (if class_ = 2 then 64 else 52) then
    throw "Unsupported ELF encoding"
  else pure (class_ = 2,order = 1)

/-- `ELFReader.read` of a regular file that does not change. -/
def elf (file : List UInt8) : Parse (Option LinuxELF) :=
  if maxSafe < file.length then fail "Oversize ELF input"
  else do
    let head ← read file 0 (min 64 file.length)
    if magic.isPrefixOf head then do
      let (wide,little) ← settle (encoding head)
      if u16 little head 16 ∉ [1,2,3] then fail "Unsupported ELF image type"
      else do
        let image ← image file wide little head
        pure (some image)
    else pure none

end File

end ElfReader

end EvidenceV4
