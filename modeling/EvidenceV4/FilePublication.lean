import EvidenceV4.RetainedFiles
import EvidenceV4.Transaction

/-!
# Publication of one immutable file

A file is staged, linked to its place, and loses its staging name before the
publication is acknowledged. It may fail before the link, between link and
unlink, or while the result is made durable. A place is written once.
-/

set_option autoImplicit false

namespace EvidenceV4

open CheckedExcept

/-- How far one publication gets. -/
inductive WriteOutcome where
  | failed | linked | unsynced | durable
  deriving DecidableEq

/-- The store with one more file. -/
def Store.insert (s : Store) (f : File) (fresh : RetainedFiles.lookup s f.path = none) : Store where
  files := s.files ++ [f]
  distinct := by
    rw [List.map_append, List.nodup_append]
    refine ⟨s.distinct,List.nodup_singleton _,?_⟩
    intro p hp q hq e
    obtain ⟨g,hg,rfl⟩ := List.mem_map.mp hp
    obtain rfl : q = f.path := by simpa using hq
    have absent := List.find?_eq_none.mp fresh g hg
    exact absent (by simpa using e)

namespace RetainedFiles

variable {s : Store} {f : File} {p : Path}

theorem lookup_insert (fresh : lookup s f.path = none) :
    lookup (s.insert f fresh) p = if p = f.path then some f else lookup s p := by
  rw [lookup, Store.insert, List.find?_append]
  split
  · next e =>
    subst e
    simp [show s.files.find? (fun g => decide (g.path = f.path)) = none from fresh]
  · next ne =>
    simp [Ne.symm ne, lookup]

theorem insert_extends (fresh : lookup s f.path = none) (outside : OutsideCommitted s f.path) :
    Extends s (s.insert f fresh) :=
  have alone : ∀ g ∈ [f], OutsideCommitted s g.path := by simpa using outside
  extends_append rfl alone

variable (D : Digests)

/-- The links of the file once the publication has got this far. -/
def linksAfter : WriteOutcome → ℕ
  | .failed => 0
  | .linked => 2
  | .unsynced => 1
  | .durable => 1

def immutableFile (outcome : WriteOutcome) (path : Path) (bytes : Bytes) :
    Transaction Store FileRef := fun s =>
  if fresh : lookup s path = none then
    if outcome = .failed then (.error ("publication failed: " ++ pathText path),s)
    else
      (if outcome = .durable then .ok ⟨path,D.bytes bytes,D.size bytes⟩
        else .error ("publication interrupted: " ++ pathText path),
        s.insert ⟨path,bytes,linksAfter outcome⟩ fresh)
  else (.error ("EEXIST: file already exists, link '" ++ pathText path ++ "'"),s)

def writeImmutableJSON (outcome : WriteOutcome) (path : Path) (content : Content) :
    Transaction Store FileRef :=
  immutableFile D outcome path (canonical content)

/-- A publication that gets as far as the link has added its file. -/
theorem immutableFile_visible {outcome : WriteOutcome} {path : Path} {bytes : Bytes}
    (fresh : lookup s path = none) (visible : outcome ≠ .failed) :
    immutableFile D outcome path bytes s =
      (if outcome = .durable then .ok ⟨path,D.bytes bytes,D.size bytes⟩
        else .error ("publication interrupted: " ++ pathText path),
        s.insert ⟨path,bytes,linksAfter outcome⟩ fresh) := by
  rw [immutableFile, dif_pos fresh, if_neg visible]

/-- A publication leaves the store as it was or adds its file at a free place. -/
theorem immutableFile_cases (outcome : WriteOutcome) (path : Path) (bytes : Bytes) (s : Store) :
    ((immutableFile D outcome path bytes s).2 = s ∧
      ∃ message, (immutableFile D outcome path bytes s).1 = .error message) ∨
    ∃ fresh : lookup s path = none, outcome ≠ .failed ∧
      (immutableFile D outcome path bytes s).2 =
        s.insert ⟨path,bytes,linksAfter outcome⟩ fresh ∧
      ∀ r, (immutableFile D outcome path bytes s).1 = .ok r ↔
        outcome = .durable ∧ r = ⟨path,D.bytes bytes,D.size bytes⟩ := by
  unfold immutableFile
  split
  · next fresh =>
    cases outcome with
    | failed => exact Or.inl ⟨rfl,_,rfl⟩
    | linked | unsynced => exact Or.inr ⟨fresh,by simp,rfl,fun _ => ⟨nofun,nofun⟩⟩
    | durable =>
      exact Or.inr ⟨fresh,by simp,rfl,fun r => ⟨fun e => ⟨rfl,(Except.ok.inj e).symm⟩,
        fun e => e.2 ▸ rfl⟩⟩
  · exact Or.inl ⟨rfl,_,rfl⟩

/-- Every file below a place is stable, and is made durable. -/
def fsyncTree (inside : Path → Bool) : Transaction Store Unit :=
  Transaction.reading (fun s => do
    let _ ← walk s inside
    pure ())

end RetainedFiles

end EvidenceV4
