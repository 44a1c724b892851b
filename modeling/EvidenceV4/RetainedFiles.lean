import EvidenceV4.StoreDocument

/-!
# Files of the retained store

A store is a finite set of regular producer-owned files at distinct places. A
file under publication has a second link from its staging name until that name
is removed, and every reader refuses it meanwhile. Files are immutable: a store
extends another when the files that could be read there are unchanged.
-/

set_option autoImplicit false

namespace EvidenceV4

open CheckedExcept

structure File where
  path : Path
  content : Bytes
  links : ℕ
  deriving DecidableEq

structure Store where
  files : List File
  distinct : (files.map File.path).Nodup

namespace RetainedFiles

def base : String := ".fv/evidence/v4"

/-- The decimal digits of a number, filled with zeros to twenty places. -/
def sequenceName (sequence : ℕ) : String :=
  String.ofList (List.replicate (20-(toString sequence).length) '0') ++ toString sequence ++ ".json"

def pathText : Path → String
  | .history sequence => base ++ "/history/" ++ sequenceName sequence
  | .execution key attempt name =>
    String.intercalate "/"
      ([base,"executions",String.ofList (key.toList.drop 7),attempt] ++ name)
  | .recoveredOwner ownerId => base ++ "/recovered-owners/" ++ ownerId ++ ".json"
  | .observation run claim request name =>
    String.intercalate "/" [base,"runs",run,"observations",claim,request,name]
  | .claim run claim => String.intercalate "/" [base,"runs",run,"claims",claim ++ ".json"]
  | .run run => String.intercalate "/" [base,"runs",run,"run.json"]
  | .other text => text

/-- A check that fails as the store fails. -/
def require (condition : Prop) [Decidable condition] (message : String) : Except String Unit :=
  check condition ("v4 store: " ++ message)

@[simp] theorem require_ok (condition : Prop) [Decidable condition] (message : String) (r : Unit) :
    require condition message = .ok r ↔ condition :=
  check_ok condition _ r

def lookup (s : Store) (p : Path) : Option File := s.files.find? (fun f => f.path = p)

variable {s s' s'' : Store} {p : Path} {f : File}

theorem lookup_path (h : lookup s p = some f) : f.path = p := by
  simpa using List.find?_some h

theorem lookup_mem (h : lookup s p = some f) : f ∈ s.files := List.mem_of_find?_eq_some h

theorem lookup_of_mem (h : f ∈ s.files) : lookup s f.path = some f := by
  cases found : lookup s f.path with
  | none => simpa using List.find?_eq_none.mp found f h
  | some g =>
    have e : g.path = f.path := lookup_path found
    rw [List.inj_on_of_nodup_map s.distinct (lookup_mem found) h e]

def readBytes (s : Store) (p : Path) : Except String Bytes :=
  match lookup s p with
  | none => throw ("ENOENT: no such file or directory, lstat '" ++ pathText p ++ "'")
  | some f => do
    require (f.links = 1) ("nonregular or hardlinked output: " ++ pathText p)
    pure f.content

@[simp] theorem readBytes_ok {b : Bytes} : readBytes s p = .ok b ↔ lookup s p = some ⟨p,b,1⟩ := by
  unfold readBytes
  cases found : lookup s p with
  | none => simp
  | some f =>
    obtain ⟨path,content,links⟩ := f
    have e : path = p := lookup_path found
    subst e
    simp [and_comm]

/-- All files at places that satisfy the predicate, each with its staging name removed. -/
def walk (s : Store) (inside : Path → Bool) : Except String (List Path) := do
  let files := s.files.filter (fun f => inside f.path)
  forM files (fun f => require (f.links = 1) ("unsafe stored entry: " ++ pathText f.path))
  pure (files.map File.path)

def underExecution (key : Hash) (attempt : UUID) : Path → Bool
  | .execution k a _ => k == key && a == attempt
  | _ => false

def executionFiles (s : Store) (key : Hash) (attempt : UUID) : List File :=
  s.files.filter (fun f => underExecution key attempt f.path)

def executionPath (key : Hash) (attempt : UUID) : Path := .execution key attempt ["execution.json"]

def Committed (s : Store) (key : Hash) (attempt : UUID) : Prop :=
  (lookup s (executionPath key attempt)).isSome

/-- Files that could be read keep their bytes, and committed directories are sealed. -/
structure Extends (s s' : Store) : Prop where
  kept : ∀ p b, readBytes s p = .ok b → readBytes s' p = .ok b
  closed : ∀ key attempt, Committed s key attempt →
    executionFiles s' key attempt = executionFiles s key attempt

theorem extends_refl (s : Store) : Extends s s := ⟨fun _ _ h => h,fun _ _ _ => rfl⟩

theorem extends_committed (h : Extends s s') {key : Hash} {attempt : UUID}
    (hc : Committed s key attempt) : Committed s' key attempt := by
  obtain ⟨f,hf⟩ := Option.isSome_iff_exists.mp hc
  have hm : f ∈ executionFiles s key attempt := by
    have hu : underExecution key attempt f.path = true := by
      simp [lookup_path hf, executionPath, underExecution]
    exact List.mem_filter.mpr ⟨lookup_mem hf,hu⟩
  rw [← h.closed key attempt hc] at hm
  have found := lookup_of_mem (List.mem_filter.mp hm).1
  rw [lookup_path hf] at found
  exact Option.isSome_iff_exists.mpr ⟨f,found⟩

theorem extends_trans (h : Extends s s') (h' : Extends s' s'') : Extends s s'' where
  kept p b hr := h'.kept p b (h.kept p b hr)
  closed key attempt hc :=
    (h'.closed key attempt (extends_committed h hc)).trans (h.closed key attempt hc)

instance (s : Store) (key : Hash) (attempt : UUID) : Decidable (Committed s key attempt) :=
  inferInstanceAs (Decidable (_ = true))

/-- A file at this place enters no committed execution directory. -/
def OutsideCommitted (s : Store) : Path → Prop
  | .execution key attempt _ => ¬ Committed s key attempt
  | _ => True

instance (s : Store) : (p : Path) → Decidable (OutsideCommitted s p)
  | .execution _ _ _ => inferInstanceAs (Decidable (¬ _))
  | .history _ | .recoveredOwner _ | .observation _ _ _ _ | .claim _ _ | .run _ | .other _ =>
    inferInstanceAs (Decidable True)

/-- Adding files outside the committed directories extends a store. -/
theorem extends_append {more : List File} (h : s'.files = s.files ++ more)
    (outside : ∀ f ∈ more, OutsideCommitted s f.path) : Extends s s' where
  kept p b hr := by
    rw [readBytes_ok] at hr ⊢
    rw [lookup, h, List.find?_append]
    simp [show s.files.find? (fun f => decide (f.path = p)) = some ⟨p,b,1⟩ from hr]
  closed key attempt hc := by
    rw [executionFiles, executionFiles, h, List.filter_append]
    have none : more.filter (fun f => underExecution key attempt f.path) = [] := by
      refine List.filter_eq_nil_iff.mpr (fun f hf under => ?_)
      have apart := outside f hf
      cases hp : f.path <;> simp only [hp, underExecution, Bool.false_eq_true] at under
      simp only [Bool.and_eq_true, beq_iff_eq] at under
      rw [hp, under.1, under.2] at apart
      exact apart hc
    rw [none, List.append_nil]

variable (D : Digests)

def readFileRef (s : Store) (reference : FileRef) : Except String Bytes := do
  let bytes ← readBytes s reference.path
  require (D.size bytes = reference.size ∧ D.bytes bytes = reference.hash)
    ("reference bytes mismatch: " ++ pathText reference.path)
  pure bytes

theorem readFileRef_ok {reference : FileRef} {b : Bytes} :
    readFileRef D s reference = .ok b ↔
      readBytes s reference.path = .ok b ∧ D.size b = reference.size ∧
        D.bytes b = reference.hash := by
  simp only [readFileRef, bind_ok, require_ok, pure_ok]
  constructor
  · rintro ⟨b',hr,_,hb,rfl⟩
    exact ⟨hr,hb⟩
  · rintro ⟨hr,hb⟩
    exact ⟨b,hr,⟨⟩,hb,rfl⟩

theorem readFileRef_stable (reference : FileRef) :
    Stable Extends (fun s => readFileRef D s reference) := by
  intro s s' b h hr
  rw [readFileRef_ok] at hr ⊢
  exact ⟨h.kept _ _ hr.1,hr.2⟩

def canonicalRef (path : Path) (content : Content) : FileRef :=
  ⟨path,D.bytes (canonical content),D.size (canonical content)⟩

/-- The document of one kind that a byte string decodes to. -/
def decoded {α : Type} (name : String) (select : Content → Option α) (b : Bytes) :
    Except String α :=
  match select b.content with
  | some x => pure x
  | none => throw (name ++ ": expected object")

@[simp] theorem decoded_ok {α : Type} {name : String} {select : Content → Option α} {b : Bytes}
    {x : α} : decoded name select b = .ok x ↔ select b.content = some x := by
  unfold decoded
  cases select b.content <;> simp

def asEvent : Bytes → Except String HistoryEvent :=
  decoded "HistoryEvent" (fun | .event e => some e | _ => none)

def asExecution : Bytes → Except String ExecutionArtifact :=
  decoded "ExecutionArtifact" (fun | .execution a => some a | _ => none)

def asOwner : Bytes → Except String OwnerRecord :=
  decoded "Owner" (fun | .owner o => some o | _ => none)

def asRequest : Bytes → Except String ObservationRequest :=
  decoded "ObservationRequest" (fun | .request r => some r | _ => none)

def asResponse : Bytes → Except String ObservationResponse :=
  decoded "ObservationResponse" (fun | .response r => some r | _ => none)

def asCheck : Bytes → Except String ObservationCheck :=
  decoded "ObservationCheck" (fun | .check c => some c | _ => none)

def asClaim : Bytes → Except String ClaimRecord :=
  decoded "ClaimRecord" (fun | .claim c => some c | _ => none)

theorem asEvent_ok {b : Bytes} {e : HistoryEvent} :
    asEvent b = .ok e ↔ b.content = .event e := by
  rw [asEvent, decoded_ok]
  cases b.content <;> simp

end RetainedFiles

end EvidenceV4
