import Mathlib.Data.List.Basic

/-!
# Fields between separators

A list of named contents is written as one sequence, with a separator behind
every name and every content and no lengths. It is read back when no part holds
the separator. A content that holds one can hide further names and contents.
Parts that are joined without names split again at every separator.
-/

set_option autoImplicit false

namespace SeparatedFields

variable {α : Type} {z : α}

abbrev Fields (α : Type) := List (List α × List α)

def written (z : α) (fields : Fields α) : List α :=
  fields.flatMap (fun field => field.1 ++ z :: (field.2 ++ [z]))

section Writing

variable {name content : List α} {rest fields : Fields α}

@[simp] theorem written_nil : written z [] = [] := rfl

@[simp] theorem written_cons :
    written z ((name,content) :: rest) = name ++ z :: (content ++ z :: written z rest) := by
  simp [written]

/-- What is written is empty or ends in a separator. -/
theorem written_closed (filled : fields ≠ []) : ∃ body, written z fields = body ++ [z] := by
  induction fields with
  | nil => exact absurd rfl filled
  | cons field rest ih =>
    obtain ⟨name,content⟩ := field
    cases rest with
    | nil => exact ⟨name ++ z :: content,by simp⟩
    | cons next rest =>
      obtain ⟨body,same⟩ := ih (List.cons_ne_nil _ _)
      exact ⟨name ++ z :: (content ++ z :: body),by rw [written_cons, same]; simp⟩

theorem written_behind (content : List α) (rest : Fields α) :
    ∃ body, content ++ z :: written z rest = body ++ [z] := by
  cases rest with
  | nil => exact ⟨content,rfl⟩
  | cons next rest =>
    obtain ⟨body,closed⟩ := @written_closed α z (next :: rest) (List.cons_ne_nil _ _)
    exact ⟨content ++ z :: body,by rw [closed]; simp⟩

end Writing

section Reading

variable {a b s t : List α}

theorem separated (ha : z ∉ a) (hb : z ∉ b) (same : a ++ z :: s = b ++ z :: t) : a = b ∧ s = t := by
  induction a generalizing b with
  | nil =>
    cases b with
    | nil => exact ⟨rfl,(List.cons.inj same).2⟩
    | cons d b => exact absurd ((List.cons.inj same).1 ▸ List.mem_cons_self) hb
  | cons c a ih =>
    cases b with
    | nil => exact absurd ((List.cons.inj same).1 ▸ List.mem_cons_self) ha
    | cons d b =>
      obtain ⟨rfl,later⟩ := List.cons.inj same
      obtain ⟨rfl,rfl⟩ := ih (fun m => ha (List.mem_cons_of_mem _ m))
        (fun m => hb (List.mem_cons_of_mem _ m)) later
      exact ⟨rfl,rfl⟩

def Free (z : α) (fields : Fields α) : Prop := ∀ field ∈ fields, z ∉ field.1 ∧ z ∉ field.2

/-- Fields without separators are read back. -/
theorem written_injective {fs gs : Fields α} (free : Free z fs) (free' : Free z gs)
    (same : written z fs = written z gs) : fs = gs := by
  induction fs generalizing gs with
  | nil =>
    cases gs with
    | nil => rfl
    | cons g gs =>
      obtain ⟨body,closed⟩ := @written_closed α z (g :: gs) (List.cons_ne_nil _ _)
      rw [closed] at same
      exact absurd same.symm (by simp)
  | cons f fs ih =>
    cases gs with
    | nil =>
      obtain ⟨body,closed⟩ := @written_closed α z (f :: fs) (List.cons_ne_nil _ _)
      rw [closed] at same
      exact absurd same (by simp)
    | cons g gs =>
      obtain ⟨name,content⟩ := f
      obtain ⟨name',content'⟩ := g
      obtain ⟨⟨named,held⟩,later⟩ := List.forall_mem_cons.mp free
      obtain ⟨⟨named',held'⟩,later'⟩ := List.forall_mem_cons.mp free'
      simp only [written_cons] at same named held named' held'
      obtain ⟨rfl,behind⟩ := separated named named' same
      obtain ⟨rfl,others⟩ := separated held held' behind
      rw [ih later later' others]

/-- Fields that are written as a single one are that one, or the others stand in its content. -/
theorem written_single {p c p' c' : List α} {rest : Fields α} (hp : z ∉ p) (hp' : z ∉ p')
    (same : written z ((p',c') :: rest) = written z [(p,c)]) :
    p' = p ∧ (rest = [] ∧ c' = c ∨
      ∃ q d rest' e, rest = (q,d) :: rest' ∧ c = c' ++ z :: (q ++ z :: e)) := by
  rw [written_cons, written_cons] at same
  obtain ⟨named,same⟩ := separated hp' hp same
  refine ⟨named,?_⟩
  cases rest with
  | nil => exact .inl ⟨rfl,List.append_cancel_right same⟩
  | cons field rest =>
    obtain ⟨q,d⟩ := field
    obtain ⟨body,closed⟩ := @written_behind α z d rest
    refine .inr ⟨q,d,rest,body,rfl,?_⟩
    rw [written_cons, closed, written_nil] at same
    have ended : c' ++ z :: (q ++ z :: body) ++ [z] = c ++ [z] := by
      rw [← same]
      simp
    exact (List.append_cancel_right ended).symm

/-- Two fields are written as one whose content holds the second. -/
theorem written_merged (p c q d : List α) (rest : Fields α) :
    ∃ e, written z ((p,c) :: (q,d) :: rest) = written z [(p,c ++ z :: (q ++ z :: e))] := by
  obtain ⟨body,closed⟩ := @written_behind α z d rest
  exact ⟨body,by rw [written_cons, written_cons, closed]; simp⟩

end Reading

section Pieces

theorem splitOn_apart [BEq α] [LawfulBEq α] (z : α) (text : List α) :
    ∀ part ∈ text.splitOn z, z ∉ part := by
  induction text with
  | nil => simp
  | cons c text ih =>
    rw [List.splitOn_cons_eq_if_modifyHead]
    by_cases same : (c == z) = true
    · rw [if_pos same]
      exact List.forall_mem_cons.mpr ⟨List.not_mem_nil,ih⟩
    · rw [if_neg same]
      cases parts : text.splitOn z with
      | nil => exact absurd parts (List.splitOn_ne_nil z text)
      | cons first rest =>
        rw [parts] at ih
        obtain ⟨now,later⟩ := List.forall_mem_cons.mp ih
        show ∀ part ∈ (c :: first) :: rest, z ∉ part
        refine List.forall_mem_cons.mpr ⟨fun within => ?_,later⟩
        rcases List.mem_cons.mp within with rfl | within
        · exact same (beq_self_eq_true _)
        · exact now within

/-- Joined parts are the parts of both sides. -/
theorem intercalate_append {a b : List (List α)} (left : a ≠ []) (right : b ≠ []) :
    [z].intercalate a ++ z :: [z].intercalate b = [z].intercalate (a ++ b) := by
  induction a with
  | nil => exact absurd rfl left
  | cons first rest ih =>
    cases rest with
    | nil => simp [List.intercalate_cons_of_ne_nil right]
    | cons second rest =>
      have step := ih (by simp)
      have behind : second :: rest ++ b ≠ [] := by simp
      rw [List.cons_append, List.intercalate_cons_cons, List.intercalate_cons_of_ne_nil behind,
        ← step]
      simp

theorem length_intercalate (parts : List (List α)) :
    parts.length ≤ ([z].intercalate parts).length + 1 := by
  induction parts with
  | nil => simp
  | cons first rest ih =>
    cases rest with
    | nil => simp
    | cons second rest =>
      rw [List.intercalate_cons_cons]
      simp only [List.length_cons, List.length_append] at ih ⊢
      omega

end Pieces

end SeparatedFields
