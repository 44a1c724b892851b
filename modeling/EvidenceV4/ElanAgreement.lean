import EvidenceV4.AncestorWalk
import EvidenceV4.CheckedExcept
import EvidenceV4.LeanSelection
import Mathlib.Algebra.Order.BigOperators.Group.List
import Mathlib.Algebra.Order.Group.Nat

/-!
# Agreement with the choice of elan

Elan takes the toolchain of the argument, else of the environment, else walks up
from the working directory to the first directory with an override or a pin
file. The adapter finds overrides and pins apart and prefers the override. The
two agree, however the overrides are spelled and ordered, under three conditions
on the overrides that cover the working directory and on the nearest pin.
-/

set_option autoImplicit false

namespace EvidenceV4

namespace ElanAgreement

open AncestorWalk
open CheckedExcept
open JsonText (CodeUnit)
open LeanSelection
open ProducerArtifact (units)
open ScalarText (JsString)
open SeparatedFields (length_intercalate)
open ToolPaths

section Spelling

variable {p base : Directory}

/-- An absolute path with as many slashes behind it as one likes. -/
def spelled (p : Directory) (slashes : Nat) : JsString :=
  slash :: [slash].intercalate (p ++ List.replicate (slashes + 1) [])

theorem resolve_spelled (named : ∀ x ∈ p, IsName x) (slashes : Nat) :
    resolve base (spelled p slashes) = p := by
  have whole : ∀ part ∈ p ++ List.replicate (slashes + 1) [], slash ∉ part := by
    intro part member
    rcases List.mem_append.mp member with member | member
    · exact (named part member).2.1
    · simp [List.eq_of_mem_replicate member]
  have blanks : ∀ (k : Nat) (start : Directory),
      (List.replicate k ([] : JsString)).foldl enter start = start := by
    intro k
    induction k with
    | zero => simp
    | succ k ih => simp [List.replicate_succ, enter, ih]
  rw [resolve, spelled, splitOn_path (by simp) whole, List.foldl_cons, List.foldl_append, blanks,
    List.head?_cons, if_pos rfl, enter, if_pos (.inl rfl), foldl_enter_named named, List.nil_append]

theorem length_spelled (p : Directory) (slashes : Nat) : slashes < (spelled p slashes).length := by
  have grows := @length_intercalate _ slash (p ++ List.replicate (slashes + 1) [])
  simp only [List.length_append, List.length_replicate] at grows
  simp only [spelled, List.length_cons]
  omega

end Spelling

section Search

variable {pins : Directory → Option (List Char)} {cwd q : Directory} {text : List Char}

theorem ancestorFile_up (cwd : Directory) (n : JsString) : ancestorFile pins (cwd ++ [n]) =
    ((pins (cwd ++ [n])).map (fun text => (cwd ++ [n],text)) <|> ancestorFile pins cwd) := by
  have split : ancestors (cwd ++ [n]) = (cwd ++ [n]) :: ancestors cwd := by
    simp [ancestors, List.inits_append]
  rw [ancestorFile, split, List.findSome?_cons]
  cases pins (cwd ++ [n]) with
  | none => rfl
  | some text => rfl

theorem ancestorFile_some : ancestorFile pins cwd = some (q,text) ↔ q <+: cwd ∧
    pins q = some text ∧ ∀ x, q <+: x → x <+: cwd → x ≠ q → pins x = none := by
  induction cwd using List.reverseRecOn with
  | nil =>
    have root : ancestorFile pins [] = (pins []).map (fun text => ([],text)) := by
      cases found : pins [] <;> simp [ancestorFile, ancestors, found]
    rw [root, Option.map_eq_some_iff, List.prefix_nil]
    constructor
    · rintro ⟨read,found,same⟩
      cases same
      exact ⟨rfl,found,fun x _ high apart => absurd (List.prefix_nil.mp high) apart⟩
    · rintro ⟨rfl,found,_⟩
      exact ⟨text,found,rfl⟩
  | append_singleton cwd n ih =>
    rw [ancestorFile_up]
    cases found : pins (cwd ++ [n]) with
    | none =>
      show ancestorFile pins cwd = some (q,text) ↔ _
      rw [ih]
      constructor
      · rintro ⟨within,read,lower⟩
        refine ⟨within.trans (List.prefix_append _ _),read,fun x low high apart => ?_⟩
        rcases List.prefix_concat_iff.mp high with same | high
        · exact same ▸ found
        · exact lower x low high apart
      · rintro ⟨within,read,lower⟩
        rcases List.prefix_concat_iff.mp within with same | within
        · rw [same, found] at read
          cases read
        · exact ⟨within,read,fun x low high apart =>
            lower x low (high.trans (List.prefix_append _ _)) apart⟩
    | some near =>
      show some (cwd ++ [n],near) = some (q,text) ↔ _
      constructor
      · intro same
        cases same
        exact ⟨List.prefix_rfl,found,fun x low high apart =>
          absurd (high.eq_of_length (le_antisymm high.length_le low.length_le)) apart⟩
      · rintro ⟨within,read,lower⟩
        by_cases same : cwd ++ [n] = q
        · rw [same] at found ⊢
          rw [Option.some.inj (found.symm.trans read)]
        · rw [lower _ within List.prefix_rfl same] at found
          cases found

theorem ancestorFile_none (none_found : ancestorFile pins cwd = none) (within : q <+: cwd) :
    pins q = none := by
  induction cwd using List.reverseRecOn with
  | nil =>
    rw [List.prefix_nil.mp within]
    cases found : pins [] with
    | none => rfl
    | some text => simp [ancestorFile, ancestors, found] at none_found
  | append_singleton cwd n ih =>
    rw [ancestorFile_up] at none_found
    cases found : pins (cwd ++ [n]) with
    | some text => simp [found] at none_found
    | none =>
      rcases List.prefix_concat_iff.mp within with same | within
      · exact same ▸ found
      · exact ih (by simpa [found] using none_found) within

end Search

section Choice

variable {toolchain environment : Option JsString} {pins : Directory → Option (List Char)}
  {base cwd : Folder} {overrides other : OrderedRecord.Entries JsString JsString}
  {p q : Directory} {selection token text : JsString}

/-- An override stands at the directory that its name denotes. -/
def Placed (base : Folder) (overrides : OrderedRecord.Entries JsString JsString) (p : Directory)
    (token : JsString) : Prop :=
  ∃ name, (name,token) ∈ overrides ∧ resolve base.names name = p

def pinAt (pins : Directory → Option (List Char)) (p : Directory) : Option JsString :=
  (pins p).map (fun text => jsUnits (trim text))

/-- The choice of elan: the argument, else the environment, else the nearest directory that has
an override or a pin file, where the override wins. -/
def ElanChooses (toolchain environment : Option JsString) (pins : Directory → Option (List Char))
    (base cwd : Folder) (overrides : OrderedRecord.Entries JsString JsString)
    (selection : JsString) : Prop :=
  match toolchain <|> environment with
  | some token => selection = token
  | none => Nearest (Placed base overrides) (pinAt pins) cwd.names selection

/-- The same overrides, spelled and ordered in another way. -/
structure Respelled (base : Folder) (overrides other : OrderedRecord.Entries JsString JsString) :
    Prop where
  keys : (other.map Prod.fst).Nodup
  same : ∀ p token, Placed base other p token ↔ Placed base overrides p token

structure Agrees (pins : Directory → Option (List Char)) (base cwd : Folder)
    (overrides : OrderedRecord.Entries JsString JsString) : Prop where
  tokens : ∀ p q s t, Placed base overrides p s → Covers p cwd.names →
    Placed base overrides q t → Covers q cwd.names → s = t
  nearer : ∀ q text p token, ancestorFile pins cwd.names = some (q,text) →
    Placed base overrides p token → Covers p cwd.names →
    (∀ x t, Placed base overrides x t → Covers x cwd.names → x.length < q.length) →
    token = jsUnits (trim text)
  root : ∀ text, ancestorFile pins cwd.names = some ([],text) →
    (∀ p token, Placed base overrides p token → ¬Covers p cwd.names) →
    (∃ token, Placed base overrides [] token) → Placed base overrides [] (jsUnits (trim text))

theorem covers_path (covers : Covers p q) : p <+: q := by
  rcases covers with same | ⟨_,within⟩
  · exact same ▸ List.prefix_rfl
  · exact within

theorem inside_placed (placed : resolve base.names token = p) :
    inside (render (resolve base.names token)) (render cwd.names) = true ↔ Covers p cwd.names := by
  rw [← placed]
  exact inside_render (resolve_named base.named) cwd.named

theorem override_placed (found : overrideOf base.names cwd.names overrides = some token) :
    ∃ p, Placed base overrides p token ∧ Covers p cwd.names := by
  have ⟨⟨name,_⟩,first,same⟩ := Option.map_eq_some_iff.mp found
  cases same
  have covers := List.find?_some first
  have member := (List.mem_insertionSort _).mp (List.mem_of_find?_eq_some first)
  exact ⟨_,⟨name,member,rfl⟩,(inside_placed rfl).mp covers⟩

theorem override_none : overrideOf base.names cwd.names overrides = none ↔
    ∀ p token, Placed base overrides p token → ¬Covers p cwd.names := by
  rw [overrideOf, Option.map_eq_none_iff, List.find?_eq_none]
  constructor
  · rintro none_covers p token ⟨name,member,placed⟩ covers
    exact none_covers (name,token) ((List.mem_insertionSort _).mpr member)
      ((inside_placed placed).mpr covers)
  · intro none_covers entry member covers
    have member := (List.mem_insertionSort _).mp member
    exact none_covers _ entry.2 ⟨entry.1,member,rfl⟩ ((inside_placed rfl).mp covers)

/-- The longest of the spellings is tried first. -/
theorem override_longest {name : JsString} (placed : resolve base.names name = p)
    (covers : Covers p cwd.names) (longest : ∀ entry ∈ overrides, entry.1.length ≤ name.length) :
    overrideOf base.names cwd.names ((name,token) :: overrides) = some token := by
  have first : longestFirst ((name,token) :: overrides) = (name,token) :: longestFirst overrides :=
    List.insertionSort_cons_of_forall_rel _ longest
  rw [overrideOf, first, List.find?_cons_of_pos]
  · rfl
  · exact (inside_placed placed).mpr covers

/-- An override can be named again, in a spelling that is longer than any other one. -/
theorem respelled_longest (distinct : (overrides.map Prod.fst).Nodup)
    (placed : Placed base overrides p token) : ∃ name, resolve base.names name = p ∧
      Respelled base overrides ((name,token) :: overrides) ∧
      ∀ entry ∈ overrides, entry.1.length ≤ name.length := by
  have ⟨old,member,at_p⟩ := placed
  let long := spelled p (overrides.map (fun entry => entry.1.length)).sum
  have named : ∀ x ∈ p, IsName x := at_p ▸ resolve_named base.named
  have fresh : ∀ entry ∈ overrides, entry.1.length < long.length := by
    intro entry member
    have mapped : entry.1.length ∈ overrides.map (fun entry => entry.1.length) :=
      List.mem_map.mpr ⟨entry,member,rfl⟩
    exact lt_of_le_of_lt (List.single_le_sum (by simp) _ mapped) (length_spelled p _)
  refine ⟨long,resolve_spelled named _,⟨?_,?_⟩,fun entry member => le_of_lt (fresh entry member)⟩
  · rw [List.map_cons, List.nodup_cons]
    refine ⟨fun known => ?_,distinct⟩
    have ⟨entry,member,same⟩ := List.mem_map.mp known
    exact absurd (same ▸ fresh entry member) (lt_irrefl _)
  · intro x t
    constructor
    · rintro ⟨name,here,at_x⟩
      rcases List.mem_cons.mp here with same | here
      · cases same
        rw [resolve_spelled named] at at_x
        exact ⟨old,member,at_p.trans at_x⟩
      · exact ⟨name,here,at_x⟩
    · rintro ⟨name,here,at_x⟩
      exact ⟨name,List.mem_cons_of_mem _ here,at_x⟩

theorem tokens_agree (distinct : (overrides.map Prod.fst).Nodup) (stable : ∀ other,
      Respelled base overrides other →
      selectionOf none none pins base.names cwd.names other = some selection)
    (placed : Placed base overrides p token) (covers : Covers p cwd.names) : token = selection := by
  have ⟨name,at_p,respelled,longest⟩ := respelled_longest distinct placed
  have chosen := stable _ respelled
  rw [selectionOf, override_longest at_p covers longest] at chosen
  exact Option.some.inj chosen

theorem covers_below (low : p <+: q) (high : q <+: cwd.names) (apart : q ≠ p) :
    Covers q cwd.names := by
  refine .inr ⟨fun empty => apart ?_,high⟩
  rw [empty] at low ⊢
  exact (List.prefix_nil.mp low).symm

theorem nearest_covered {p₀ : Directory} {t₀ : JsString} (some_placed : Placed base overrides p₀ t₀)
    (some_covers : Covers p₀ cwd.names) (alike : ∀ x u, Placed base overrides x u →
      Covers x cwd.names → u = token) :
    Nearest (Placed base overrides) (pinAt pins) cwd.names token ↔
      ∀ q text, ancestorFile pins cwd.names = some (q,text) →
        (∀ x u, Placed base overrides x u → Covers x cwd.names → x.length < q.length) →
        token = jsUnits (trim text) := by
  let held := fun p => ∃ u, Placed base overrides p u ∧ Covers p cwd.names
  have ⟨p,⟨u,placed,covers⟩,within,lowest⟩ := @exists_lowest _ cwd.names held
    ⟨p₀,⟨t₀,some_placed,some_covers⟩,covers_path some_covers⟩
  have here : Placed base overrides p token := alike p u placed covers ▸ placed
  have bare : ∀ x, p <+: x → x <+: cwd.names → x ≠ p → ∀ t, ¬Placed base overrides x t := by
    intro x low high apart t at_x
    have above := lowest x ⟨t,at_x,covers_below low high apart⟩ high
    exact apart (above.eq_of_length (le_antisymm above.length_le low.length_le))
  -- An override at least as low as every pin ends the walk.
  have at_override (unmarked : ∀ x, p <+: x → x <+: cwd.names → x ≠ p → pinAt pins x = none) :
      Nearest (Placed base overrides) (pinAt pins) cwd.names token :=
    (nearest_quiet within (fun x low high apart =>
      ⟨bare x low high apart,unmarked x low high apart⟩)).mpr (.entry here)
  cases found : ancestorFile pins cwd.names with
  | none =>
    have walk := at_override (fun x _ high _ => by rw [pinAt, ancestorFile_none found high]; rfl)
    exact ⟨fun _ q text same => absurd same (by simp),fun _ => walk⟩
  | some file =>
    have ⟨at_q,read,lower⟩ := ancestorFile_some.mp found
    by_cases nearer : p.length < file.1.length
    · have apart : ∀ x t, Placed base overrides x t → Covers x cwd.names →
          x.length < file.1.length := fun x t at_x covers =>
        lt_of_le_of_lt (lowest x ⟨t,at_x,covers⟩ (covers_path covers)).length_le nearer
      have free : ∀ x, file.1 <+: x → x <+: cwd.names → ∀ t, ¬Placed base overrides x t := by
        intro x low high t at_x
        have full : x ≠ [] := fun empty => by
          have := low.length_le
          simp only [empty, List.length_nil] at this
          omega
        exact absurd (apart x t at_x (.inr ⟨full,high⟩)) (not_lt.mpr low.length_le)
      have quiet : Quiet (Placed base overrides) (pinAt pins) file.1 cwd.names :=
        fun x low high away => ⟨free x low high,by rw [pinAt, lower x low high away]; rfl⟩
      have marked : pinAt pins file.1 = some (jsUnits (trim file.2)) := by rw [pinAt, read]; rfl
      rw [nearest_quiet at_q quiet, nearest_mark (free _ List.prefix_rfl at_q) marked]
      constructor
      · intro same q text first _
        cases Option.some.inj first
        exact same
      · intro condition
        exact condition file.1 file.2 rfl apart
    · have walk := at_override (fun x low high away => by
        have deep : file.1 <+: x := List.prefix_of_prefix_length_le at_q high
          ((not_lt.mp nearer).trans low.length_le)
        have off : x ≠ file.1 := fun same => by
          subst same
          exact away (low.eq_of_length (le_antisymm low.length_le (not_lt.mp nearer))).symm
        rw [pinAt, lower x deep high off]
        rfl)
      refine ⟨fun _ q text first condition => ?_,fun _ => walk⟩
      cases Option.some.inj first
      exact absurd (condition p token here covers) nearer

theorem nearest_uncovered {pin : List Char} (found : ancestorFile pins cwd.names = some (q,pin))
    (uncovered : ∀ p t, Placed base overrides p t → ¬Covers p cwd.names) :
    Nearest (Placed base overrides) (pinAt pins) cwd.names (jsUnits (trim pin)) ↔
      (q = [] → (∃ t, Placed base overrides [] t) →
        Placed base overrides [] (jsUnits (trim pin))) := by
  have ⟨at_q,read,lower⟩ := ancestorFile_some.mp found
  have quiet : Quiet (Placed base overrides) (pinAt pins) q cwd.names := fun x low high away =>
    ⟨fun t at_x => uncovered x t at_x (covers_below low high away),
      by rw [pinAt, lower x low high away]; rfl⟩
  have marked : pinAt pins q = some (jsUnits (trim pin)) := by rw [pinAt, read]; rfl
  rw [nearest_quiet at_q quiet]
  by_cases root : q = []
  · rw [root] at marked ⊢
    by_cases entries : ∃ t, Placed base overrides [] t
    · rw [nearest_entry entries]
      exact ⟨fun here _ _ => here,fun condition => condition rfl entries⟩
    · rw [nearest_mark (fun t here => entries ⟨t,here⟩) marked]
      exact ⟨fun _ _ entry => absurd entry entries,fun _ => rfl⟩
  · rw [nearest_mark (fun t at_q' => uncovered q t at_q' (.inr ⟨root,at_q⟩)) marked]
    exact ⟨fun _ empty => absurd empty root,fun _ => rfl⟩

theorem selection_search (chosen : selectionOf none none pins base.names cwd.names overrides =
    some selection) : (overrideOf base.names cwd.names overrides = some selection) ∨
      overrideOf base.names cwd.names overrides = none ∧ ∃ q pin,
        ancestorFile pins cwd.names = some (q,pin) ∧ selection = jsUnits (trim pin) := by
  cases found : overrideOf base.names cwd.names overrides with
  | some token =>
    have same : some token = some selection := by rw [← chosen, selectionOf, found]; rfl
    exact .inl same
  | none =>
    have last : pinSelection pins cwd.names = some selection := by
      rw [← chosen, selectionOf, found]
      rfl
    have ⟨⟨q,pin⟩,first,same⟩ := Option.map_eq_some_iff.mp last
    exact .inr ⟨rfl,q,pin,first,same.symm⟩

theorem respelled_refl (distinct : (overrides.map Prod.fst).Nodup) :
    Respelled base overrides overrides := ⟨distinct,fun _ _ => Iff.rfl⟩

/-- Respelled overrides lead to the same selection. -/
theorem selection_respelled (agrees : Agrees pins base cwd overrides)
    (respelled : Respelled base overrides other)
    (chosen : selectionOf none none pins base.names cwd.names overrides = some selection) :
    selectionOf none none pins base.names cwd.names other = some selection := by
  rcases selection_search chosen with found | ⟨missed,q,pin,first,same⟩
  · have ⟨p,placed,covers⟩ := override_placed found
    cases also : overrideOf base.names cwd.names other with
    | none =>
      exact absurd covers (override_none.mp also p selection ((respelled.same p selection).mpr placed))
    | some token =>
      have ⟨q,placed',covers'⟩ := override_placed also
      have same := agrees.tokens q p token selection ((respelled.same q token).mp placed') covers'
        placed covers
      rw [selectionOf, also, same]
      rfl
  · have also : overrideOf base.names cwd.names other = none := override_none.mpr
      fun p t placed => override_none.mp missed p t ((respelled.same p t).mp placed)
    rw [selectionOf, also, same]
    show pinSelection pins cwd.names = _
    rw [pinSelection, first]
    rfl

/-- The search agrees with the walk in every spelling just under the three conditions. -/
theorem search_iff (distinct : (overrides.map Prod.fst).Nodup)
    (chosen : selectionOf none none pins base.names cwd.names overrides = some selection) :
    (Nearest (Placed base overrides) (pinAt pins) cwd.names selection ∧ ∀ other,
      Respelled base overrides other →
        selectionOf none none pins base.names cwd.names other = some selection) ↔
      Agrees pins base cwd overrides := by
  constructor
  · rintro ⟨walk,stable⟩
    have alike : ∀ x u, Placed base overrides x u → Covers x cwd.names → u = selection :=
      fun x u => tokens_agree distinct stable
    refine ⟨fun p q s t at_p covers at_q covers' => ?_,fun q pin p t found at_p covers apart => ?_,
      fun pin found uncovered entries => ?_⟩
    · rw [alike p s at_p covers, alike q t at_q covers']
    · rw [alike p t at_p covers]
      exact (nearest_covered at_p covers alike).mp walk q pin found apart
    · rcases selection_search chosen with taken | ⟨_,q,other,first,same⟩
      · have ⟨p,at_p,covers⟩ := override_placed taken
        exact absurd covers (uncovered p selection at_p)
      · cases Option.some.inj (first.symm.trans found)
        exact (nearest_uncovered found uncovered).mp (same ▸ walk) rfl entries
  · intro agrees
    refine ⟨?_,fun other respelled => selection_respelled agrees respelled chosen⟩
    rcases selection_search chosen with taken | ⟨missed,q,pin,first,same⟩
    · have ⟨p,at_p,covers⟩ := override_placed taken
      have alike : ∀ x u, Placed base overrides x u → Covers x cwd.names → u = selection :=
        fun x u at_x covers' => agrees.tokens x p u selection at_x covers' at_p covers
      exact (nearest_covered at_p covers alike).mpr fun q pin found apart =>
        agrees.nearer q pin p selection found at_p covers apart
    · have uncovered := override_none.mp missed
      rw [same]
      refine (nearest_uncovered first uncovered).mpr fun root entries => ?_
      subst root
      exact agrees.root pin first uncovered entries

end Choice

section Selected

theorem elanLine_nodup {state next : Bool × ElanSettings} {source : List Char}
    (distinct : (state.2.overrides.map Prod.fst).Nodup)
    (read : elanLine state source = .ok next) : (next.2.overrides.map Prod.fst).Nodup := by
  obtain ⟨overrides,settings⟩ := state
  rw [elanLine] at read
  dsimp only at read distinct
  split at read
  · exact (pure_ok _ _).mp read ▸ distinct
  · exact (pure_ok _ _).mp read ▸ distinct
  · split_ifs at read
    exact (pure_ok _ _).mp read ▸ distinct
  · split at read
    · exact ((throw_ok _ _).mp read).elim
    · split_ifs at read
      · have ⟨_,_,read⟩ := (bind_ok _ _ _).mp read
        have ⟨_,_,read⟩ := (bind_ok _ _ _).mp read
        exact (pure_ok _ _).mp read ▸ OrderedRecord.nodup_assign distinct
      · have ⟨_,_,read⟩ := (bind_ok _ _ _).mp read
        exact (pure_ok _ _).mp read ▸ distinct
      · exact (pure_ok _ _).mp read ▸ distinct

theorem elanSettings_nodup {text : Option (List Char)} {settings : ElanSettings}
    (read : elanSettings text = .ok settings) : (settings.overrides.map Prod.fst).Nodup := by
  cases text with
  | none =>
    rw [← (pure_ok _ _).mp read]
    exact List.nodup_nil
  | some text =>
    have ⟨last,folded,read⟩ := (bind_ok _ _ _).mp read
    rw [← (pure_ok _ _).mp read]
    exact foldlM_invariant (fun state => (state.2.overrides.map Prod.fst).Nodup) elanLine
      (fun _ _ _ distinct read => elanLine_nodup distinct read) _ _ _ List.nodup_nil folded

variable {elan : ElanHome} {environment : Option JsString}
  {pins : Directory → Option (List Char)} {base cwd : Folder} {subject : List JsString}
  {options : LeanOptions} {settings : ElanSettings} {result : SelectedLean}

theorem selectedLean_chosen (parsed : leanOptions subject = .ok options)
    (configured : elanSettings elan.settings = .ok settings)
    (accepted : selectedLean elan environment pins base.names cwd.names subject = .ok result) :
    selectionOf options.toolchain environment pins base.names cwd.names settings.overrides =
      some result.selection := by
  obtain ⟨given,split,accepted⟩ := (bind_ok _ _ _).mp accepted
  cases Except.ok.inj (parsed.symm.trans split)
  obtain ⟨known,read,accepted⟩ := (bind_ok _ _ _).mp accepted
  cases Except.ok.inj (configured.symm.trans read)
  split at accepted
  · exact ((throw_ok _ _).mp accepted).elim
  · rename_i selection chosen
    rw [chosen]
    split_ifs at accepted
    obtain ⟨_,_,accepted⟩ := (bind_ok _ _ _).mp accepted
    obtain ⟨_,_,accepted⟩ := (bind_ok _ _ _).mp accepted
    obtain ⟨_,_,accepted⟩ := (bind_ok _ _ _).mp accepted
    split_ifs at accepted
    rw [← (pure_ok _ _).mp accepted]

/-- An accepted selection is the choice of elan in every spelling of the overrides just when it
is given by the argument or the environment or the overrides and pins agree. -/
theorem selectedLean_iff (parsed : leanOptions subject = .ok options)
    (configured : elanSettings elan.settings = .ok settings)
    (accepted : selectedLean elan environment pins base.names cwd.names subject = .ok result) :
    (ElanChooses options.toolchain environment pins base cwd settings.overrides result.selection ∧
      ∀ other, Respelled base settings.overrides other →
        selectionOf options.toolchain environment pins base.names cwd.names other =
          some result.selection) ↔
      options.toolchain.isSome ∨ environment.isSome ∨ Agrees pins base cwd settings.overrides := by
  have chosen := selectedLean_chosen parsed configured accepted
  cases given : options.toolchain with
  | some token =>
    rw [given] at chosen
    have same : some token = some result.selection := chosen
    exact ⟨fun _ => .inl rfl,fun _ => ⟨(Option.some.inj same).symm,fun _ _ => same⟩⟩
  | none =>
    rw [given] at chosen
    cases set : environment with
    | some token =>
      rw [set] at chosen
      have same : some token = some result.selection := chosen
      exact ⟨fun _ => .inr (.inl rfl),fun _ => ⟨(Option.some.inj same).symm,fun _ _ => same⟩⟩
    | none =>
      rw [set] at chosen
      refine (search_iff (elanSettings_nodup configured) chosen).trans ?_
      simp

/-- An installation with the toolchains x and y whose settings hold an override of /a. -/
def sampleElan : ElanHome where
  path := units "/e"
  settings := some ['[','o','v','e','r','r','i','d','e','s',']','\n','\'','/','a','\'','=','\'','x','\'']
  installed := [units "x",units "y"]
  directory := fun path => .ok path
  which := fun token tool => .ok (units "/e/toolchains/" ++ token ++ units "/bin/" ++ tool)

def sampleRoot : Folder := ⟨[],by simp⟩

def sampleFolder : Folder := ⟨[units "a",units "b"],by simp [IsName, units]; decide⟩

def samplePin (p : Directory) : Option (List Char) :=
  if p = [units "a",units "b"] then some ['y','\n'] else none

def sampleSubject : List JsString := [units "lake",units "build"]

def sampleSelected : SelectedLean :=
  ⟨units "/e/toolchains/x",units "/e/toolchains/x/bin/lean",units "/e/toolchains/x/bin/lake",
    units "x"⟩

def sampleSettings : ElanSettings := ⟨none,[(units "/a",units "x")]⟩

theorem sample_placed {p : Directory} {token : JsString}
    (placed : Placed sampleRoot sampleSettings.overrides p token) :
    p = [units "a"] ∧ token = units "x" := by
  have ⟨name,member,at_p⟩ := placed
  cases List.mem_singleton.mp member
  exact ⟨at_p.symm,rfl⟩

theorem sample_agrees : Agrees (fun _ => none) sampleRoot sampleFolder sampleSettings.overrides where
  tokens _ _ _ _ at_p _ at_q _ := (sample_placed at_p).2.trans (sample_placed at_q).2.symm
  nearer _ _ _ _ found := nomatch found
  root _ found := nomatch found

/-- An override of a directory above is the choice of elan where no pin file lies. -/
theorem override_selected :
    ElanChooses none none (fun _ => none) sampleRoot sampleFolder sampleSettings.overrides
      sampleSelected.selection ∧ ∀ other, Respelled sampleRoot sampleSettings.overrides other →
        selectionOf none none (fun _ => none) sampleRoot.names sampleFolder.names other =
          some sampleSelected.selection :=
  (@selectedLean_iff sampleElan none (fun _ => none) sampleRoot sampleFolder sampleSubject
    ⟨none,none,units "lakefile"⟩ _ _ rfl rfl rfl).mpr (.inr (.inr sample_agrees))

/-- A pin file below the overridden directory is the choice of elan, and the override is taken. -/
theorem nearer_pin_lost : ¬∀ (elan : ElanHome) (environment : Option JsString)
    (pins : Directory → Option (List Char)) (base cwd : Folder) (subject : List JsString)
    (options : LeanOptions) (settings : ElanSettings) (result : SelectedLean),
    leanOptions subject = .ok options → elanSettings elan.settings = .ok settings →
    selectedLean elan environment pins base.names cwd.names subject = .ok result →
    ElanChooses options.toolchain environment pins base cwd settings.overrides result.selection ∧
      ∀ other, Respelled base settings.overrides other →
        selectionOf options.toolchain environment pins base.names cwd.names other =
          some result.selection := by
  intro claim
  have walk : Nearest (Placed sampleRoot sampleSettings.overrides) (pinAt samplePin)
      sampleFolder.names (units "x") :=
    (claim sampleElan none samplePin sampleRoot sampleFolder sampleSubject
      ⟨none,none,units "lakefile"⟩ sampleSettings sampleSelected rfl rfl rfl).1
  have bare : ∀ token, ¬Placed sampleRoot sampleSettings.overrides sampleFolder.names token :=
    fun token placed => by simpa [sampleFolder] using (sample_placed placed).1
  have pinned : pinAt samplePin sampleFolder.names = some (units "y") := rfl
  have same := (nearest_mark bare pinned).mp walk
  exact absurd same (by decide)

end Selected

end ElanAgreement

end EvidenceV4
