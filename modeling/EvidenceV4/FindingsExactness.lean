import EvidenceV4.FindingsBlock

/-!
# When the final block wins

The array behind a text is returned for every quiet spelling exactly when the
text leaves no fence open, and behind every such text exactly when its spelling
is quiet. Reading a text and merging its findings raises exactly when a block
that is tried holds an integer beyond the limit of the interpreter or the array
that is read has a finding with a list or an object in one of its fields.
-/

set_option autoImplicit false

namespace EvidenceV4

namespace BenchmarkFindings

open CheckedExcept JsonText PythonData
open CheckerJson (PyString points)
open PolicyDocument (mapGet)

variable (float : List Char → PyFloat)

def SameDict (a b : PyFields) : Prop := ∀ key, mapGet a key = mapGet b key

structure Finding (f : PyFields) : Prop where
  fields : (f.map Prod.fst).Perm FIELDS
  line : isInt (get f (points "line")) = true

/-- A JSON text of a list of findings. -/
structure Spelling (array : List Char) (F : List PyFields) : Prop where
  bracketed : ∃ inside, array = '[' :: (inside ++ [']'])
  decoded : loads float array = .ok (.list (F.map .dict))
  findings : ∀ f ∈ F, Finding f

/-- The report's array is what is returned, whatever white space surrounds it. -/
def Exact (t array : List Char) (F : List PyFields) : Prop :=
  ∀ gap gap', gap.all space = true → gap'.all space = true →
    ∃ found, parseFindings float (report t gap array gap') = .ok (some found) ∧
      List.Forall₂ SameDict F found

/-- The texts that are decoded one after the other. -/
def tried (text : List Char) : List (List Char) := (findall text).reverse ++ [strip text]

/-- A text that the next one is tried after. -/
def Refused (candidate : List Char) : Prop :=
  loads float candidate = .error .jsonDecodeError ∨
    ∃ v, loads float candidate = .ok v ∧ ∀ data, v ≠ .list data

def Reached (text candidate : List Char) : Prop :=
  ∃ earlier later, tried text = earlier ++ candidate :: later ∧
    ∀ other ∈ earlier, Refused float other

/-- Neither reading the text nor merging its findings raises. -/
def Robust (text : List Char) : Prop :=
  ∃ result, parseFindings float text = .ok result ∧ ∀ found, result = some found →
    (∀ f ∈ found, f.map Prod.fst = FIELDS) ∧ ∃ merged, dedup found = .ok merged

/-- Every finding of the array has only values that can be hashed. -/
def Usable (data : List PyData) : Prop := ∀ g, .dict g ∈ data → (∀ k ∈ FIELDS, has g k = true) →
  isInt (get g (points "line")) = true → ∀ k ∈ FIELDS, hashable (get g k) = true

section Outcome

variable {float} {candidate : List Char} {rest : List (List Char)} {data : List PyData}

theorem firstList_list (read : loads float candidate = .ok (.list data)) :
    firstList float (candidate :: rest) = .ok (some data) := by
  rw [firstList, read]
  rfl

theorem firstList_refused (refused : Refused float candidate) :
    firstList float (candidate :: rest) = firstList float rest := by
  rcases refused with malformed | ⟨v,read,other⟩
  · rw [firstList, malformed]
  · rw [firstList, read]
    cases v with
    | list data => exact absurd rfl (other data)
    | _ => rfl

/-- The three outcomes of one decoding. -/
theorem loads_cases (candidate : List Char) : (∃ data, loads float candidate = .ok (.list data)) ∨
    Refused float candidate ∨ ∃ e, loads float candidate = .error e ∧ e ≠ .jsonDecodeError := by
  cases outcome : loads float candidate with
  | ok v =>
    by_cases list : ∃ data, v = .list data
    · obtain ⟨data,rfl⟩ := list
      exact Or.inl ⟨data,rfl⟩
    · exact Or.inr (Or.inl (Or.inr ⟨v,outcome,not_exists.mp list⟩))
  | error e =>
    by_cases malformed : e = .jsonDecodeError
    · exact Or.inr (Or.inl (Or.inl (by rw [outcome, malformed])))
    · exact Or.inr (Or.inr ⟨e,rfl,malformed⟩)

theorem firstList_raises {e : PyError} (read : loads float candidate = .error e)
    (other : e ≠ .jsonDecodeError) : firstList float (candidate :: rest) = .error e := by
  rw [firstList, read]
  cases e with
  | jsonDecodeError => exact absurd rfl other
  | _ => rfl

theorem firstList_append (l k : List (List Char)) : firstList float (l ++ k) =
    (firstList float l).bind (fun parsed => match parsed with
      | some data => .ok (some data)
      | none => firstList float k) := by
  induction l with
  | nil => rfl
  | cons candidate l ih =>
    rw [List.cons_append]
    rcases @loads_cases float candidate with ⟨data,read⟩ | refused | ⟨e,read,other⟩
    · rw [firstList_list read, firstList_list read]
      rfl
    · rw [firstList_refused refused, firstList_refused refused, ih]
    · rw [firstList_raises read other, firstList_raises read other]
      rfl

theorem parseFindings_eq (text : List Char) : parseFindings float text =
    (firstList float (tried text)).map (Option.map (fun data => data.filterMap finding)) := by
  rw [tried, firstList_append, parseFindings]
  cases firstList float (findall text).reverse with
  | error e => rfl
  | ok parsed =>
    cases parsed with
    | some data => rfl
    | none =>
      show _ = Except.map _ (firstList float [strip text])
      cases firstList float [strip text] with
      | error e => rfl
      | ok parsed => rfl

end Outcome

section Selection

variable {f : PyFields}

theorem has_iff {k : PyString} : has f k = true ↔ k ∈ f.map Prod.fst := PolicyDocument.mapGet_isSome

theorem mapGet_absent {k : PyString} (absent : k ∉ f.map Prod.fst) : mapGet f k = none := by
  rw [← PolicyDocument.mapGet_isSome] at absent
  simpa using absent

theorem fields_distinct : FIELDS.Nodup := by decide +kernel

theorem mapGet_selected {k : PyString} (known : k ∈ FIELDS) :
    mapGet (FIELDS.map (fun k => (k,get f k))) k = some (get f k) := by
  apply PolicyDocument.mapGet_of_mem
  · rw [List.map_map]
    show (FIELDS.map id).Nodup
    rw [List.map_id]
    exact fields_distinct
  · exact List.mem_map.mpr ⟨k,known,rfl⟩

theorem finding_selected (found : Finding f) :
    finding (.dict f) = some (FIELDS.map (fun k => (k,get f k))) := by
  rw [finding, if_pos]
  refine ⟨List.all_eq_true.mpr (fun k member => ?_),found.line⟩
  rw [has_iff, found.fields.mem_iff]
  exact member

theorem sameDict_selected (found : Finding f) :
    SameDict f (FIELDS.map (fun k => (k,get f k))) := by
  intro k
  by_cases known : k ∈ FIELDS
  · have present := has_iff.mpr (found.fields.mem_iff.mpr known)
    obtain ⟨v,value⟩ := Option.isSome_iff_exists.mp (show (mapGet f k).isSome = true from present)
    have same : get f k = v := by simp only [PythonData.get, value, Option.getD_some]
    rw [mapGet_selected known, same, value]
  · have absent : k ∉ (FIELDS.map (fun k => (k,get f k))).map Prod.fst := by
      rw [List.map_map]
      simpa using known
    rw [mapGet_absent absent, mapGet_absent (fun member => known (found.fields.mem_iff.mp member))]

theorem selected_all {F : List PyFields} (findings : ∀ f ∈ F, Finding f) :
    List.Forall₂ SameDict F ((F.map PyData.dict).filterMap finding) := by
  induction F with
  | nil => exact .nil
  | cons f F ih =>
    obtain ⟨first,rest⟩ := List.forall_mem_cons.mp findings
    rw [List.map_cons, List.filterMap_cons_some (finding_selected first)]
    exact .cons (sameDict_selected first) (ih rest)

end Selection

section Shelter

variable {float} {s t : List Char} {v : PyData}

theorem loads_sheltered (read : loads float s = .ok v) : Sheltered s := by
  unfold loads at read
  split_ifs at read with mark
  obtain ⟨w,decoded,_⟩ := (map_ok _ _ _).mp read
  exact readText_sheltered _ decoded

theorem line_unsheltered (s x : List Char) : ¬ Sheltered (s ++ (fenceLine ++ x)) :=
  fun sheltered => sheltered.2 ⟨s,fenceOpen.tail ++ x,by simp [fenceLine, fenceOpen]⟩

/-- Stripping a report leaves a backtick at the front or at the start of a line. -/
theorem strip_report (t gap array gap' : List Char) :
    ¬ Sheltered (strip (report t gap array gap')) := by
  have inked : space backtick = false := by decide
  have kept : ∀ u : List Char, (u ++ [backtick]).rdropWhile space = u ++ [backtick] :=
    fun u => List.rdropWhile_concat_neg space u backtick (by rw [inked]; exact Bool.noConfusion)
  have close : fenceClose = [backtick,backtick] ++ [backtick] := rfl
  by_cases spaces : t.all space = true
  · have front : (report t gap array gap').dropWhile space =
        fenceOpen ++ (gap ++ (array ++ (gap' ++ fenceClose))) := by
      rw [report, List.dropWhile_append_of_pos (List.all_eq_true.mp spaces)]
      rfl
    rw [strip, front, close]
    simp only [← List.append_assoc]
    rw [kept]
    intro sheltered
    apply sheltered.1
    rfl
  · have left : t.dropWhile space ≠ [] := by
      intro none
      exact spaces (List.all_eq_true.mpr (List.dropWhile_eq_nil_iff.mp none))
    rw [strip, report, dropWhile_stable _ left, close]
    simp only [← List.append_assoc]
    rw [kept]
    simp only [List.append_assoc]
    exact line_unsheltered _ _

end Shelter

section Blocks

variable {float} {t array : List Char} {F : List PyFields} {l : List (List Char)}
  {candidate : List Char} {data : List PyData}

theorem firstList_skips (earlier : List (List Char)) (l : List (List Char))
    (refused : ∀ other ∈ earlier, Refused float other) :
    firstList float (earlier ++ l) = firstList float l := by
  induction earlier with
  | nil => rfl
  | cons candidate earlier ih =>
    obtain ⟨first,rest⟩ := List.forall_mem_cons.mp refused
    rw [List.cons_append, firstList_refused first, ih rest]

theorem firstList_unsheltered (bad : ¬ Sheltered candidate)
    (found : firstList float (candidate :: l) = .ok (some data)) :
    firstList float l = .ok (some data) := by
  rcases @loads_cases float candidate with ⟨_,read⟩ | refused | ⟨e,read,other⟩
  · exact absurd (loads_sheltered read) bad
  · rwa [firstList_refused refused] at found
  · rw [firstList_raises read other] at found
    exact absurd found (by simp)

theorem firstList_strip (bad : ¬ Sheltered candidate)
    (found : firstList float (l ++ [candidate]) = .ok (some data)) :
    firstList float l = .ok (some data) := by
  rw [firstList_append] at found
  cases outcome : firstList float l with
  | error e =>
    rw [outcome] at found
    exact absurd found (by simp [Except.bind])
  | ok parsed =>
    rw [outcome] at found
    cases parsed with
    | some data' => exact found
    | none => exact absurd (firstList_unsheltered bad found) (by simp [firstList])

/-- What is returned of a report comes from its blocks. -/
theorem exact_blocks (exact : Exact float t array F) : ∃ data,
    firstList float (findall (report t [] array [])).reverse = .ok (some data) ∧
      List.Forall₂ SameDict F (data.filterMap finding) := by
  obtain ⟨found,parsed,same⟩ := exact [] [] rfl rfl
  rw [parseFindings_eq] at parsed
  obtain ⟨result,first,chosen⟩ := (map_ok _ _ _).mp parsed
  obtain ⟨data,rfl,rfl⟩ := Option.map_eq_some_iff.mp chosen
  exact ⟨data,firstList_strip (strip_report t [] array []) first,same⟩

theorem exact_of_closed (closed : Closed t) (spelled : Spelling float array F)
    (quiet : Quiet array) : Exact float t array F := by
  intro gap gap' spaces spaces'
  obtain ⟨inside,rfl⟩ := spelled.bracketed
  refine ⟨(F.map PyData.dict).filterMap finding,?_,selected_all spelled.findings⟩
  rw [parseFindings_eq, tried, findall_report closed quiet spaces spaces', List.reverse_concat,
    List.cons_append, firstList_list spelled.decoded]
  rfl

/-- A proper beginning of an array's text is no array. -/
theorem beginning_refused {inside x : List Char}
    (whole : loads float ('[' :: (inside ++ x)) = .ok (.list data)) (inked : backtick ∈ x)
    (data' : List PyData) : loads float ('[' :: inside) ≠ .ok (.list data') := by
  intro part
  have mark : ∀ u : List Char, ('[' :: u).head? ≠ some '\ufeff' := by simp
  rw [loads, if_neg (mark _)] at whole part
  obtain ⟨_,long,_⟩ := (map_ok _ _ _).mp whole
  obtain ⟨_,short,_⟩ := (map_ok _ _ _).mp part
  have spaces := array_prefix x _ short long
  have white := List.dropWhile_eq_nil_iff.mp spaces backtick inked
  exact absurd white (by decide)

end Blocks

section Quietness

variable {w a b : List Char} {c : Char}

theorem within_split (foreign : c ∉ w) (within : w <:+: a ++ c :: b) : w <:+: a ∨ w <:+: b := by
  obtain ⟨before,after,same⟩ := within
  rcases List.append_eq_append_iff.mp same with ⟨gap,split,tail⟩ | ⟨gap,split,tail⟩
  · exact Or.inl ⟨before,gap,split.symm⟩
  · rcases List.append_eq_append_iff.mp split with ⟨k,rfl,inner⟩ | ⟨k,rfl,inner⟩
    · match gap, tail with
      | [], _ => exact Or.inl ⟨before,[],by rw [inner]; simp⟩
      | d :: gap, tail =>
        obtain ⟨rfl,_⟩ := List.cons.inj tail
        exact absurd (by simp [inner]) foreign
    · rw [inner, List.append_assoc] at tail
      match k, tail with
      | [], tail =>
        match w, tail with
        | [], _ => exact Or.inl List.nil_infix
        | d :: w, tail =>
          obtain ⟨rfl,_⟩ := List.cons.inj tail
          exact absurd List.mem_cons_self foreign
      | d :: k, tail =>
        obtain ⟨_,tail⟩ := List.cons.inj tail
        exact Or.inr ⟨k,after,by rw [List.append_assoc]; exact tail.symm⟩

/-- What stands behind a block inside an array opens no fence with the closing one. -/
theorem unfenced_behind {inside front rest : List Char}
    (split : inside ++ [']'] = front ++ fenceClose ++ rest)
    (unfenced : ¬ fenceOpen <:+: inside ++ [']']) : ¬ fenceOpen <:+: rest ++ fenceClose := by
  rcases List.eq_nil_or_concat rest with rfl | ⟨behind,e,rfl⟩
  · have last := congrArg List.getLast? split
    simp only [List.append_nil, fenceClose, List.getLast?_append, List.getLast?_cons_cons,
      List.getLast?_singleton, Option.some_or, Option.some.injEq] at last
    exact absurd last (by decide)
  · rw [List.concat_eq_append, ← List.append_assoc] at split
    obtain ⟨rfl,same⟩ := List.append_inj' split rfl
    obtain rfl := (List.cons.inj same).1
    intro within
    rw [List.concat_eq_append, ← List.append_cons] at within
    rcases within_split (by decide) within with early | late
    · exact unfenced (early.trans ⟨front ++ fenceClose,[']'],by simp⟩)
    · exact absurd late.length_le (by decide)

/-- A bracket with a fence behind it ends the block before the array does. -/
theorem findall_unquiet {array : List Char} (bracketed : ∃ inside, array = '[' :: (inside ++ [']']))
    (unfenced : ¬ fenceOpen <:+: array) (unquiet : ¬ Quiet array) : ∃ block x,
      array = '[' :: (block ++ x) ∧ backtick ∈ x ∧
      findall (report [] [] array []) = ['[' :: block] := by
  obtain ⟨inside,rfl⟩ := bracketed
  simp only [Quiet, not_forall, Bool.not_eq_false] at unquiet
  obtain ⟨front,back,same,fence⟩ := unquiet
  match front with
  | [] => exact absurd (List.cons.inj same).1 (by decide)
  | _ :: front =>
    obtain ⟨_,tail⟩ := List.cons.inj same
    obtain ⟨⟨block,rest⟩,closes⟩ := closing_exists front fence
    rw [← show inside ++ [']'] = front ++ ']' :: back from tail] at closes
    have closes' := closing_append closes fenceClose
    obtain ⟨_,gap,_,split,_⟩ := closing_split closes
    refine ⟨block,gap ++ fenceClose ++ rest,?_,?_,?_⟩
    · rw [split, List.append_assoc, List.append_assoc, List.append_assoc]
    · simp [fenceClose]
    · have later : findall (rest ++ fenceClose) = [] := by
        apply findall_unfenced
        exact unfenced_behind split
          (fun within => unfenced (within.trans (List.suffix_cons '[' _).isInfix))
      have found := @findall_block [] _ _ _ rfl closes'
      rw [later] at found
      exact found

end Quietness

section Converses

variable {float} {t array : List Char} {F : List PyFields} {l : List (List Char)}
  {data : List PyData}

theorem firstList_single {candidate : List Char}
    (found : firstList float [candidate] = .ok (some data)) :
    loads float candidate = .ok (.list data) := by
  rcases @loads_cases float candidate with ⟨data',read⟩ | refused | ⟨e,read,other⟩
  · rw [firstList_list read] at found
    obtain rfl := Option.some.inj (Except.ok.inj found)
    exact read
  · rw [firstList_refused refused] at found
    exact absurd found (by simp [firstList])
  · rw [firstList_raises read other] at found
    exact absurd found (by simp)

theorem quiet_of_exact (spelled : Spelling float array F) (unfenced : ¬ fenceOpen <:+: array)
    (exact : Exact float [] array F) : Quiet array := by
  by_contra unquiet
  obtain ⟨block,x,rfl,inked,found⟩ := findall_unquiet spelled.bracketed unfenced unquiet
  obtain ⟨data,chosen,_⟩ := exact_blocks exact
  rw [found] at chosen
  exact beginning_refused spelled.decoded inked data (firstList_single chosen)

def emptyArray : List Char := ['[',']']

def zeroField (name : List Char) : List Char := '"' :: (name ++ ['"',':','0'])

def zeroFields : List (List Char) :=
  [['f','i','l','e'],['l','i','n','e'],['c','a','t','e','g','o','r','y'],
    ['s','e','v','e','r','i','t','y'],['t','i','t','l','e']].map zeroField

def arrayOf (fields : List (List Char)) : List Char :=
  '[' :: '\x7b' :: (List.intercalate [','] fields ++ ['\x7d',']'])

def sampleArray : List Char := arrayOf zeroFields

def sampleFinding : PyFields := FIELDS.map (fun k => (k,.int 0))

theorem emptyArray_spelling : Spelling float emptyArray [] where
  bracketed := ⟨[],rfl⟩
  decoded := rfl
  findings := nofun

theorem sampleArray_spelling : Spelling float sampleArray [sampleFinding] where
  bracketed := ⟨sampleArray.tail.dropLast,by decide⟩
  decoded := rfl
  findings := by
    intro f member
    obtain rfl := List.mem_singleton.mp member
    exact ⟨.refl _,rfl⟩

theorem quiet_of_free (free : backtick ∉ array) : Quiet array := by
  rintro front back rfl
  rw [Bool.eq_false_iff]
  intro fence
  apply free
  have inside := (List.isPrefixOf_iff_prefix.mp fence).subset (show backtick ∈ fenceClose by decide)
  simp [List.dropWhile_suffix space |>.subset inside]

/-- Behind an open fence the array that is read does not depend on the last block. -/
theorem open_blocks (t : List Char) (unclosed : ¬ Closed t) : ∃ l, ∀ array data,
    closing (array ++ fenceClose) = some (array,[]) →
    findall (['j','s','o','n'] ++ (array ++ fenceClose)) = [] →
    firstList float (findall (report t [] array [])).reverse = .ok (some data) →
      firstList float l = .ok (some data) := by
  obtain ⟨base,body,dangling,found⟩ := findall_open t unclosed
  rcases closing_line dangling with ⟨inside,crossing⟩ | beyond
  · refine ⟨('[' :: inside) :: base.reverse,fun array data _ behind chosen => ?_⟩
    have blocks := found (array ++ fenceClose) inside _ (crossing _)
    rw [behind] at blocks
    rw [show findall (report t [] array []) = _ from blocks, List.reverse_concat] at chosen
    exact chosen
  · refine ⟨base.reverse,fun array data closes _ chosen => ?_⟩
    have blocks := found (array ++ fenceClose) (body ++ (fenceLine ++ array)) []
      (by rw [beyond, closes]; rfl)
    rw [show findall (report t [] array []) = _ from blocks, show findall [] = [] from rfl,
      List.reverse_concat] at chosen
    exact firstList_unsheltered (line_unsheltered ('[' :: body) array) chosen

/-- The two arrays end the block that they stand in and open no other. -/
theorem arrays_alone : ∀ array ∈ [emptyArray,sampleArray],
    closing (array ++ fenceClose) = some (array,[]) ∧
      findall (['j','s','o','n'] ++ (array ++ fenceClose)) = [] ∧ backtick ∉ array := by
  decide +kernel

theorem closed_of_exact (exact : ∀ array F, Spelling float array F → Quiet array →
    Exact float t array F) : Closed t := by
  by_contra unclosed
  obtain ⟨l,same⟩ := @open_blocks float t unclosed
  obtain ⟨closes,behind,free⟩ := arrays_alone emptyArray (by simp)
  obtain ⟨closes',behind',free'⟩ := arrays_alone sampleArray (by simp)
  obtain ⟨data,first,empty⟩ :=
    exact_blocks (exact emptyArray [] emptyArray_spelling (quiet_of_free free))
  obtain ⟨data',second,single⟩ :=
    exact_blocks (exact sampleArray [sampleFinding] sampleArray_spelling (quiet_of_free free'))
  have one := same _ _ closes behind first
  have two := same _ _ closes' behind' second
  obtain rfl := Option.some.inj (Except.ok.inj (one.symm.trans two))
  have lengths := empty.length_eq.trans single.length_eq.symm
  exact absurd lengths (by simp)

end Converses

section Totality

variable {float} {text : List Char} {l : List (List Char)} {found seen : List PyFields}
  {data : List PyData} {v : PyData}

theorem hash_ok (u : Unit) : hash v = .ok u ↔ hashable v = true := by
  cases v <;> simp [hash, hashable]

theorem dedupFrom_ok (seen : List (List PyData)) :
    (∃ merged, dedupFrom seen found = .ok merged) ↔
      ∀ f ∈ found, ∀ k ∈ FIELDS, hashable (get f k) = true := by
  induction found generalizing seen with
  | nil => simp [dedupFrom]
  | cons f found ih =>
    have hashed : (FIELDS.map (get f)).forM hash = .ok () ↔
        ∀ k ∈ FIELDS, hashable (get f k) = true := by
      rw [List.forM_eq_forM, forM_ok]
      simp only [List.forall_mem_map, hash_ok]
    rw [List.forall_mem_cons, ← hashed]
    simp only [dedupFrom, bind_ok, exists_unit]
    by_cases known : seen.any (sameTuple (FIELDS.map (get f))) = true
    · rw [if_pos known, exists_and_left, ih]
    · rw [if_neg known, exists_and_left]
      simp only [bind_ok, pure_ok, exists_comm, exists_and_left, exists_eq', and_true]
      rw [ih]

theorem get_selected {g : PyFields} {k : PyString} (known : k ∈ FIELDS) :
    get (FIELDS.map (fun k => (k,get g k))) k = get g k := by
  have same := mapGet_selected (f := g) known
  simp only [PythonData.get] at same ⊢
  rw [same]
  rfl

theorem finding_some {entry : PyData} {f : PyFields} : finding entry = some f ↔
    ∃ g, entry = .dict g ∧ (∀ k ∈ FIELDS, has g k = true) ∧
      isInt (get g (points "line")) = true ∧ f = FIELDS.map (fun k => (k,get g k)) := by
  cases entry with
  | dict g =>
    simp only [finding, PyData.dict.injEq, exists_eq_left', List.all_eq_true]
    split_ifs with kept
    · rw [Option.some.injEq]
      exact ⟨fun same => ⟨kept.1,kept.2,same.symm⟩,fun all => all.2.2.symm⟩
    · exact ⟨nofun,fun all => absurd ⟨all.1,all.2.1⟩ kept⟩
  | _ => simp [finding]

theorem merged_iff : (∃ merged, dedup (data.filterMap finding) = .ok merged) ↔ Usable data := by
  rw [dedup, dedupFrom_ok]
  constructor
  · intro all g member known line k field
    rw [← get_selected field]
    exact all _ (List.mem_filterMap.mpr ⟨_,member,finding_some.mpr ⟨g,rfl,known,line,rfl⟩⟩) k field
  · intro usable f kept k field
    obtain ⟨entry,member,selected⟩ := List.mem_filterMap.mp kept
    obtain ⟨g,rfl,known,line,same⟩ := finding_some.mp selected
    rw [same, get_selected field]
    exact usable g member known line k field

/-- The first text that is not refused decides. -/
theorem firstList_resolution (l : List (List Char)) : firstList float l = .ok none ∨
    ∃ earlier candidate later, l = earlier ++ candidate :: later ∧
      (∀ other ∈ earlier, Refused float other) ∧
      ((∃ data, loads float candidate = .ok (.list data) ∧ firstList float l = .ok (some data)) ∨
        ∃ e, loads float candidate = .error e ∧ e ≠ .jsonDecodeError) := by
  induction l with
  | nil => exact Or.inl rfl
  | cons candidate l ih =>
    rcases @loads_cases float candidate with ⟨data,read⟩ | refused | raises
    · exact Or.inr ⟨[],candidate,l,rfl,nofun,Or.inl ⟨data,read,firstList_list read⟩⟩
    · rw [firstList_refused refused]
      rcases ih with none | ⟨earlier,next,later,rfl,before,decided⟩
      · exact Or.inl none
      · exact Or.inr ⟨candidate :: earlier,next,later,rfl,
          List.forall_mem_cons.mpr ⟨refused,before⟩,decided⟩
    · exact Or.inr ⟨[],candidate,l,rfl,nofun,Or.inr raises⟩

theorem selected_fields (f : PyFields) (member : f ∈ data.filterMap finding) :
    f.map Prod.fst = FIELDS := by
  obtain ⟨_,_,selected⟩ := List.mem_filterMap.mp member
  obtain ⟨g,_,_,_,rfl⟩ := finding_some.mp selected
  rw [List.map_map]
  exact List.map_id _

theorem robust_iff (text : List Char) : Robust float text ↔
    ∀ candidate, Reached float text candidate →
      (∀ e, loads float candidate = .error e → e = .jsonDecodeError) ∧
      ∀ data, loads float candidate = .ok (.list data) → Usable data := by
  constructor
  · rintro ⟨result,parsed,fine⟩ candidate ⟨earlier,later,order,before⟩
    rw [parseFindings_eq, order, firstList_skips earlier _ before] at parsed
    constructor
    · intro e read
      by_contra other
      rw [firstList_raises read other] at parsed
      exact absurd parsed (by simp [Except.map])
    · intro data read
      rw [firstList_list read] at parsed
      obtain rfl := Except.ok.inj parsed
      exact merged_iff.mp (fine _ rfl).2
  · intro all
    rw [Robust, parseFindings_eq]
    rcases @firstList_resolution float (tried text) with
      nothing | ⟨earlier,candidate,later,order,before,⟨data,read,first⟩ | ⟨e,read,other⟩⟩
    · exact ⟨none,by rw [nothing]; rfl,nofun⟩
    · refine ⟨some (data.filterMap finding),by rw [first]; rfl,?_⟩
      rintro found ⟨⟩
      exact ⟨selected_fields,merged_iff.mpr ((all candidate ⟨earlier,later,order,before⟩).2 data read)⟩
    · exact absurd ((all candidate ⟨earlier,later,order,before⟩).1 e read) other

end Totality

def openFence : List Char := fenceOpen ++ ['[']

/-- The text of a finding whose `file` is an empty list. -/
def listField : List Char :=
  arrayOf (['"','f','i','l','e','"',':','[',']'] :: zeroFields.tail)

def listFinding : PyFields := (points "file",.list []) :: FIELDS.tail.map (fun k => (k,.int 0))

theorem listField_facts :
    findall (report openFence [] emptyArray []) = ['[' :: (fenceLine ++ emptyArray)] ∧
      tried listField = [listField] ∧ (∀ k ∈ FIELDS, has listFinding k = true) ∧
      isInt (get listFinding (points "line")) = true ∧ points "file" ∈ FIELDS ∧
      hashable (get listFinding (points "file")) = false := by
  decide +kernel

end BenchmarkFindings

end EvidenceV4
