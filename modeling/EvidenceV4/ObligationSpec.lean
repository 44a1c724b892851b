import EvidenceV4.PyramidFloors

/-!
# Definitions of a specification

The checker reads a specification as text. A definition starts at the line that
declares its name and ends before the next declaration; comments and line breaks
do not count. An invariant refers to the state when its definition, or one that
it names, has the name of a state variable among its words.
-/

set_option autoImplicit false

namespace EvidenceV4

namespace Obligation

open CheckerJson (PyString points)
open EvidenceArtifact (splitlines)
open PyramidFloors (after skipSpace lineStarts)
open PythonData

section Matching

/-- What has to match behind a piece of a pattern. -/
abbrev Next := PyString → Bool

/-- `\s*`, as short or as long as what follows needs it. -/
def spaces (next : Next) : PyString → Bool
  | [] => next []
  | c :: rest => next (c :: rest) || (isSpace c && spaces next rest)

/-- `\s+` -/
def someSpace (next : Next) : PyString → Bool
  | [] => false
  | c :: rest => isSpace c && spaces next rest

def exactly (literal : PyString) (next : Next) (subject : PyString) : Bool :=
  literal.isPrefixOf subject && next (subject.drop literal.length)

variable (word : ℕ → Bool)

/-- `\b` -/
def edge (before : Option ℕ) (subject : PyString) : Bool :=
  (before.map word).getD false != (subject.head?.map word).getD false

/-- `(?:pure\s+def|val|def)` -/
def definer (next : Next) (subject : PyString) : Bool :=
  exactly "pure" (someSpace (exactly "def" next)) subject || exactly "val" next subject ||
    exactly "def" next subject

/-- `DEF_RE`: the line starts the definition of a name. -/
def defines (name line : PyString) : Bool :=
  spaces (definer (someSpace (exactly name (edge word name.getLast?)))) line

def declarators : List PyString :=
  ["val","def","action","var","const","import","module","\x7d"].map points

/-- `NEXT_DECL_RE` -/
def declares (line : PyString) : Bool :=
  spaces (fun subject => exactly "pure" (someSpace (exactly "def" (edge word (some 102)))) subject ||
    declarators.any (fun declarator => exactly declarator (edge word declarator.getLast?) subject)) line

/-- The variable that `VAR_RE` finds at this place. -/
def varName (subject : PyString) : Option PyString :=
  (after "var" (skipSpace subject)).bind (fun rest =>
    let named := skipSpace rest
    let name := named.takeWhile word
    if (rest.head?.map isSpace).getD false = true ∧ name ≠ [] ∧
        (skipSpace (named.dropWhile word)).head? = some 58 then some name
    else none)

end Matching

section Comments

/-- How far a block comment reaches, behind its opening. -/
def blockLength : PyString → Option ℕ
  | [] => none
  | [_] => none
  | a :: b :: rest => if a = 42 ∧ b = 47 then some 2 else (blockLength (b :: rest)).map (· + 1)

/-- Closed block comments become a space each; the number counts what is left to skip. -/
def stripBlocks : ℕ → PyString → PyString
  | _, [] => []
  | skipped + 1, _ :: rest => stripBlocks skipped rest
  | 0, [c] => [c]
  | 0, a :: b :: rest =>
    match if a = 47 ∧ b = 42 then blockLength rest else none with
    | some length => 32 :: stripBlocks (length + 1) (b :: rest)
    | none => a :: stripBlocks 0 (b :: rest)

/-- Line comments are cut off; the truth value says whether one is open. -/
def stripLines : Bool → PyString → PyString
  | _, [] => []
  | true, c :: rest => if c = 10 then c :: stripLines false rest else stripLines true rest
  | false, c :: rest =>
    if c = 47 ∧ rest.head? = some 47 then stripLines true rest else c :: stripLines false rest

/-- `strip_comments` -/
def stripComments (text : PyString) : PyString := stripLines false (stripBlocks 0 text)

end Comments

section Definitions

variable (word : ℕ → Bool)

/-- `re.findall(r"\b(\w+)\b", text)` -/
def words (text : PyString) : List PyString := (text.splitOnP (fun c => !word c)).filter (· ≠ [])

/-- `" ".join(strip_comments("\n".join(body)).split())` -/
def normalized (body : List PyString) : PyString :=
  joined " " (((stripComments (joined "\n" body)).splitOnP isSpace).filter (· ≠ []))

/-- `extract_definition` -/
def extractDefinition (specText name : PyString) : Option PyString :=
  match (splitlines specText).dropWhile (fun line => !defines word name line) with
  | [] => none
  | first :: rest => some (normalized (first :: rest.takeWhile (fun line => !declares word line)))

/-- `set(VAR_RE.findall(strip_comments(spec_text)))` -/
def stateVars (specText : PyString) : List PyString :=
  let text := stripComments specText
  (text :: lineStarts text).filterMap (varName word)

/-- The definitions that a definition names, apart from itself. -/
def named (specText name definition : PyString) : List PyString :=
  ((words word definition).filter (· ≠ name)).filterMap (fun other =>
    (extractDefinition word specText other).filter (· ≠ []))

def expanded (specText name definition : PyString) : PyString :=
  definition ++ (named word specText name definition).flatMap (fun other => 32 :: other)

/-- `(?:pure def|val|def)\s+name(?:\s*:\s*bool)?\s*=\s*true`, over the whole definition. -/
def literallyTrue (name definition : PyString) : Bool :=
  let value : Next := spaces (exactly "=" (spaces (exactly "true" List.isEmpty)))
  let typed : Next := fun subject => spaces (exactly ":" (spaces (exactly "bool" value))) subject ||
    value subject
  (["pure def","val","def"].map points).any (fun keyword =>
    exactly keyword (someSpace (exactly name typed)) definition)

def vacuous (specText name definition : PyString) : Bool :=
  literallyTrue name definition ||
    !(stateVars word specText).any (fun v => v ∈ words word (expanded word specText name definition))

end Definitions

section Facts

variable {word : ℕ → Bool} {specText name definition : PyString}

theorem words_append (space : word 32 = false) (first second : PyString) :
    words word (first ++ 32 :: second) = words word first ++ words word second := by
  unfold words
  rw [List.splitOnP_append_cons, List.filter_append]
  simp [space]

theorem words_nil : words word [] = [] := by
  simp [words]

theorem words_expanded (space : word 32 = false) (others : List PyString) :
    words word (definition ++ others.flatMap (fun other => 32 :: other)) =
      words word definition ++ others.flatMap (words word) := by
  induction others generalizing definition with
  | nil => simp
  | cons other rest ih =>
    rw [List.flatMap_cons, List.flatMap_cons, ← List.append_assoc, ih, words_append space,
      List.append_assoc]

/-- The definition is more than `true`, and it or one that it names has a state variable. -/
def ReferencesState (word : ℕ → Bool) (specText name definition : PyString) : Prop :=
  literallyTrue name definition = false ∧ ∃ v ∈ stateVars word specText,
    v ∈ words word definition ∨ ∃ other ∈ words word definition, other ≠ name ∧
      ∃ text, extractDefinition word specText other = some text ∧ v ∈ words word text

theorem mem_named {text : PyString} : text ∈ named word specText name definition ↔
    ∃ other ∈ words word definition, other ≠ name ∧
      extractDefinition word specText other = some text ∧ text ≠ [] := by
  simp [named, List.mem_filterMap, Option.filter_eq_some_iff, and_assoc]

theorem vacuous_false (space : word 32 = false) : vacuous word specText name definition = false ↔
    ReferencesState word specText name definition := by
  rw [vacuous, Bool.or_eq_false_iff, Bool.not_eq_false', List.any_eq_true, ReferencesState]
  apply and_congr_right
  intro _
  apply exists_congr
  intro v
  apply and_congr_right
  intro _
  rw [decide_eq_true_eq, expanded, words_expanded space, List.mem_append, List.mem_flatMap]
  apply or_congr_right
  constructor
  · rintro ⟨text,listed,found⟩
    obtain ⟨other,known,distinct,read,_⟩ := mem_named.mp listed
    exact ⟨other,known,distinct,text,read,found⟩
  · rintro ⟨other,known,distinct,text,read,found⟩
    have more : text ≠ [] := by
      intro empty
      rw [empty, words_nil] at found
      exact List.not_mem_nil found
    exact ⟨text,mem_named.mpr ⟨other,known,distinct,read,more⟩,found⟩

end Facts

end Obligation

end EvidenceV4
