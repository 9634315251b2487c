import Mathlib.Data.List.Chain
import UnsafeAudit.Source.Scan

/-!
# Forbidden lints

An attribute forbids a lint if the lint stands alone between two commas of its
arguments. This is said about tokens: a literal is one token, and a comment is
none. But an attribute is read from its text without the blanks of ASCII, which is
split at every comma. So a comma in a literal or between further delimiters, and names
that stand side by side, can make up a lint (`literal_reads_as_lint`), and a comment or
another blank can hide one. Without these the reading is exact
(`ofSource_forbidsUnsafe`), whatever parses the file.
-/

namespace UnsafeAudit

namespace Rust

namespace Tree

def tokens (tree : Tree) : List (List Char) :=
  (tree.pieces.filter (!·.isComment)).map (·.text)

def said? (item : Tree) : Option Tree := item.children.find? (·.isNode .metaItem)

/-- What the inner attributes of a file say, those inside of its items apart. -/
def saidInside (file : Tree) : List Tree :=
  (file.children.filter (·.isNode .innerAttributeItem)).filterMap said?

def Uncommented (tree : Tree) : Prop := ∀ piece ∈ tree.pieces, piece.isComment = false

/-- No blanks beyond ASCII stand between the pieces of a tree. -/
def Spaced (tree : Tree) : Prop :=
  ∀ piece ∈ tree.pieces.tail, ∀ c ∈ piece.gap, isAsciiBlank c = true

instance : DecidablePred Uncommented := fun tree =>
  inferInstanceAs (Decidable (∀ piece ∈ tree.pieces, piece.isComment = false))

instance : DecidablePred Spaced := fun tree =>
  decidable_of_iff ((tree.pieces.tail.all fun piece => piece.gap.all isAsciiBlank) = true)
    (by simp [Spaced])

end Tree

namespace Attribute

def depthAfter (depth : Nat) (token : List Char) : Nat :=
  if token = ['('] ∨ token = ['['] ∨ token = ['\x7b'] then depth + 1
  else if token = [')'] ∨ token = [']'] ∨ token = ['\x7d'] then depth - 1
  else depth

/-- The parts between the commas that stand in no further delimiters. -/
def elements (depth : Nat) : List (List Char) → List (List (List Char))
  | [] => [[]]
  | token :: rest =>
    if depth = 0 ∧ token = [','] then [] :: elements depth rest
    else (elements (depthAfter depth token) rest).modifyHead (token :: ·)

def forbidding (arguments : List (List Char)) : List (List Char) :=
  "forbid".toList :: ['('] :: (arguments ++ [[')']])

/-- One element of what is forbidden is this name and nothing else. -/
def Forbids (lint : List Char) (tokens : List (List Char)) : Prop :=
  ∃ arguments, tokens = forbidding arguments ∧ [lint] ∈ elements 0 arguments

theorem dropLast_drop_forbidding (arguments : List (List Char)) :
    ((forbidding arguments).drop 2).dropLast = arguments := by
  simp [forbidding]

instance (lint : List Char) (tokens : List (List Char)) : Decidable (Forbids lint tokens) :=
  decidable_of_iff (tokens = forbidding (tokens.drop 2).dropLast ∧
      [lint] ∈ elements 0 (tokens.drop 2).dropLast)
    ⟨fun h => ⟨_, h⟩, by rintro ⟨arguments, rfl, h⟩; rw [dropLast_drop_forbidding]; exact ⟨rfl, h⟩⟩

/-- The characters of names and numbers. Beyond ASCII all are taken for letters. -/
def isNameChar (c : Char) : Bool := c.isAlphanum || c = '_' || c.toNat ≥ 128

/-- A character that stands neither in names nor between tokens. -/
def isMark (c : Char) : Bool := !isNameChar c && !Tree.isAsciiBlank c

/-- A name or a number, or a token with a mark: punctuation, or a literal with its quotes. -/
def IsLexeme (token : List Char) : Prop :=
  (token ≠ [] ∧ ∀ c ∈ token, isNameChar c) ∨ ∃ c ∈ token, isMark c

instance : DecidablePred IsLexeme := fun token =>
  decidable_of_iff ((token ≠ [] ∧ token.all isNameChar = true) ∨ token.any isMark = true)
    (by simp [IsLexeme])

/-- Raw names have a `#`. -/
def IsName (token : List Char) : Prop := token ≠ [] ∧ ∀ c ∈ token, isNameChar c ∨ c = '#'

instance : DecidablePred IsName := fun token =>
  decidable_of_iff (token ≠ [] ∧ token.all (fun c => isNameChar c || c = '#') = true)
    (by simp [IsName])

inductive IsPath : List (List Char) → Prop
  | name {name : List Char} : IsName name → IsPath [name]
  | step {name : List Char} {rest : List (List Char)} :
      IsName name → IsPath rest → IsPath (name :: "::".toList :: rest)

/-- What may follow the path of an attribute: nothing, a value, or arguments. -/
inductive IsInput : List (List Char) → Prop
  | nothing : IsInput []
  | value (tokens : List (List Char)) : IsInput (['='] :: tokens)
  | parentheses (tokens : List (List Char)) : IsInput (['('] :: (tokens ++ [[')']]))
  | brackets (tokens : List (List Char)) : IsInput (['['] :: (tokens ++ [[']']]))
  | braces (tokens : List (List Char)) : IsInput (['\x7b'] :: (tokens ++ [['\x7d']]))

def WellFormed (tokens : List (List Char)) : Prop :=
  ∃ path input, (tokens = path ++ input ∨ tokens = "::".toList :: path ++ input) ∧
    IsPath path ∧ IsInput input

/-- All commas stand between arguments, and no two names side by side. -/
structure Separated (arguments : List (List Char)) : Prop where
  whole : ∀ token ∈ arguments, ',' ∈ token → token = [',']
  outer : elements 0 arguments = arguments.splitOn [',']
  apart : List.IsChain (fun a b => ¬ (IsName a ∧ IsName b)) arguments

/-- An attribute whose text can be split without a look at its tokens. -/
structure Plain (item : Tree) : Prop where
  uncommented : item.Uncommented
  spaced : item.Spaced
  lexemes : ∀ token ∈ item.tokens, IsLexeme token
  wellFormed : WellFormed item.tokens
  separated : ∀ arguments, item.tokens = forbidding arguments → Separated arguments

variable {tokens arguments group : List (List Char)} {depth : Nat} {lint : List Char}

-- ---------------------------------------------------------------------------
-- Elements
-- ---------------------------------------------------------------------------

theorem intercalate_modifyHead (token : List Char) {groups : List (List (List Char))}
    (h : groups ≠ []) : [[',']].intercalate (groups.modifyHead (token :: ·)) =
      token :: [[',']].intercalate groups := by
  match groups with
  | [_] => rfl
  | _ :: _ :: _ => simp

theorem elements_ne_nil (depth : Nat) (tokens : List (List Char)) : elements depth tokens ≠ [] := by
  fun_induction elements depth tokens <;> simp_all

theorem intercalate_elements (depth : Nat) (tokens : List (List Char)) :
    [[',']].intercalate (elements depth tokens) = tokens := by
  fun_induction elements depth tokens with
  | case1 => rfl
  | case2 depth token rest hcomma ih =>
    obtain ⟨first, others, hrest⟩ := List.exists_cons_of_ne_nil (elements_ne_nil depth rest)
    rw [hrest] at ih ⊢
    simp [ih, hcomma.2]
  | case3 depth token rest hcomma ih =>
    rw [intercalate_modifyHead token (elements_ne_nil _ rest), ih]

-- ---------------------------------------------------------------------------
-- Texts without blanks
-- ---------------------------------------------------------------------------

def glue (tokens : List (List Char)) : List Char :=
  tokens.flatMap fun token => token.filter fun c => !Tree.isAsciiBlank c

@[simp] theorem glue_nil : glue [] = [] := rfl

@[simp]
theorem glue_cons (token : List Char) (tokens : List (List Char)) :
    glue (token :: tokens) = (token.filter fun c => !Tree.isAsciiBlank c) ++ glue tokens := rfl

@[simp]
theorem glue_append (front back : List (List Char)) : glue (front ++ back) = glue front ++ glue back :=
  List.flatMap_append

theorem glue_intercalate (groups : List (List (List Char))) :
    glue ([[',']].intercalate groups) = [','].intercalate (groups.map glue) := by
  induction groups with
  | nil => rfl
  | cons group rest ih =>
    cases rest with
    | nil => simp
    | cons second others =>
      have hcomma : ([','].filter fun c => !Tree.isAsciiBlank c) = [','] := by decide
      rw [List.intercalate_cons_cons, glue_append, glue_append, ih, List.map_cons, List.map_cons,
        List.map_cons, List.intercalate_cons_cons, glue_cons, hcomma, glue_nil, List.append_nil]

theorem splitOn_eq (text : List Char) : Text.splitOn ',' text = text.splitOn ',' := by
  induction text with
  | nil => rfl
  | cons c rest ih =>
    obtain ⟨first, others, hrest⟩ := List.exists_cons_of_ne_nil (List.splitOn_ne_nil ',' rest)
    rw [Text.splitOn, ih, List.splitOn_cons_eq_if_modifyHead, hrest]
    simp

/-- What has no comma stays whole if it is split at commas again. -/
theorem mem_splitOn_intercalate {piece : List Char} {pieces : List (List Char)}
    (hmem : piece ∈ pieces) (h : ',' ∉ piece) : piece ∈ ([','].intercalate pieces).splitOn ',' := by
  induction pieces with
  | nil => cases hmem
  | cons first rest ih =>
    cases rest with
    | nil =>
      obtain rfl := List.mem_singleton.mp hmem
      simp [List.splitOn_eq_singleton h]
    | cons second others =>
      rw [List.intercalate_cons_cons, List.append_assoc, List.singleton_append,
        List.splitOn_eq_splitOnP, List.splitOnP_append_cons _ _ (by decide),
        ← List.splitOn_eq_splitOnP, ← List.splitOn_eq_splitOnP]
      rcases List.mem_cons.mp hmem with rfl | hmem
      · simp [List.splitOn_eq_singleton h]
      · exact List.mem_append_right _ (ih hmem)

theorem not_mem_of_mem_splitOn {sep : List Char} {groups : List (List Char)}
    (h : group ∈ groups.splitOn sep) : sep ∉ group := by
  induction groups generalizing group with
  | nil =>
    obtain rfl : group = [] := by simpa using h
    simp
  | cons first rest ih =>
    rw [List.splitOn_cons_eq_if_modifyHead] at h
    obtain ⟨head, others, hrest⟩ := List.exists_cons_of_ne_nil (List.splitOn_ne_nil sep rest)
    rw [hrest] at h ih
    split at h
    case isTrue =>
      rcases List.mem_cons.mp h with rfl | h
      · simp
      · exact ih h
    case isFalse hne =>
      rcases List.mem_cons.mp h with rfl | h
      · have hhead : sep ∉ head := ih (List.mem_cons_self ..)
        have hfirst : first ≠ sep := by simpa using hne
        simp [hhead, hfirst.symm]
      · exact ih (List.mem_cons_of_mem _ h)

theorem infix_intercalate_of_mem {sep : List Char} {piece : List (List Char)}
    {pieces : List (List (List Char))} (h : piece ∈ pieces) :
    piece <:+: [sep].intercalate pieces := by
  induction pieces with
  | nil => cases h
  | cons first rest ih =>
    cases rest with
    | nil => simpa using List.mem_singleton.mp h ▸ List.infix_refl piece
    | cons second others =>
      rw [List.intercalate_cons_cons]
      rcases List.mem_cons.mp h with rfl | h
      · rw [List.append_assoc]
        exact (List.prefix_append ..).isInfix
      · exact (ih h).trans (List.suffix_append ..).isInfix

theorem infix_of_mem_elements (h : group ∈ elements depth tokens) : group <:+: tokens :=
  intercalate_elements depth tokens ▸ infix_intercalate_of_mem h

theorem forbidArguments?_eq_some_iff {text : List Char} {found : List (List Char)} :
    Tree.forbidArguments? text = some found ↔
      ∃ inner, text = "forbid(".toList ++ (inner ++ [')']) ∧ found = inner.splitOn ',' := by
  rw [Tree.forbidArguments?]
  constructor
  · intro h
    split at h
    case isTrue hform =>
      cases h
      obtain ⟨hopens, hlast⟩ := Bool.and_eq_true_iff.mp hform
      obtain ⟨rest, rfl⟩ := List.isPrefixOf_iff_prefix.mp hopens
      cases rest using List.reverseRecOn with
      | nil => exact absurd hlast (by decide)
      | append_singleton inner c =>
        rw [← List.append_assoc, List.getLast?_concat] at hlast
        obtain rfl := Option.some.inj (of_decide_eq_true hlast)
        exact ⟨inner, rfl, by simp [splitOn_eq]⟩
    case isFalse => cases h
  · rintro ⟨inner, rfl, rfl⟩
    have hform : ("forbid(".toList.isPrefixOf ("forbid(".toList ++ (inner ++ [')'])) &&
        ("forbid(".toList ++ (inner ++ [')'])).getLast? = some ')') = true := by
      rw [← List.append_assoc, List.getLast?_concat]
      simp
    rw [if_pos hform]
    simp [splitOn_eq]

-- ---------------------------------------------------------------------------
-- One attribute
-- ---------------------------------------------------------------------------

theorem isAsciiBlank_iff {c : Char} :
    Tree.isAsciiBlank c = true ↔ c = ' ' ∨ 9 ≤ c.toNat ∧ c.toNat ≤ 13 := by
  simp only [Tree.isAsciiBlank, Bool.or_eq_true, Bool.and_eq_true, decide_eq_true_eq]
  rfl

theorem le_toNat_of_isAlphanum {c : Char} (h : c.isAlphanum = true) : 48 ≤ c.toNat := by
  have hranges : (decide (c.val ≥ 'A'.val ∧ c.val ≤ 'Z'.val) ||
      c.val ≥ 'a'.val && c.val ≤ 'z'.val || c.val ≥ '0'.val && c.val ≤ '9'.val) = true := h
  simp only [ge_iff_le, UInt32.le_iff_toNat_le, UInt32.reduceToNat, Char.toNat_val, Char.reduceVal,
    Bool.or_eq_true, Bool.and_eq_true, decide_eq_true_eq] at hranges
  omega

theorem lt_toNat_of_isNameChar {c : Char} (h : isNameChar c) : 32 < c.toNat := by
  simp only [isNameChar, Bool.or_eq_true, decide_eq_true_eq] at h
  rcases h with (hword | rfl) | hlarge
  · have hlarge := le_toNat_of_isAlphanum hword
    omega
  · decide
  · omega

theorem isAsciiBlank_of_isNameChar {c : Char} (h : isNameChar c) : Tree.isAsciiBlank c = false := by
  have hlarge := lt_toNat_of_isNameChar h
  refine Bool.eq_false_iff.mpr fun hblank => ?_
  rcases isAsciiBlank_iff.mp hblank with rfl | ⟨-, hsmall⟩
  · exact absurd hlarge (by decide)
  · omega

/-- Blanks in ASCII between tokens go away with those inside of them. -/
theorem filter_text_eq {item : Tree} (huncommented : item.Uncommented) (hspaced : item.Spaced) :
    (item.text.filter fun c => !Tree.isAsciiBlank c) = glue item.tokens := by
  have htokens : item.tokens = item.pieces.map (·.text) := by
    rw [Tree.tokens, List.filter_eq_self.mpr fun piece hpiece => by simp [huncommented piece hpiece]]
  rw [htokens, Tree.text]
  rw [Tree.Spaced] at hspaced
  generalize item.pieces = pieces at hspaced
  cases pieces with
  | nil => rfl
  | cons first rest =>
    have hrest : ((rest.flatMap fun piece => piece.gap ++ piece.text).filter fun c =>
        !Tree.isAsciiBlank c) = glue (rest.map (·.text)) := by
      rw [glue, List.filter_flatMap, List.flatMap_map]
      refine List.flatMap_congr fun piece hpiece => ?_
      have hgap : (piece.gap.filter fun c => !Tree.isAsciiBlank c) = [] :=
        List.filter_eq_nil_iff.mpr fun c hc => by simp [hspaced piece hpiece c hc]
      rw [List.filter_append, hgap, List.nil_append]
    rw [List.filter_append, hrest, List.map_cons, glue_cons]

theorem glue_forbidding (arguments : List (List Char)) :
    glue (forbidding arguments) = "forbid(".toList ++ (glue arguments ++ [')']) := by
  have hforbid : ("forbid".toList.filter fun c => !Tree.isAsciiBlank c) = "forbid".toList := by
    decide
  have hclosing : glue [[')']] = [')'] := by decide
  rw [forbidding, glue_cons, hforbid, glue_cons, glue_append, hclosing]
  rfl

theorem IsPath.exists_cons {path : List (List Char)} (h : IsPath path) :
    ∃ name rest, path = name :: rest ∧ IsName name ∧
      (rest = [] ∨ ∃ more, rest = "::".toList :: more) := by
  cases h with
  | name hname => exact ⟨_, [], rfl, hname, .inl rfl⟩
  | step hname _ => exact ⟨_, _, rfl, hname, .inr ⟨_, rfl⟩⟩

theorem IsInput.next {input rest : List (List Char)} (h : IsInput input)
    (hrest : rest = [] ∨ ∃ more, rest = "::".toList :: more) :
    rest ++ input = [] ∨
      (∃ token ∈ ["::".toList, ['='], ['['], ['\x7b']], ∃ more, rest ++ input = token :: more) ∨
      ∃ arguments, rest ++ input = ['('] :: (arguments ++ [[')']]) := by
  rcases hrest with rfl | ⟨more, rfl⟩
  · cases h with
    | nothing => exact .inl rfl
    | value tokens => exact .inr (.inl ⟨['='], by simp, tokens, rfl⟩)
    | parentheses tokens => exact .inr (.inr ⟨tokens, rfl⟩)
    | brackets tokens => exact .inr (.inl ⟨['['], by simp, _, rfl⟩)
    | braces tokens => exact .inr (.inl ⟨['\x7b'], by simp, _, rfl⟩)
  · exact .inr (.inl ⟨"::".toList, by simp, _, rfl⟩)

/-- The characters that a name goes on with. -/
def inName (c : Char) : Bool := isNameChar c || c = '#'

theorem filter_name {name : List Char} (h : IsName name) :
    (name.filter fun c => !Tree.isAsciiBlank c) = name := by
  refine List.filter_eq_self.mpr fun c hc => ?_
  rcases h.2 c hc with hc | rfl
  · simp [isAsciiBlank_of_isNameChar hc]
  · decide

/-- If nothing that follows a name can go on with it, the name ends where `forbid` does. -/
theorem eq_forbid_of_append {name after rest : List Char} (h : IsName name)
    (hends : after.takeWhile inName = []) (heq : name ++ after = "forbid(".toList ++ rest) :
    name = "forbid".toList ∧ after = '(' :: rest := by
  have hall : ∀ c ∈ name, inName c = true := fun c hc => by simpa [inName] using h.2 c hc
  have hforbid : ("forbid(".toList ++ rest).takeWhile inName = "forbid".toList := rfl
  have hsame := congrArg (List.takeWhile inName) heq
  rw [List.takeWhile_append_of_pos hall, hends, hforbid, List.append_nil] at hsame
  subst hsame
  exact ⟨rfl, List.append_right_injective _ heq⟩

/-- Only an attribute with arguments in parentheses behind `forbid` begins with `forbid(`. -/
theorem eq_forbidding_of_glue (h : WellFormed tokens) {rest : List Char}
    (hglue : glue tokens = "forbid(".toList ++ rest) :
    ∃ arguments, tokens = forbidding arguments := by
  obtain ⟨path, input, htokens | htokens, hpath, hinput⟩ := h
  case inr =>
    rw [htokens, List.cons_append, glue_cons] at hglue
    cases hglue
  obtain ⟨name, more, rfl, hname, hmore⟩ := hpath.exists_cons
  rw [htokens, List.cons_append, glue_cons, filter_name hname] at hglue
  rcases hinput.next hmore with hnext | ⟨token, htoken, later, hnext⟩ | ⟨arguments, hnext⟩
  · rw [hnext] at hglue
    cases (eq_forbid_of_append hname rfl hglue).2
  · obtain ⟨c, after, hafter, hmark, hother⟩ :
        ∃ c after, glue (more ++ input) = c :: after ∧ inName c = false ∧ c ≠ '(' := by
      rw [hnext]
      simp only [List.mem_cons, List.not_mem_nil, or_false] at htoken
      rcases htoken with rfl | rfl | rfl | rfl <;>
        exact ⟨_, _, rfl, by decide, by decide⟩
    rw [hafter] at hglue
    have hends : (c :: after).takeWhile inName = [] := List.takeWhile_cons_of_neg (by simp [hmark])
    cases (eq_forbid_of_append hname hends hglue).2
    exact absurd rfl hother
  · have hopening : glue (more ++ input) = '(' :: glue (arguments ++ [[')']]) := by rw [hnext]; rfl
    rw [hopening] at hglue
    have hforbid := (eq_forbid_of_append hname (List.takeWhile_cons_of_neg (by decide)) hglue).1
    exact ⟨arguments, by rw [htokens, List.cons_append, hnext, hforbid, forbidding]⟩

/-- Tokens that make up a name are this name, if no two of them are names. -/
theorem eq_of_glue_eq (hlexemes : ∀ token ∈ group, IsLexeme token)
    (hapart : List.IsChain (fun a b => ¬ (IsName a ∧ IsName b)) group)
    (hne : lint ≠ []) (hlint : ∀ c ∈ lint, isNameChar c) (hglue : glue group = lint) :
    group = [lint] := by
  have hkept : ∀ token ∈ group, ∀ c ∈ token, Tree.isAsciiBlank c = false → c ∈ lint := by
    intro token htoken c hc hblank
    rw [← hglue, glue, List.mem_flatMap]
    exact ⟨token, htoken, List.mem_filter.mpr ⟨hc, by simp [hblank]⟩⟩
  have hnames : ∀ token ∈ group, token ≠ [] ∧ ∀ c ∈ token, isNameChar c := by
    intro token htoken
    rcases hlexemes token htoken with hname | ⟨c, hc, hmark⟩
    · exact hname
    · obtain ⟨hother, hblank⟩ : isNameChar c = false ∧ Tree.isAsciiBlank c = false := by
        simpa [isMark] using hmark
      exact absurd (hlint c (hkept token htoken c hc hblank)) (by simp [hother])
  have hisName : ∀ token ∈ group, IsName token := fun token htoken =>
    ⟨(hnames token htoken).1, fun c hc => .inl ((hnames token htoken).2 c hc)⟩
  rcases group with _ | ⟨first, _ | ⟨second, rest⟩⟩
  · exact absurd hglue.symm hne
  · simpa [filter_name (hisName first (by simp))] using hglue
  · exact absurd ⟨hisName first (by simp), hisName second (by simp)⟩
      (List.isChain_cons_cons.mp hapart).1

theorem mem_splitOn_glue_of_mem_elements (hne : ',' ∉ lint)
    (hblank : ∀ c ∈ lint, Tree.isAsciiBlank c = false) (h : [lint] ∈ elements depth arguments) :
    lint ∈ (glue arguments).splitOn ',' := by
  have hglue : glue [lint] = lint := by
    simpa using fun c hc => hblank c hc
  rw [← intercalate_elements depth arguments, glue_intercalate]
  exact mem_splitOn_intercalate (List.mem_map.mpr ⟨[lint], h, hglue⟩) hne

/-- Where all commas stand between arguments, what is read is there. -/
theorem mem_elements_of_mem_splitOn_glue (hseparated : Separated arguments)
    (hlexemes : ∀ token ∈ arguments, IsLexeme token) (hne : lint ≠ [])
    (hlint : ∀ c ∈ lint, isNameChar c) (h : lint ∈ (glue arguments).splitOn ',') :
    [lint] ∈ elements 0 arguments := by
  have hcommas : ∀ piece ∈ (elements 0 arguments).map glue, ',' ∉ piece := by
    rintro _ hpiece hcomma
    obtain ⟨group, hgroup, rfl⟩ := List.mem_map.mp hpiece
    obtain ⟨token, htoken, hc⟩ := List.mem_flatMap.mp hcomma
    have hmem := (infix_of_mem_elements hgroup).subset htoken
    rw [hseparated.whole token hmem (List.mem_filter.mp hc).1] at htoken
    rw [hseparated.outer] at hgroup
    exact not_mem_of_mem_splitOn hgroup htoken
  have hpieces : (glue arguments).splitOn ',' = (elements 0 arguments).map glue := by
    conv_lhs => rw [← intercalate_elements 0 arguments, glue_intercalate]
    exact List.splitOn_intercalate ',' hcommas (by simpa using elements_ne_nil 0 arguments)
  rw [hpieces] at h
  obtain ⟨group, hgroup, hglue⟩ := List.mem_map.mp h
  have hpart := infix_of_mem_elements hgroup
  have hapart := List.IsChain.infix hseparated.apart hpart
  rwa [← eq_of_glue_eq (fun token htoken => hlexemes token (hpart.subset htoken)) hapart hne hlint
    hglue]

/-- Whether a lint is forbidden by the text of an attribute. -/
def Reads (lint : List Char) (item : Tree) : Prop :=
  ∃ found, Tree.forbidArguments? (item.text.filter fun c => !Tree.isAsciiBlank c) = some found ∧
    lint ∈ found

variable {item : Tree}

theorem reads_iff (huncommented : item.Uncommented) (hspaced : item.Spaced) :
    Reads lint item ↔
      ∃ inner, glue item.tokens = "forbid(".toList ++ (inner ++ [')']) ∧
        lint ∈ inner.splitOn ',' := by
  simp only [Reads, filter_text_eq huncommented hspaced, forbidArguments?_eq_some_iff]
  constructor
  · rintro ⟨_, ⟨inner, hglue, rfl⟩, hmem⟩
    exact ⟨inner, hglue, hmem⟩
  · rintro ⟨inner, hglue, hmem⟩
    exact ⟨_, ⟨inner, hglue, rfl⟩, hmem⟩

/-- A name that an attribute forbids is read unless comments or blanks beyond ASCII are in the way. -/
theorem reads_of_forbids (huncommented : item.Uncommented) (hspaced : item.Spaced)
    (hlint : ∀ c ∈ lint, isNameChar c) (h : Forbids lint item.tokens) : Reads lint item := by
  obtain ⟨arguments, htokens, hmem⟩ := h
  refine (reads_iff huncommented hspaced).mpr ⟨glue arguments, ?_, ?_⟩
  · rw [htokens, glue_forbidding]
  · refine mem_splitOn_glue_of_mem_elements (fun hcomma => ?_)
      (fun c hc => isAsciiBlank_of_isNameChar (hlint c hc)) hmem
    exact absurd (hlint ',' hcomma) (by decide)

theorem forbids_of_reads (hplain : Plain item) (hne : lint ≠ [])
    (hlint : ∀ c ∈ lint, isNameChar c) (h : Reads lint item) : Forbids lint item.tokens := by
  obtain ⟨inner, hglue, hmem⟩ := (reads_iff hplain.uncommented hplain.spaced).mp h
  obtain ⟨arguments, htokens⟩ := eq_forbidding_of_glue hplain.wellFormed hglue
  obtain rfl : glue arguments = inner := by
    rw [htokens, glue_forbidding] at hglue
    exact List.append_left_injective _ (List.append_right_injective _ hglue)
  have hlexemes : ∀ token ∈ arguments, IsLexeme token := fun token htoken =>
    hplain.lexemes token (by rw [htokens, forbidding]; simp [htoken])
  exact ⟨arguments, htokens, mem_elements_of_mem_splitOn_glue (hplain.separated arguments htokens)
    hlexemes hne hlint hmem⟩

end Attribute

-- ---------------------------------------------------------------------------
-- A file
-- ---------------------------------------------------------------------------

open Attribute

theorem Tree.forbidsUnsafe_iff {item : Tree} : item.forbidsUnsafe = true ↔
    ∃ said, item.said? = some said ∧ Reads "unsafe_code".toList said := by
  rw [Tree.forbidsUnsafe, Tree.attributeText?, ← Tree.said?]
  cases item.said? with
  | none => simp
  | some said =>
    simp only [Option.map_some, Option.bind_some, Option.some.injEq, exists_eq_left', Reads]
    cases Tree.forbidArguments? (said.text.filter fun c => !Tree.isAsciiBlank c) with
    | none => simp
    | some found => simp

theorem Tree.mem_saidInside {file said : Tree} : said ∈ file.saidInside ↔
    ∃ item ∈ file.children, item.isNode .innerAttributeItem = true ∧ item.said? = some said := by
  simp [Tree.saidInside, and_assoc]

end Rust

namespace FileUsage

open Rust Attribute

theorem forbidsUnsafe_iff {includeTests : Bool} {file : Tree} :
    (ofTree includeTests file).forbidsUnsafe = true ↔
      ∃ said ∈ file.saidInside, Reads "unsafe_code".toList said := by
  simp only [ofTree, List.any_eq_true, Bool.and_eq_true, Tree.forbidsUnsafe_iff, Tree.mem_saidInside]
  constructor
  · rintro ⟨item, hitem, hkind, said, hsaid, hreads⟩
    exact ⟨said, ⟨item, hitem, hkind, hsaid⟩, hreads⟩
  · rintro ⟨said, ⟨item, hitem, hkind, hsaid⟩, hreads⟩
    exact ⟨item, hitem, hkind, said, hsaid, hreads⟩

/-- An attribute of a file that forbids unsafe code is seen unless there are comments in it or blanks
beyond ASCII. What is seen is there, if all such attributes can be split without a look at their
tokens. -/
theorem ofSource_forbidsUnsafe [Parser] (includeTests : Bool) (source : List Char) :
    let file := Parser.parse source
    (∀ said ∈ file.saidInside, said.Uncommented → said.Spaced →
      Forbids "unsafe_code".toList said.tokens →
        (ofSource includeTests source).forbidsUnsafe = true) ∧
    ((∀ said ∈ file.saidInside, Plain said) →
      ((ofSource includeTests source).forbidsUnsafe = true ↔
        ∃ said ∈ file.saidInside, Forbids "unsafe_code".toList said.tokens)) := by
  intro file
  have hlint : ∀ c ∈ "unsafe_code".toList, isNameChar c := List.all_eq_true.mp (by decide)
  have hseen : ∀ said ∈ file.saidInside, said.Uncommented → said.Spaced →
      Forbids "unsafe_code".toList said.tokens →
        (ofSource includeTests source).forbidsUnsafe = true :=
    fun said hsaid huncommented hspaced h =>
      forbidsUnsafe_iff.mpr ⟨said, hsaid, reads_of_forbids huncommented hspaced hlint h⟩
  refine ⟨hseen, fun hplain => ⟨fun h => ?_, fun ⟨said, hsaid, h⟩ =>
    hseen said hsaid (hplain said hsaid).uncommented (hplain said hsaid).spaced h⟩⟩
  obtain ⟨said, hsaid, hreads⟩ := forbidsUnsafe_iff.mp h
  exact ⟨said, hsaid, forbids_of_reads (hplain said hsaid) (by decide) hlint hreads⟩

-- ---------------------------------------------------------------------------
-- Files
-- ---------------------------------------------------------------------------

/-- An inner attribute at the start of a line. -/
def innerAttribute (said : Forest) : Tree :=
  .node .innerAttributeItem [.leaf ['\n'] ['#'], .leaf [] ['!'], .leaf [] ['['],
    .node .metaItem said, .leaf [] [']']]

def called (name : String) (arguments : Forest) : Forest :=
  [.leaf [] name.toList, .node (.other "token_tree")
    (.leaf [] ['('] :: arguments ++ [.leaf [] [')']])]

def forbiddingFile : Tree := .node .sourceFile [
  innerAttribute (called "deny" [.leaf [] "missing_docs".toList]),
  innerAttribute (called "forbid"
    [.leaf [] "unused".toList, .leaf [] [','], .leaf [' '] "unsafe_code".toList])]

def literalFile : Tree := .node .sourceFile [innerAttribute (called "forbid"
  [.leaf [] "missing_docs".toList, .leaf [] [','], .leaf [' '] "reason".toList, .leaf [' '] ['='],
    .leaf [' '] "\"a,unsafe_code,b\"".toList])]

def commentedFile : Tree := .node .sourceFile [innerAttribute (called "forbid"
  [.comment [] "/* all */".toList, .leaf [' '] "unsafe_code".toList])]

theorem tokens_forbiddingFile : forbiddingFile.saidInside.map Tree.tokens =
    [["deny".toList, ['('], "missing_docs".toList, [')']],
      forbidding ["unused".toList, [','], "unsafe_code".toList]] := by decide +kernel

theorem plain_forbiddingFile : ∀ said ∈ forbiddingFile.saidInside, Plain said := by
  have hpieces : ∀ said ∈ forbiddingFile.saidInside,
      said.Uncommented ∧ said.Spaced ∧ ∀ token ∈ said.tokens, IsLexeme token := by decide +kernel
  intro said hsaid
  obtain ⟨huncommented, hspaced, hlexemes⟩ := hpieces said hsaid
  have htokens : said.tokens ∈ forbiddingFile.saidInside.map Tree.tokens :=
    List.mem_map_of_mem hsaid
  rw [tokens_forbiddingFile, List.mem_cons, List.mem_singleton] at htokens
  rcases htokens with htokens | htokens
  · refine ⟨huncommented, hspaced, hlexemes, ?_, fun arguments h => ?_⟩
    · exact htokens ▸
        ⟨["deny".toList], _, .inl rfl, .name (by decide), .parentheses ["missing_docs".toList]⟩
    · rw [htokens, forbidding] at h
      exact absurd (List.cons.inj h).1 (by decide)
  · refine ⟨huncommented, hspaced, hlexemes, ?_, fun arguments h => ?_⟩
    · exact htokens ▸ ⟨["forbid".toList], _, .inl rfl, .name (by decide), .parentheses _⟩
    · rw [htokens] at h
      rw [← dropLast_drop_forbidding arguments, ← h, dropLast_drop_forbidding]
      exact ⟨by decide, by decide, by decide⟩

/-- The parser that finds a certain file in every text. -/
abbrev finding (file : Tree) : Parser := ⟨fun _ => file⟩

theorem ofSource_forbidsUnsafe_forbidding :
    forbiddingFile.text = "#![deny(missing_docs)]\n#![forbid(unused, unsafe_code)]".toList ∧
    (∀ said ∈ forbiddingFile.saidInside, Plain said) ∧
    (@ofSource (finding forbiddingFile) false forbiddingFile.text).forbidsUnsafe = true := by
  have hforbids : ∃ said ∈ forbiddingFile.saidInside,
      Forbids "unsafe_code".toList said.tokens := by decide +kernel
  exact ⟨by decide +kernel, plain_forbiddingFile,
    ((@ofSource_forbidsUnsafe (finding forbiddingFile) false forbiddingFile.text).2
      plain_forbiddingFile).mpr hforbids⟩

/-- A lint is read from a literal that names it between commas, and not read behind a comment. -/
theorem literal_reads_as_lint :
    literalFile.text = "#![forbid(missing_docs, reason = \"a,unsafe_code,b\")]".toList ∧
    (@ofSource (finding literalFile) false literalFile.text).forbidsUnsafe = true ∧
    (∀ said ∈ literalFile.saidInside, ¬ Forbids "unsafe_code".toList said.tokens) ∧
    commentedFile.text = "#![forbid(/* all */ unsafe_code)]".toList ∧
    (@ofSource (finding commentedFile) false commentedFile.text).forbidsUnsafe = false ∧
    ∃ said ∈ commentedFile.saidInside, Forbids "unsafe_code".toList said.tokens := by
  decide +kernel

end FileUsage

end UnsafeAudit
