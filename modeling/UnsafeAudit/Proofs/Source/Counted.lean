import Mathlib.Data.Set.Card
import UnsafeAudit.Proofs.Source.Forbidden

/-!
# Counted nodes

Each count of a file is the number of the nodes of one sort that are left when comments, outer
attributes and test code are taken out of its tree (`ofTree_counts_kept`). Equal trees may stand in
several places, so it is addresses that are counted. What the walk carries along is read off the
tree: whether a function is a method off the two nodes above it, and whether a test attribute
waits off the siblings in front.
-/

namespace UnsafeAudit

namespace Rust.Tree

/-- The tree at an address, which is the number of the child to go to at each node on the way. -/
def at? (tree : Tree) : List Nat → Option Tree
  | [] => some tree
  | i :: rest => tree.children[i]?.bind fun child => child.at? rest

def IsTrivia (tree : Tree) : Prop := tree.isComment = true ∨ tree.isNode .attributeItem = true

/-- An outer attribute that says `test` or `cfg(test)`, blanks apart. -/
def IsTestMark (tree : Tree) : Prop :=
  tree.isNode .attributeItem = true ∧ ∃ said, tree.said? = some said ∧
    ((said.text.filter fun c => !isAsciiBlank c) = "test".toList ∨
      (said.text.filter fun c => !isAsciiBlank c) = "cfg(test)".toList)

/-- There is a test attribute behind the last of some siblings that is neither a comment nor an
outer attribute. -/
def Marked (before : Forest) : Prop :=
  ∃ first mark between, before = first ++ mark :: between ∧ mark.IsTestMark ∧
    ∀ tree ∈ between, tree.IsTrivia

/-- A tree that pruning leaves behind the siblings in front of it. -/
structure Stays (includeTests : Bool) (before : Forest) (tree : Tree) : Prop where
  solid : ¬ tree.IsTrivia
  unmarked : includeTests = false → ¬ Marked before

/-- Pruning leaves the node at an address and all nodes on the way to it. -/
def Keeps (includeTests : Bool) (tree : Tree) : List Nat → Prop
  | [] => True
  | i :: rest => ∃ child, tree.children[i]? = some child ∧
      child.Stays includeTests (tree.children.take i) ∧ child.Keeps includeTests rest

def HasUnsafeWord (tree : Tree) : Prop :=
  tree.isToken "unsafe" = true ∨
    tree.isNode .functionModifiers = true ∧ ∃ word ∈ tree.children, word.isToken "unsafe" = true

/-- An item with these children is unsafe. No word counts behind the first modifiers. -/
def SaysUnsafe (children : Forest) : Prop :=
  ∃ before word after, children = before ++ word :: after ∧ word.HasUnsafeWord ∧
    ∀ tree ∈ before, tree.isNode .functionModifiers = false

/-- The node at an address stands directly in the body of an `impl` or a `trait`. -/
def IsMember (file : Tree) (address : List Nat) : Prop :=
  ∃ outer i j container body, address = outer ++ [i, j] ∧
    file.at? outer = some container ∧
      (container.isNode .implItem = true ∨ container.isNode .traitItem = true) ∧
    file.at? (outer ++ [i]) = some body ∧ body.isNode .declarationList = true

variable {tree child : Tree} {before rest : Forest} {includeTests : Bool} {address : List Nat}

theorem isTestAttribute_iff (h : tree.isNode .attributeItem = true) :
    tree.isTestAttribute = true ↔ tree.IsTestMark := by
  rw [isTestAttribute, attributeText?, ← said?, IsTestMark]
  cases tree.said? <;> simp [h]

theorem IsTestMark.isTrivia (h : tree.IsTestMark) : tree.IsTrivia := .inr h.1

instance : DecidablePred IsTestMark := fun tree =>
  decidable_of_iff (tree.isNode .attributeItem = true ∧ tree.isTestAttribute = true)
    ⟨fun ⟨h, htest⟩ => (isTestAttribute_iff h).mp htest,
      fun h => ⟨h.1, (isTestAttribute_iff h.1).mpr h⟩⟩

-- ---------------------------------------------------------------------------
-- Test marks
-- ---------------------------------------------------------------------------

theorem not_marked_nil : ¬ Marked [] := by
  rintro ⟨first, mark, between, h, -⟩
  simp at h

theorem marked_concat_iff : Marked (before ++ [tree]) ↔
    tree.IsTestMark ∨ tree.IsTrivia ∧ Marked before := by
  constructor
  · rintro ⟨first, mark, between, h, hmark, hbetween⟩
    rcases between.eq_nil_or_concat with rfl | ⟨between, last, rfl⟩
    · obtain ⟨-, hlast⟩ := List.append_inj' h rfl
      cases hlast
      exact .inl hmark
    · rw [List.concat_eq_append, ← List.cons_append, ← List.append_assoc] at h
      obtain ⟨rfl, hlast⟩ := List.append_inj' h rfl
      cases hlast
      exact .inr ⟨hbetween _ (by simp), first, mark, between, rfl, hmark,
        fun t ht => hbetween t (by simp [ht])⟩
  · rintro (hmark | ⟨htrivia, first, mark, between, rfl, hmark, hbetween⟩)
    · exact ⟨before, tree, [], rfl, hmark, nofun⟩
    · refine ⟨first, mark, between ++ [tree], by simp, hmark, fun t ht => ?_⟩
      rcases List.mem_append.mp ht with ht | ht
      · exact hbetween t ht
      · exact List.mem_singleton.mp ht ▸ htrivia

theorem Keeps.mono (h : tree.Keeps false address) : tree.Keeps true address := by
  induction address generalizing tree with
  | nil => trivial
  | cons i rest ih =>
    obtain ⟨child, hchild, hstays, hrest⟩ := h
    exact ⟨child, hchild, ⟨hstays.solid, nofun⟩, ih hrest⟩

theorem Keeps.of_unmarked
    (hmarks : ∀ address mark, tree.at? address = some mark → ¬ mark.IsTestMark)
    (h : tree.Keeps true address) : tree.Keeps false address := by
  induction address generalizing tree with
  | nil => trivial
  | cons i rest ih =>
    obtain ⟨child, hchild, hstays, hrest⟩ := h
    refine ⟨child, hchild, ⟨hstays.solid, fun _ => ?_⟩, ih (fun address mark hmark => ?_) hrest⟩
    · rintro ⟨first, mark, between, hsplit, hmark, -⟩
      have hmem : mark ∈ tree.children.take i := by simp [hsplit]
      obtain ⟨k, hk⟩ := List.mem_iff_getElem?.mp (List.mem_of_mem_take hmem)
      exact hmarks [k] mark (by simp [at?, hk]) hmark
    · exact hmarks (i :: address) mark (by simp [at?, hchild, hmark])

theorem saysUnsafe_cons_iff : SaysUnsafe (tree :: rest) ↔
    tree.HasUnsafeWord ∨ tree.isNode .functionModifiers = false ∧ SaysUnsafe rest := by
  constructor
  · rintro ⟨_ | ⟨first, before⟩, word, after, h, hword, hbefore⟩
    · cases h
      exact .inl hword
    · cases h
      exact .inr ⟨hbefore _ (by simp), before, word, after, rfl, hword,
        fun t ht => hbefore t (by simp [ht])⟩
  · rintro (hword | ⟨htree, before, word, after, rfl, hword, hbefore⟩)
    · exact ⟨[], tree, rest, rfl, hword, nofun⟩
    · exact ⟨tree :: before, word, after, rfl, hword, List.forall_mem_cons.mpr ⟨htree, hbefore⟩⟩

theorem hasUnsafeModifier_iff (children : Forest) :
    hasUnsafeModifier children = true ↔ SaysUnsafe children := by
  fun_induction hasUnsafeModifier children with
  | case1 => simp [SaysUnsafe]
  | case2 child rest htoken => simp [saysUnsafe_cons_iff, HasUnsafeWord, htoken]
  | case3 child rest htoken hmodifiers =>
    simp [saysUnsafe_cons_iff, HasUnsafeWord, htoken, hmodifiers]
  | case4 child rest htoken hmodifiers ih =>
    simp [saysUnsafe_cons_iff, HasUnsafeWord, htoken, hmodifiers, ih]

end Rust.Tree

open Rust (Forest NodeKind)

namespace Surroundings

variable {outer : Surroundings} {kind : NodeKind}

theorem within_eq_container_iff :
    outer.within kind = .container ↔ kind = .implItem ∨ kind = .traitItem := by
  rw [within]
  split
  · simp_all
  · split <;> simp_all

theorem within_eq_body_iff :
    outer.within kind = .body ↔ kind = .declarationList ∧ outer = .container := by
  rw [within]
  split
  · grind
  · split <;> simp_all

end Surroundings

namespace UnsafeCounts

variable {includeTests dropNext : Bool} {surroundings : Surroundings} {tree : Rust.Tree}
  {rest : Forest}

theorem ofSiblings_of_isTrivia (h : tree.IsTrivia) :
    ofSiblings includeTests surroundings dropNext (tree :: rest) =
      ofSiblings includeTests surroundings
        (dropNext || (!includeTests && decide tree.IsTestMark)) rest := by
  rw [ofSiblings]
  split
  case isTrue hattribute => simp [← Rust.Tree.isTestAttribute_iff hattribute]
  case isFalse hattribute =>
    have hmark : ¬ tree.IsTestMark := fun hmark => hattribute hmark.1
    rw [if_pos (h.resolve_right hattribute)]
    simp [hmark]

theorem ofSiblings_of_not_isTrivia (h : ¬ tree.IsTrivia) :
    ofSiblings includeTests surroundings dropNext (tree :: rest) =
      if dropNext then ofSiblings includeTests surroundings false rest
      else ofTree includeTests surroundings tree +
        ofSiblings includeTests surroundings false rest := by
  rw [ofSiblings, if_neg fun hattribute => h (.inr hattribute),
    if_neg fun hcomment => h (.inl hcomment)]

end UnsafeCounts

structure Site where
  surroundings : Surroundings
  tree : Rust.Tree

namespace Site

def inside (site : Site) : Surroundings :=
  match site.tree with
  | .node kind _ => site.surroundings.within kind
  | _ => .elsewhere

def at? (site : Site) : List Nat → Option Site
  | [] => some site
  | i :: rest => site.tree.children[i]?.bind fun child => at? ⟨site.inside, child⟩ rest

variable {site here : Site} {file : Rust.Tree} {address : List Nat} {i : Nat}

theorem map_tree_at? (site : Site) (address : List Nat) :
    (site.at? address).map tree = site.tree.at? address := by
  induction address generalizing site with
  | nil => rfl
  | cons i rest ih =>
    rw [at?, Rust.Tree.at?]
    cases site.tree.children[i]? with
    | none => rfl
    | some child => exact ih ⟨site.inside, child⟩

theorem tree_at?_of_eq_some (h : site.at? address = some here) :
    site.tree.at? address = some here.tree := by
  rw [← map_tree_at?, h, Option.map_some]

theorem exists_above (h : site.at? (address ++ [i]) = some here) :
    ∃ above, site.at? address = some above ∧ here.surroundings = above.inside := by
  induction address generalizing site with
  | nil =>
    obtain ⟨child, -, rfl⟩ := by simpa [at?, Option.bind_eq_some_iff] using h
    exact ⟨site, rfl, rfl⟩
  | cons k rest ih =>
    obtain ⟨child, hchild, h⟩ := Option.bind_eq_some_iff.mp h
    obtain ⟨above, habove, hinside⟩ := ih h
    exact ⟨above, by simp [at?, hchild, habove], hinside⟩

theorem inside_eq_container_iff : site.inside = .container ↔
    site.tree.isNode .implItem = true ∨ site.tree.isNode .traitItem = true := by
  obtain ⟨surroundings, _ | _ | ⟨kind, children⟩⟩ := site
  · simp [inside, Rust.Tree.isNode]
  · simp [inside, Rust.Tree.isNode]
  · simp [inside, Rust.Tree.isNode, Surroundings.within_eq_container_iff]

theorem inside_eq_body_iff : site.inside = .body ↔
    site.tree.isNode .declarationList = true ∧ site.surroundings = .container := by
  obtain ⟨surroundings, _ | _ | ⟨kind, children⟩⟩ := site
  · simp [inside, Rust.Tree.isNode]
  · simp [inside, Rust.Tree.isNode]
  · simp [inside, Rust.Tree.isNode, Surroundings.within_eq_body_iff]

/-- The walk knows of the two nodes above a node what it takes to tell methods apart. -/
theorem surroundings_eq_body_iff (h : at? ⟨.elsewhere, file⟩ address = some here) :
    here.surroundings = .body ↔ file.IsMember address := by
  constructor
  · intro hsurroundings
    rcases address.eq_nil_or_concat with rfl | ⟨upper, j, rfl⟩
    · cases h
      cases hsurroundings
    rw [List.concat_eq_append] at h ⊢
    obtain ⟨body, hbody, hinside⟩ := exists_above h
    obtain ⟨hlist, hcontainer⟩ := inside_eq_body_iff.mp (hinside ▸ hsurroundings)
    rcases upper.eq_nil_or_concat with rfl | ⟨outer, i, rfl⟩
    · cases hbody
      cases hcontainer
    rw [List.concat_eq_append] at hbody ⊢
    obtain ⟨container, houter, hinside⟩ := exists_above hbody
    exact ⟨outer, i, j, container.tree, body.tree, by simp, tree_at?_of_eq_some houter,
      inside_eq_container_iff.mp (hinside ▸ hcontainer), tree_at?_of_eq_some hbody, hlist⟩
  · rintro ⟨outer, i, j, container, body, rfl, hcontainer, hkind, hbody, hlist⟩
    rw [List.append_cons] at h
    obtain ⟨below, hbelow, hinside⟩ := exists_above h
    obtain ⟨above, habove, hbelowInside⟩ := exists_above hbelow
    cases (tree_at?_of_eq_some habove).symm.trans hcontainer
    cases (tree_at?_of_eq_some hbelow).symm.trans hbody
    rw [hinside, inside_eq_body_iff, hbelowInside, inside_eq_container_iff]
    exact ⟨hlist, hkind⟩

end Site

inductive Construct
  | function
  | expr
  | itemTrait
  | itemImpl
  | method
  deriving DecidableEq, Repr

namespace Construct

def count (counts : UnsafeCounts) : Construct → Nat
  | .function => counts.functions
  | .expr => counts.exprs
  | .itemTrait => counts.itemTraits
  | .itemImpl => counts.itemImpls
  | .method => counts.methods

/-- A node is a construct of this sort. `member` says whether it stands directly in the body of an
`impl` or a `trait`. -/
def Is (member : Prop) (kind : NodeKind) (children : Forest) : Construct → Prop
  | .function => (kind = .functionItem ∨ kind = .functionSignatureItem) ∧
      Rust.Tree.SaysUnsafe children ∧ ¬ member
  | .expr => kind = .unsafeBlock
  | .itemTrait => kind = .traitItem ∧ Rust.Tree.SaysUnsafe children
  | .itemImpl => kind = .implItem ∧ Rust.Tree.SaysUnsafe children
  | .method => (kind = .functionItem ∨ kind = .functionSignatureItem) ∧
      Rust.Tree.SaysUnsafe children ∧ member

def IsAt (file : Rust.Tree) (address : List Nat) (construct : Construct) : Prop :=
  ∃ kind children, file.at? address = some (.node kind children) ∧
    construct.Is (file.IsMember address) kind children

theorem count_zero (construct : Construct) : construct.count .zero = 0 := by
  cases construct <;> rfl

theorem count_add (construct : Construct) (a b : UnsafeCounts) :
    construct.count (a + b) = construct.count a + construct.count b := by
  cases construct <;> rfl

variable {construct : Construct} {includeTests dropNext : Bool} {surroundings : Surroundings}
  {kind : NodeKind} {children before rest : Forest} {tree file : Rust.Tree}

open Classical in
theorem count_ofNode (construct : Construct) :
    construct.count (UnsafeCounts.ofNode surroundings kind children) =
      if construct.Is (surroundings = .body) kind children then 1 else 0 := by
  have hunsafe := Rust.Tree.hasUnsafeModifier_iff children
  unfold UnsafeCounts.ofNode
  split <;> cases construct <;> grind [Is, count, UnsafeCounts.zero]

def found (construct : Construct) (includeTests : Bool) (site : Site) : Set (List Nat) :=
  {address | site.tree.Keeps includeTests address ∧ ∃ surroundings kind children,
    site.at? address = some ⟨surroundings, .node kind children⟩ ∧
      construct.Is (surroundings = .body) kind children}

/-- The addresses of what is counted among siblings, those in front apart. -/
def foundAmong (construct : Construct) (includeTests : Bool) (surroundings : Surroundings)
    (before rest : Forest) : Set (List Nat) :=
  {address | ∃ i child inner, address = i :: inner ∧ before.length ≤ i ∧
    (before ++ rest)[i]? = some child ∧ child.Stays includeTests ((before ++ rest).take i) ∧
      inner ∈ construct.found includeTests ⟨surroundings, child⟩}

theorem found_file (construct : Construct) (includeTests : Bool) (file : Rust.Tree) :
    construct.found includeTests ⟨.elsewhere, file⟩ =
      {address | file.Keeps includeTests address ∧ construct.IsAt file address} := by
  ext address
  refine and_congr_right fun _ => ⟨?_, ?_⟩
  · rintro ⟨surroundings, kind, children, hat, his⟩
    rw [Site.surroundings_eq_body_iff hat] at his
    exact ⟨kind, children, Site.tree_at?_of_eq_some hat, his⟩
  · rintro ⟨kind, children, hat, his⟩
    obtain ⟨⟨surroundings, _⟩, hsite, rfl⟩ :=
      Option.map_eq_some_iff.mp ((Site.map_tree_at? ⟨.elsewhere, file⟩ address).trans hat)
    rw [← Site.surroundings_eq_body_iff hsite] at his
    exact ⟨surroundings, kind, children, hsite, his⟩

theorem found_eq_empty (h : tree.children = [])
    (hne : ∀ kind children, tree ≠ .node kind children) :
    construct.found includeTests ⟨surroundings, tree⟩ = ∅ := by
  refine Set.eq_empty_of_forall_notMem ?_
  rintro (_ | ⟨i, inner⟩) ⟨-, _, kind, children, hat, -⟩
  · cases hat
    exact hne kind children rfl
  · simp [Site.at?, h] at hat

theorem found_node : construct.found includeTests ⟨surroundings, .node kind children⟩ =
    {address | address = [] ∧ construct.Is (surroundings = .body) kind children} ∪
      construct.foundAmong includeTests (surroundings.within kind) [] children := by
  ext address
  constructor
  · rintro ⟨hkeeps, s, k, c, hat, his⟩
    cases address with
    | nil =>
      cases hat
      exact .inl ⟨rfl, his⟩
    | cons i inner =>
      obtain ⟨child, hchild, hstays, hkeeps⟩ := hkeeps
      rw [Site.at?, hchild] at hat
      exact .inr ⟨i, child, inner, rfl, Nat.zero_le i, hchild, hstays, hkeeps, s, k, c, hat, his⟩
  · rintro (⟨rfl, his⟩ | ⟨i, child, inner, rfl, -, hchild, hstays, hkeeps, s, k, c, hat, his⟩)
    · exact ⟨trivial, surroundings, kind, children, rfl, his⟩
    · refine ⟨⟨child, hchild, hstays, hkeeps⟩, s, k, c, ?_, his⟩
      rw [List.nil_append] at hchild
      simpa [Site.at?, Rust.Tree.children, hchild, Site.inside] using hat

theorem foundAmong_nil : construct.foundAmong includeTests surroundings before [] = ∅ := by
  refine Set.eq_empty_of_forall_notMem ?_
  rintro _ ⟨i, child, inner, -, hle, hchild, -⟩
  simp [List.getElem?_eq_none hle] at hchild

theorem foundAmong_cons : construct.foundAmong includeTests surroundings before (tree :: rest) =
    {address | ∃ inner ∈ construct.found includeTests ⟨surroundings, tree⟩,
      tree.Stays includeTests before ∧ before.length :: inner = address} ∪
      construct.foundAmong includeTests surroundings (before ++ [tree]) rest := by
  ext address
  constructor
  · rintro ⟨i, child, inner, rfl, hle, hchild, hstays, hinner⟩
    rcases hle.eq_or_lt with rfl | hlt
    · obtain rfl : tree = child := by simpa using hchild
      exact .inl ⟨inner, hinner, by simpa using hstays, rfl⟩
    · exact .inr ⟨i, child, inner, rfl, by simpa using hlt, by simpa using hchild,
        by simpa using hstays, hinner⟩
  · rintro (⟨inner, hinner, hstays, rfl⟩ | ⟨i, child, inner, rfl, hle, hchild, hstays, hinner⟩)
    · exact ⟨_, tree, inner, rfl, le_rfl, by simp, by simpa using hstays, hinner⟩
    · have hlt : before.length < i := by simpa using hle
      exact ⟨i, child, inner, rfl, hlt.le, by simpa using hchild, by simpa using hstays, hinner⟩

theorem foundAmong_cons_of_not_stays (h : ¬ tree.Stays includeTests before) :
    construct.foundAmong includeTests surroundings before (tree :: rest) =
      construct.foundAmong includeTests surroundings (before ++ [tree]) rest := by
  simp [foundAmong_cons, h]

theorem encard_foundAmong_cons (h : tree.Stays includeTests before) :
    (construct.foundAmong includeTests surroundings before (tree :: rest)).encard =
      (construct.found includeTests ⟨surroundings, tree⟩).encard +
        (construct.foundAmong includeTests surroundings (before ++ [tree]) rest).encard := by
  have himage : {address | ∃ inner ∈ construct.found includeTests ⟨surroundings, tree⟩,
      tree.Stays includeTests before ∧ before.length :: inner = address} =
      (before.length :: ·) '' construct.found includeTests ⟨surroundings, tree⟩ := by
    simp only [h, true_and]
    rfl
  rw [foundAmong_cons, himage, Set.encard_union_eq, List.cons_injective.encard_image]
  refine Set.disjoint_left.mpr ?_
  rintro _ ⟨inner, -, rfl⟩ ⟨i, child, _, h, hle, -⟩
  cases h
  simp at hle

mutual
theorem encard_found (construct : Construct) (includeTests : Bool) :
    ∀ (surroundings : Surroundings) (tree : Rust.Tree),
      (construct.found includeTests ⟨surroundings, tree⟩).encard =
        construct.count (UnsafeCounts.ofTree includeTests surroundings tree)
  | surroundings, .leaf _ _ => by
    rw [found_eq_empty rfl (by simp), Set.encard_empty]
    simp [UnsafeCounts.ofTree, count_zero]
  | surroundings, .comment _ _ => by
    rw [found_eq_empty rfl (by simp), Set.encard_empty]
    simp [UnsafeCounts.ofTree, count_zero]
  | surroundings, .node kind children => by
    have hdisjoint : Disjoint
        {address | address = [] ∧ construct.Is (surroundings = .body) kind children}
        (construct.foundAmong includeTests (surroundings.within kind) [] children) := by
      refine Set.disjoint_left.mpr ?_
      rintro _ ⟨rfl, -⟩ ⟨i, child, inner, h, -⟩
      cases h
    have hbelow := encard_foundAmong construct includeTests (surroundings.within kind) [] children
      false (by simp [Rust.Tree.not_marked_nil])
    rw [found_node, Set.encard_union_eq hdisjoint, hbelow, UnsafeCounts.ofTree, count_add,
      Nat.cast_add, count_ofNode]
    congr 1
    split <;> simp [*]
/-- The walk among siblings, if it drops the next one exactly if a test attribute is in front. -/
theorem encard_foundAmong (construct : Construct) (includeTests : Bool) :
    ∀ (surroundings : Surroundings) (before rest : Forest) (dropNext : Bool),
      (dropNext = true ↔ includeTests = false ∧ Rust.Tree.Marked before) →
        (construct.foundAmong includeTests surroundings before rest).encard =
          construct.count (UnsafeCounts.ofSiblings includeTests surroundings dropNext rest)
  | surroundings, before, [], dropNext, _ => by
    simp [foundAmong_nil, UnsafeCounts.ofSiblings, count_zero]
  | surroundings, before, tree :: rest, dropNext, hdrop => by
    have hrest := encard_foundAmong construct includeTests surroundings (before ++ [tree]) rest
    by_cases htrivia : tree.IsTrivia
    · rw [foundAmong_cons_of_not_stays fun h => h.solid htrivia,
        UnsafeCounts.ofSiblings_of_isTrivia htrivia]
      refine hrest _ ?_
      rw [Rust.Tree.marked_concat_iff]
      cases dropNext <;> cases includeTests <;> simp_all
    -- What is no trivia uses up the attribute that waits.
    have hnext : false = true ↔ includeTests = false ∧ Rust.Tree.Marked (before ++ [tree]) := by
      simp [Rust.Tree.marked_concat_iff, htrivia, mt Rust.Tree.IsTestMark.isTrivia htrivia]
    rw [UnsafeCounts.ofSiblings_of_not_isTrivia htrivia]
    split
    case isTrue hdropped =>
      obtain ⟨hincludeTests, hmarked⟩ := hdrop.mp hdropped
      rw [foundAmong_cons_of_not_stays fun h => h.unmarked hincludeTests hmarked]
      exact hrest _ hnext
    case isFalse hdropped =>
      have hstays : tree.Stays includeTests before :=
        ⟨htrivia, fun hincludeTests hmarked => hdropped (hdrop.mpr ⟨hincludeTests, hmarked⟩)⟩
      rw [encard_foundAmong_cons hstays, hrest _ hnext, count_add, Nat.cast_add,
        encard_found construct includeTests surroundings tree]
end

theorem eq_of_count_eq {a b : UnsafeCounts}
    (h : ∀ construct : Construct, construct.count a = construct.count b) : a = b := by
  rw [UnsafeCounts.mk.injEq]
  exact ⟨h .function, h .expr, h .itemTrait, h .itemImpl, h .method⟩

end Construct

namespace FileUsage

theorem encard_eq_count (construct : Construct) (includeTests : Bool) (children : Forest) :
    {address | (Rust.Tree.node .sourceFile children).Keeps includeTests address ∧
      construct.IsAt (.node .sourceFile children) address}.encard =
      construct.count (ofTree includeTests (.node .sourceFile children)).counts := by
  rw [← Construct.found_file, Construct.encard_found, UnsafeCounts.ofTree, Construct.count_add]
  have hroot : UnsafeCounts.ofNode .elsewhere .sourceFile children = .zero := rfl
  rw [hroot, Construct.count_zero, Nat.zero_add]
  rfl

/-- Each count is the number of the constructs of its sort that are left of a file. Without tests
there are no more of them, and as many if there is no test attribute. -/
theorem ofTree_counts_kept (children : Forest) :
    let file := Rust.Tree.node .sourceFile children
    (∀ (includeTests : Bool) (construct : Construct),
      {address | file.Keeps includeTests address ∧ construct.IsAt file address}.encard =
        construct.count (ofTree includeTests file).counts) ∧
    (∀ construct : Construct, construct.count (ofTree false file).counts ≤
      construct.count (ofTree true file).counts) ∧
    ((∀ address mark, file.at? address = some mark → ¬ mark.IsTestMark) →
      (ofTree false file).counts = (ofTree true file).counts) ∧
    (ofTree false file).forbidsUnsafe = (ofTree true file).forbidsUnsafe := by
  intro file
  refine ⟨fun includeTests construct => encard_eq_count construct includeTests children,
    fun construct => ?_, fun hmarks => Construct.eq_of_count_eq fun construct => ?_, rfl⟩
  · rw [← ENat.natCast_le_natCast, ← encard_eq_count, ← encard_eq_count]
    exact Set.encard_le_encard fun _ ⟨hkeeps, his⟩ => ⟨hkeeps.mono, his⟩
  · rw [← ENat.natCast_inj, ← encard_eq_count, ← encard_eq_count]
    refine congrArg Set.encard (Set.ext fun _ => and_congr_left fun _ => ?_)
    exact ⟨Rust.Tree.Keeps.mono, Rust.Tree.Keeps.of_unmarked hmarks⟩

/-- An attribute that is no test attribute, in front of an unsafe block. -/
def unmarkedFile : Forest :=
  [.node .attributeItem [.node .metaItem [.leaf [] "inline".toList]], .node .unsafeBlock []]

theorem ofTree_counts_kept_unmarked :
    (∀ address mark, (Rust.Tree.node .sourceFile unmarkedFile).at? address = some mark →
      ¬ mark.IsTestMark) ∧
    (ofTree false (.node .sourceFile unmarkedFile)).counts = ⟨0, 1, 0, 0, 0⟩ := by
  have hmarks : ∀ address mark, (Rust.Tree.node .sourceFile unmarkedFile).at? address = some mark →
      ¬ mark.IsTestMark := by
    rintro (_ | ⟨_ | _ | i, _ | ⟨_ | j, _ | ⟨_ | k, _ | ⟨l, rest⟩⟩⟩⟩) mark hat <;>
      cases hat <;> decide
  exact ⟨hmarks, ((ofTree_counts_kept unmarkedFile).2.2.1 hmarks).trans (by decide)⟩

example :
    let test : Rust.Tree := .node .attributeItem [.node .metaItem
      [.leaf [] "cfg".toList, .leaf [] ['('], .leaf [' '] "test".toList, .leaf [' '] [')']]]
    let file : Rust.Tree := .node .sourceFile
      [test, .comment [] "// next".toList, .node .unsafeBlock [], .node .unsafeBlock []]
    (ofTree false file).counts = ⟨0, 1, 0, 0, 0⟩ ∧ (ofTree true file).counts = ⟨0, 2, 0, 0, 0⟩ := by
  decide

end FileUsage

end UnsafeAudit
