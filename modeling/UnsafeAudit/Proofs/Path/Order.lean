import UnsafeAudit.Path.Basic

/-!
# Path order

Paths are ordered by their components, name by name. Paths whose names hold no
separator are told apart by their components, so there is one order in which
such paths stand sorted (`sort_eq_of_perm`). A path that is added comes behind
the paths that it lies below (`exists_sort_concat`).
-/

namespace UnsafeAudit.Path

variable {as bs cs : List String} {a b c new : Path} {paths others : List Path}

-- ---------------------------------------------------------------------------
-- Lists of names
-- ---------------------------------------------------------------------------

theorem namesLE_cons {x y : String} :
    namesLE (x :: as) (y :: bs) = true ↔ x < y ∨ x = y ∧ namesLE as bs = true := by
  simp [namesLE]

theorem namesLE_trans (h : namesLE as bs = true) (h' : namesLE bs cs = true) :
    namesLE as cs = true := by
  induction as generalizing bs cs with
  | nil => rfl
  | cons x as ih =>
    cases bs with
    | nil => cases h
    | cons y bs =>
      cases cs with
      | nil => cases h'
      | cons z cs =>
        rw [namesLE_cons] at h h' ⊢
        rcases h with hxy | ⟨rfl, h⟩
        · rcases h' with hyz | ⟨rfl, -⟩
          · exact .inl (String.lt_trans hxy hyz)
          · exact .inl hxy
        · exact h'.imp_right fun ⟨heq, h'⟩ => ⟨heq, ih h h'⟩

theorem namesLE_total (as bs : List String) : namesLE as bs = true ∨ namesLE bs as = true := by
  induction as generalizing bs with
  | nil => exact .inl rfl
  | cons x as ih =>
    cases bs with
    | nil => exact .inr rfl
    | cons y bs =>
      rw [namesLE_cons, namesLE_cons]
      by_cases hxy : x = y
      · exact (ih bs).imp (fun h => .inr ⟨hxy, h⟩) fun h => .inr ⟨hxy.symm, h⟩
      · by_cases hlt : x < y
        · exact .inl (.inl hlt)
        · exact .inr (.inl (Std.lt_of_le_of_ne (String.not_lt.mp hlt) (Ne.symm hxy)))

theorem namesLE_antisymm (h : namesLE as bs = true) (h' : namesLE bs as = true) : as = bs := by
  induction as generalizing bs with
  | nil =>
    cases bs with
    | nil => rfl
    | cons y bs => cases h'
  | cons x as ih =>
    cases bs with
    | nil => cases h
    | cons y bs =>
      rw [namesLE_cons] at h h'
      rcases h with hxy | ⟨rfl, h⟩
      · rcases h' with hyx | ⟨rfl, -⟩
        · exact absurd (String.lt_trans hxy hyx) (String.lt_irrefl x)
        · exact absurd hxy (String.lt_irrefl _)
      · rcases h' with hxx | ⟨-, h'⟩
        · exact absurd hxx (String.lt_irrefl x)
        · rw [ih h h']

theorem namesLE_append (as bs : List String) : namesLE as (as ++ bs) = true := by
  induction as with
  | nil => rfl
  | cons x as ih => exact namesLE_cons.mpr (.inr ⟨rfl, ih⟩)

-- ---------------------------------------------------------------------------
-- Paths
-- ---------------------------------------------------------------------------

theorem le_trans (h : le a b = true) (h' : le b c = true) : le a c = true := namesLE_trans h h'

theorem le_total (a b : Path) : (le a b || le b a) = true := by
  rw [Bool.or_eq_true]
  exact namesLE_total a.components b.components

def Separated (path : Path) : Prop := ∀ name ∈ path.parts, '/' ∉ name.toList

/-- An anchor is written with separators, so it is no name. -/
theorem Separated.ne_cons_anchor {anchor : Anchor} {rest : List String} (ha : a.Separated)
    (h : anchor ≠ .relative) : a.parts ≠ Anchor.text anchor :: rest := by
  intro heq
  refine ha (Anchor.text anchor) (heq ▸ List.mem_cons_self) ?_
  cases anchor with
  | relative => exact absurd rfl h
  | root => decide
  | doubleRoot => decide

theorem eq_of_components_eq (ha : a.Separated) (hb : b.Separated)
    (h : a.components = b.components) : a = b := by
  obtain ⟨anchor, parts⟩ := a
  obtain ⟨anchor', parts'⟩ := b
  have hne : Anchor.text .root ≠ Anchor.text .doubleRoot := by decide
  cases anchor <;> cases anchor'
  case relative.relative => exact congrArg _ h
  case root.root => exact congrArg _ (List.cons.inj h).2
  case doubleRoot.doubleRoot => exact congrArg _ (List.cons.inj h).2
  case relative.root => exact absurd h (ha.ne_cons_anchor nofun)
  case relative.doubleRoot => exact absurd h (ha.ne_cons_anchor nofun)
  case root.relative => exact absurd h.symm (hb.ne_cons_anchor nofun)
  case doubleRoot.relative => exact absurd h.symm (hb.ne_cons_anchor nofun)
  case root.doubleRoot => exact absurd (List.cons.inj h).1 hne
  case doubleRoot.root => exact absurd (List.cons.inj h).1.symm hne

theorem eq_of_components_eq_of_isAbsolute (ha : a.isAbsolute = true) (hb : b.isAbsolute = true)
    (h : a.components = b.components) : a = b := by
  obtain ⟨anchor, parts⟩ := a
  obtain ⟨anchor', parts'⟩ := b
  cases anchor <;> cases anchor' <;> simp_all [components, isAbsolute, Anchor.text]

theorem le_antisymm (ha : a.Separated) (hb : b.Separated) (h : le a b = true)
    (h' : le b a = true) : a = b := eq_of_components_eq ha hb (namesLE_antisymm h h')

def descend (base : Path) (names : List String) : Path := ⟨base.anchor, base.parts ++ names⟩

@[simp] theorem descend_nil (base : Path) : base.descend [] = base := by
  rw [descend, List.append_nil]

theorem child_descend (base : Path) (name : String) (names : List String) :
    (base.child name).descend names = base.descend (name :: names) := by
  simp [child, descend]

theorem components_descend (a : Path) (names : List String) :
    (a.descend names).components = a.components ++ names := by
  cases hanchor : a.anchor <;> simp [components, descend, hanchor]

theorem le_descend (a : Path) (names : List String) : le a (a.descend names) = true := by
  rw [le, components_descend]
  exact namesLE_append _ _

theorem mem_sort {p : Path} : p ∈ sort paths ↔ p ∈ paths := List.mem_mergeSort

theorem pairwise_sort (paths : List Path) : (sort paths).Pairwise (le · · = true) :=
  @List.pairwise_mergeSort Path le (fun _ _ _ => le_trans) le_total paths

/-- Paths that their components tell apart stand sorted in one order only. -/
theorem sort_eq_of_perm_of_components (h : paths.Perm others)
    (hs : ∀ p ∈ paths, ∀ q ∈ paths, p.components = q.components → p = q) :
    sort paths = sort others := by
  refine List.Perm.eq_of_pairwise ?_ (pairwise_sort paths) (pairwise_sort others) ?_
  · intro a b ha hb hab hba
    exact hs a (mem_sort.mp ha) b (h.mem_iff.mpr (mem_sort.mp hb)) (namesLE_antisymm hab hba)
  · exact (List.mergeSort_perm paths le).trans (h.trans (List.mergeSort_perm others le).symm)

theorem sort_eq_of_perm (hs : ∀ p ∈ paths, p.Separated) (h : paths.Perm others) :
    sort paths = sort others :=
  sort_eq_of_perm_of_components h fun p hp q hq => eq_of_components_eq (hs p hp) (hs q hq)

/-- The components of a path come before those of another, and are not the same. -/
def Precedes (a b : Path) : Prop := a.le b = true ∧ a.components ≠ b.components

theorem pairwise_sort_of_nodup (h : paths.Nodup)
    (hs : ∀ p ∈ paths, ∀ q ∈ paths, p.components = q.components → p = q) :
    (sort paths).Pairwise Precedes := by
  have hnodup : (sort paths).Nodup := (List.mergeSort_perm paths le).nodup_iff.mpr h
  refine ((pairwise_sort paths).and hnodup).imp_of_mem fun {a b} ha hb => ?_
  rintro ⟨hle, hne⟩
  exact ⟨hle, fun heq => hne (hs a (mem_sort.mp ha) b (mem_sort.mp hb) heq)⟩

/-- Where a path that is added stands: behind all others that are not above it. -/
theorem exists_sort_concat (hs : ∀ p ∈ paths, p.Separated) (hnew : new.Separated) :
    ∃ before after, sort (paths ++ [new]) = before ++ new :: after ∧
      sort paths = before ++ after ∧
      ∀ p ∈ paths, p ≠ new → le p new = true → p ∈ before := by
  obtain ⟨before, after, hcons, hrest, -⟩ :=
    @List.mergeSort_cons Path le (fun _ _ _ => le_trans) le_total new paths
  have hall : ∀ p ∈ new :: paths, p.Separated := List.forall_mem_cons.mpr ⟨hnew, hs⟩
  refine ⟨before, after, ?_, hrest, fun p hp hne hle => ?_⟩
  · rw [← hcons]
    exact (sort_eq_of_perm hall (List.perm_append_singleton new paths).symm).symm
  · have hmem : p ∈ before ++ after := hrest ▸ mem_sort.mpr hp
    refine (List.mem_append.mp hmem).resolve_right fun hafter => hne ?_
    have hsorted := pairwise_sort (new :: paths)
    rw [sort, hcons, List.pairwise_append, List.pairwise_cons] at hsorted
    exact le_antisymm (hs p hp) hnew hle (hsorted.2.1.1 p hafter)

end UnsafeAudit.Path
