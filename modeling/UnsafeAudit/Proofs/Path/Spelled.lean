import UnsafeAudit.Path.Basic
import UnsafeAudit.Proofs.Text.Lines

/-!
# Paths and their texts

A path that some text spells is spelled by its own text too
(`ofString_toString`). These are the paths whose names survive the reading of a
text (`spelled_iff`).
-/

namespace UnsafeAudit.Path

variable {path base other : Path} {name : String} {names : List String}

def Spelled (path : Path) : Prop := ∃ text, path = ofString text

/-- The name is kept when a text is read: it holds no separator, and it is neither empty nor the
name for the directory itself. -/
def IsKept (name : String) : Prop := name ≠ "" ∧ name ≠ "." ∧ '/' ∉ name.toList

instance : DecidablePred IsKept := fun _ => inferInstanceAs (Decidable (_ ∧ _))

theorem isKept_of_mem_componentsOf (h : name ∈ componentsOf text) : IsKept name := by
  simp only [componentsOf, List.mem_filter, List.mem_map, decide_eq_true_iff] at h
  obtain ⟨⟨piece, hpiece, rfl⟩, hempty, hdot⟩ := h
  exact ⟨hempty, hdot, by simpa using Text.not_mem_of_mem_splitOn hpiece⟩

-- ---------------------------------------------------------------------------
-- The text of a path
-- ---------------------------------------------------------------------------

theorem toList_joinWith_cons (name : String) (names : List String) :
    (Text.joinWith "/" (name :: names)).toList =
      name.toList ++ names.flatMap ('/' :: ·.toList) := by
  induction names generalizing name with
  | nil => simp [Text.joinWith]
  | cons next rest ih => simp [Text.joinWith, ih]

theorem splitOn_names (h : ∀ name ∈ names, IsKept name) (hname : IsKept name) :
    (Text.splitOn '/' (name.toList ++ names.flatMap ('/' :: ·.toList))).map String.ofList =
      name :: names := by
  induction names generalizing name with
  | nil => simp [Text.splitOn_of_not_mem hname.2.2]
  | cons next rest ih =>
    obtain ⟨hnext, hrest⟩ := List.forall_mem_cons.mp h
    rw [List.flatMap_cons, List.cons_append, Text.splitOn_append hname.2.2, List.map_cons,
      ih hrest hnext, String.ofList_toList]

theorem componentsOf_joinWith (h : ∀ name ∈ names, IsKept name) :
    componentsOf (Text.joinWith "/" names) = names := by
  cases names with
  | nil => rfl
  | cons name rest =>
    obtain ⟨hname, hrest⟩ := List.forall_mem_cons.mp h
    rw [componentsOf, toList_joinWith_cons, splitOn_names hrest hname, List.filter_eq_self]
    intro other hother
    exact decide_eq_true ⟨(h other hother).1, (h other hother).2.1⟩

theorem toList_joinWith_ne (h : ∀ name ∈ names, IsKept name) (rest : List Char) :
    (Text.joinWith "/" names).toList ≠ '/' :: rest := by
  cases names with
  | nil => simp [Text.joinWith]
  | cons name others =>
    obtain ⟨hempty, -, hseparator⟩ := h name List.mem_cons_self
    rw [toList_joinWith_cons]
    intro heq
    cases hname : name.toList with
    | nil => exact hempty (String.toList_eq_nil_iff.mp hname)
    | cons c more =>
      rw [hname, List.cons_append] at heq
      obtain ⟨rfl, -⟩ := List.cons.inj heq
      exact hseparator (hname ▸ List.mem_cons_self)

theorem componentsOf_anchor (anchor : Anchor) (text : String) :
    componentsOf (Anchor.text anchor ++ text) = componentsOf text := by
  cases anchor <;> simp [componentsOf, Anchor.text, Text.splitOn]

theorem anchorOf_anchor (anchor : Anchor) {text : String}
    (h : ∀ rest, text.toList ≠ '/' :: rest) : anchorOf (Anchor.text anchor ++ text) = anchor := by
  rw [anchorOf]
  cases htext : text.toList with
  | nil => cases anchor <;> simp [Anchor.text, htext]
  | cons c rest =>
    have hc : c ≠ '/' := fun hc => h rest (hc ▸ htext)
    cases anchor <;> simp [Anchor.text, htext, hc]

theorem ofString_toString_of_kept (h : ∀ name ∈ path.parts, IsKept name) :
    ofString path.toString = path := by
  obtain ⟨anchor, parts⟩ := path
  by_cases hdot : anchor = .relative ∧ parts = []
  · obtain ⟨rfl, rfl⟩ := hdot
    rfl
  · have htext : toString ⟨anchor, parts⟩ = Anchor.text anchor ++ Text.joinWith "/" parts := by
      rw [toString.eq_def]
      split
      · exact absurd ⟨‹_›, ‹_›⟩ hdot
      · rfl
    rw [ofString, htext, anchorOf_anchor anchor (toList_joinWith_ne h), componentsOf_anchor,
      componentsOf_joinWith h]

-- ---------------------------------------------------------------------------
-- Spelled paths
-- ---------------------------------------------------------------------------

theorem spelled_iff : path.Spelled ↔ ∀ name ∈ path.parts, IsKept name := by
  constructor
  · rintro ⟨text, rfl⟩ name hname
    exact isKept_of_mem_componentsOf hname
  · intro h
    exact ⟨path.toString, (ofString_toString_of_kept h).symm⟩

theorem Spelled.ofString_toString (h : path.Spelled) : ofString path.toString = path :=
  ofString_toString_of_kept (spelled_iff.mp h)

theorem spelled_ofString (text : String) : (ofString text).Spelled := ⟨text, rfl⟩

theorem Spelled.join (h : base.Spelled) (h' : other.Spelled) : (base.join other).Spelled := by
  rw [Path.join]
  split
  · exact h'
  · rw [spelled_iff] at h h' ⊢
    exact fun name hname => (List.mem_append.mp hname).elim (h name) (h' name)

end UnsafeAudit.Path
