import UnsafeAudit.Metadata.Reading
import UnsafeAudit.Proofs.Loops

/-!
# Shapes of documents

A shape says which fields a value has and how their values are built. A field
that has the shape for which it is read can be read: without a fault, and what
is read is what `textAt` and `itemsAt` find there.
-/

namespace UnsafeAudit

namespace Json

abbrev Shape := Json → Bool

namespace Shape

def text : Shape
  | .str _ => true
  | _ => false

def orNull (shape : Shape) : Shape
  | .null => true
  | value => shape value

def list (shape : Shape) : Shape
  | .arr items => items.all shape
  | _ => false

/-- An object that has the needed fields, and perhaps the optional ones. -/
def record (needed optional : List (String × Shape)) : Shape
  | .obj fields =>
    needed.all (fun (name, shape) => (fields.lookup name).any shape) &&
      optional.all fun (name, shape) => (fields.lookup name).all shape
  | _ => false

end Shape

def textAt? (value : Json) (name : String) : Option String := (value.field? name).bind text?

/-- The text of a field that must have one. -/
def textAt (value : Json) (name : String) : String := (value.textAt? name).getD ""

/-- The items of a field: none, if there is no list. -/
def itemsAt (value : Json) (name : String) : List Json :=
  match value.field? name with
  | some (.arr items) => items
  | _ => []

def textsAt (value : Json) (name : String) : List String := (value.itemsAt name).filterMap text?

variable {needed optional : List (String × Shape)} {shape : Shape} {value : Json}

-- ---------------------------------------------------------------------------
-- The fields of an object
-- ---------------------------------------------------------------------------

theorem mem_of_lookup {fields : List (String × Shape)} (h : fields.lookup name = some shape) :
    (name, shape) ∈ fields := by
  obtain ⟨first, rest, rfl, -⟩ := List.lookup_eq_some_iff.mp h
  simp

theorem exists_fields (h : Shape.record needed optional value) :
    ∃ fields, value = .obj fields := by
  cases value <;> first | exact ⟨_, rfl⟩ | cases h

theorem exists_field (name : String) (h : Shape.record needed optional value)
    (hn : needed.lookup name = some shape) : ∃ v, value.field? name = some v ∧ shape v := by
  obtain ⟨fields, rfl⟩ := exists_fields h
  simp only [Shape.record, Bool.and_eq_true, List.all_eq_true] at h
  exact (Option.any_eq_true _ _).mp (h.1 _ (mem_of_lookup hn))

theorem shape_of_field (h : Shape.record needed optional value)
    (hn : optional.lookup name = some shape) (hv : value.field? name = some v) : shape v := by
  obtain ⟨fields, rfl⟩ := exists_fields h
  simp only [Shape.record, Bool.and_eq_true, List.all_eq_true] at h
  have hall := h.2 _ (mem_of_lookup hn)
  rw [show fields.lookup name = some v from hv] at hall
  exact hall

theorem needed_eq (h : Shape.record needed optional value) (hv : value.field? name = some v) :
    value.needed name = .ok v := by
  obtain ⟨fields, rfl⟩ := exists_fields h
  rw [Json.needed, show fields.lookup name = some v from hv]

theorem optional_eq (name : String) (h : Shape.record needed optional value) (default : Json) :
    value.optional name default = .ok ((value.field? name).getD default) := by
  obtain ⟨fields, rfl⟩ := exists_fields h
  rfl

theorem exists_text (h : Shape.text value) : ∃ s, value = .str s := by
  cases value <;> first | exact ⟨_, rfl⟩ | cases h

-- ---------------------------------------------------------------------------
-- Reading fields
-- ---------------------------------------------------------------------------

theorem needed_text (name : String) (h : Shape.record needed optional value)
    (hn : needed.lookup name = some .text) :
    value.needed name = .ok (.str (value.textAt name)) := by
  obtain ⟨v, hv, hs⟩ := exists_field name h hn
  obtain ⟨s, rfl⟩ := exists_text hs
  rw [needed_eq h hv, textAt, textAt?, hv]
  rfl

theorem optional_text (name : String) (h : Shape.record needed optional value)
    (hn : optional.lookup name = some .text) (default : String) :
    value.optional name (.str default) = .ok (.str ((value.textAt? name).getD default)) := by
  rw [optional_eq name h, textAt?]
  cases hv : value.field? name with
  | none => rfl
  | some v =>
    obtain ⟨s, rfl⟩ := exists_text (shape_of_field h hn hv)
    rfl

theorem optional_text_orNull (name : String) (h : Shape.record needed optional value)
    (hn : optional.lookup name = some Shape.text.orNull) :
    value.optional name .null = .ok (ofOption .str (value.textAt? name)) := by
  rw [optional_eq name h, textAt?]
  cases hv : value.field? name with
  | none => rfl
  | some v =>
    have hs := shape_of_field h hn hv
    cases v <;> first | rfl | cases hs

theorem optional_list (name : String) (h : Shape.record needed optional value)
    (hn : optional.lookup name = some shape.list) :
    value.optional name (.arr []) = .ok (.arr (value.itemsAt name)) := by
  rw [optional_eq name h, itemsAt]
  cases hv : value.field? name with
  | none => rfl
  | some v =>
    have hs := shape_of_field h hn hv
    cases v <;> first | rfl | cases hs

/-- A list that may be missing or null is read as such, or has the items. -/
theorem optional_list_orNull (name : String) (h : Shape.record needed optional value)
    (hn : optional.lookup name = some shape.list.orNull) :
    value.optional name .null = .ok .null ∧ value.itemsAt name = [] ∨
      value.optional name .null = .ok (.arr (value.itemsAt name)) := by
  rw [optional_eq name h, itemsAt]
  cases hv : value.field? name with
  | none => exact .inl ⟨rfl, rfl⟩
  | some v =>
    have hs := shape_of_field h hn hv
    cases v with
    | null => exact .inl ⟨rfl, rfl⟩
    | arr items => exact .inr rfl
    | _ => cases hs

theorem mem_itemsAt (h : item ∈ value.itemsAt name) :
    ∃ items, value.field? name = some (.arr items) ∧ item ∈ items := by
  unfold itemsAt at h
  split at h
  · rename_i items hv
    exact ⟨items, hv, h⟩
  · cases h

theorem shape_of_mem_itemsAt (name : String) (h : Shape.record needed optional value)
    (hn : optional.lookup name = some shape.list) : ∀ item ∈ value.itemsAt name, shape item := by
  intro item hitem
  obtain ⟨items, hv, hitem⟩ := mem_itemsAt hitem
  have hall : items.all shape := shape_of_field h hn hv
  exact List.all_eq_true.mp hall item hitem

theorem shape_of_mem_itemsAt_orNull (name : String) (h : Shape.record needed optional value)
    (hn : optional.lookup name = some shape.list.orNull) :
    ∀ item ∈ value.itemsAt name, shape item := by
  intro item hitem
  obtain ⟨items, hv, hitem⟩ := mem_itemsAt hitem
  have hall : items.all shape := shape_of_field h hn hv
  exact List.all_eq_true.mp hall item hitem

theorem itemsAt_eq_texts (name : String) (h : Shape.record needed optional value)
    (hn : optional.lookup name = some Shape.text.list) :
    value.itemsAt name = (value.textsAt name).map .str := by
  have hitems := shape_of_mem_itemsAt name h hn
  unfold textsAt
  generalize value.itemsAt name = items at hitems
  induction items with
  | nil => rfl
  | cons item rest ih =>
    obtain ⟨s, rfl⟩ := exists_text (hitems item List.mem_cons_self)
    exact congrArg (_ :: ·) (ih fun i hi => hitems i (List.mem_cons_of_mem _ hi))

end Json

end UnsafeAudit
