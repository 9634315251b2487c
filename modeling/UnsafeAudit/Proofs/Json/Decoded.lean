import UnsafeAudit.Json.Decode
import UnsafeAudit.Proofs.Json.RoundTrip
import UnsafeAudit.Proofs.Path.Spelled

/-!
# Decoding what was encoded

Whatever encodes the parts of a list, of an optional value or of a record so that
they come back makes the whole come back.
-/

namespace UnsafeAudit

namespace Decode

variable {decode : Decoder α} {encode : α → Json}

theorem string_str (text : String) : string (.str text) = .ok text := rfl
theorem bool_bool (b : Bool) : bool (.bool b) = .ok b := rfl
theorem int_int (n : Int) : int (.int n) = .ok n := rfl

theorem itemsFrom_map {l : List α} (h : ∀ a ∈ l, decode (encode a) = .ok a) (position : Nat) :
    itemsFrom decode position (l.map encode) = .ok l := by
  induction l generalizing position with
  | nil => rfl
  | cons a rest ih =>
    obtain ⟨ha, hrest⟩ := List.forall_mem_cons.mp h
    rw [List.map_cons, itemsFrom, ha, ih hrest]
    rfl

theorem list_map {l : List α} (h : ∀ a ∈ l, decode (encode a) = .ok a) :
    list decode (.arr (l.map encode)) = .ok l :=
  itemsFrom_map h 0

theorem list_strings (texts : List String) : list string (Json.strings texts) = .ok texts :=
  list_map fun text _ => string_str text

theorem nullable_ofOption {a? : Option α} (h : ∀ a ∈ a?, decode (encode a) = .ok a)
    (hnull : ∀ a, encode a ≠ .null) : nullable decode (Json.ofOption encode a?) = .ok a? := by
  cases a? with
  | none => rfl
  | some a =>
    rw [Json.ofOption, nullable, h a rfl]
    · rfl
    · exact hnull a

theorem nullable_string (text? : Option String) :
    nullable string (Json.ofOption .str text?) = .ok text? :=
  nullable_ofOption (fun text _ => string_str text) nofun

theorem path_toString {p : Path} (h : p.Spelled) : path (.str p.toString) = .ok p :=
  congrArg Checked.ok h.ofString_toString

theorem nullable_path {path? : Option Path} (h : ∀ p ∈ path?, p.Spelled) :
    nullable path (Json.ofOption (.str ·.toString) path?) = .ok path? :=
  nullable_ofOption (fun p hp => path_toString (h p hp)) nofun

theorem natural_nat (n : Nat) : natural (.nat n) = .ok n := by
  have hleast : ¬ (n : Int) < 0 := Int.not_lt.mpr (Int.natCast_nonneg n)
  simp only [natural, intFrom, Json.nat, int_int, Checked.thenCheck, hleast, if_false, Checked.map,
    Int.toNat_natCast]

theorem word_ok {ofWord : String → Option α} (h : ofWord text = some a) :
    word ofWord (.str text) = .ok a := by
  simp only [word, h]

theorem required_ok {fields : Fields} (hgiven : fields.lookup name = some given)
    (h : decode given = .ok a) : required name decode fields = .ok a := by
  simp only [required, hgiven, h, Checked.below]

theorem defaulted_ok {fields : Fields} (hgiven : fields.lookup name = some given)
    (h : decode given = .ok a) (value : α) : defaulted name decode value fields = .ok a := by
  simp only [defaulted, hgiven, h, Checked.below]

end Decode

namespace Json

variable {encode : α → Json}

theorem legible_list {l : List α} (h : ∀ a ∈ l, (encode a).Legible) :
    (Json.arr (l.map encode)).Legible := by
  have hitems : LegibleItems (l.map encode) := by
    induction l with
    | nil => trivial
    | cons a rest ih =>
      obtain ⟨ha, hrest⟩ := List.forall_mem_cons.mp h
      exact ⟨ha, ih hrest⟩
  exact hitems

theorem legible_strings (texts : List String) : (strings texts).Legible :=
  legible_list fun _ _ => trivial

theorem legible_ofOption {a? : Option α} (h : ∀ a ∈ a?, (encode a).Legible) :
    (ofOption encode a?).Legible := by
  cases a? with
  | none => trivial
  | some a => exact h a rfl

end Json

end UnsafeAudit
