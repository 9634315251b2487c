import UnsafeAudit.Proofs.Json.Numbers
import UnsafeAudit.Proofs.Table.Keys

/-!
# Reading back what was written

A value is read back from its compact text (`read?_write`). Each part of a text
is read whatever follows it, as long as that does not continue a number. The steps
that a reader counts down suffice, as a text has more than half as many characters
as its reader takes steps.
-/

namespace UnsafeAudit.Json

open Text.Quoted (hex)
open Text.Utf8 (hexDigit)

variable {c : Char} {n fuel : Nat} {rest : List Char}

-- ---------------------------------------------------------------------------
-- Strings
-- ---------------------------------------------------------------------------

theorem hexValue?_hexDigit : ∀ d < 16, hexValue? (hexDigit d) = some d := by decide

theorem hex4?_hex (h : n < 0x10000) (rest : List Char) :
    hex4? (hex 4 n ++ rest) = some (n, rest) := by
  have hdigit : ∀ m, hexValue? (hexDigit (m % 16)) = some (m % 16) :=
    fun m => hexValue?_hexDigit _ (Nat.mod_lt _ (by decide))
  simp only [hex, List.nil_append, List.cons_append, hex4?, hdigit, Option.bind_eq_bind,
    Option.bind_some]
  congr 2
  omega

def before (c : Char) : Option (List Char × List Char) → Option (List Char × List Char) :=
  Option.map fun (body, rest) => (c :: body, rest)

theorem joinUnits_of_lt (h : n < 0xd800) (rest : List Char) :
    joinUnits n rest = (Char.ofNat n, rest) := by
  simp only [joinUnits, charOfUnit, Nat.not_le.mpr h, decide_false, Bool.false_and,
    Bool.false_eq_true, if_false]

theorem stringBody_unit (h : n < 0xd800) (fuel : Nat) (rest : List Char) :
    stringBody (fuel + 1) ('\\' :: 'u' :: hex 4 n ++ rest) =
      before (Char.ofNat n) (stringBody fuel rest) := by
  rw [List.cons_append, List.cons_append, stringBody, hex4?_hex (by omega)]
  simp only [Option.bind_eq_bind, Option.bind_some, joinUnits_of_lt h]
  cases stringBody fuel rest <;> rfl

theorem stringBody_simple {e : Char} (h : simpleEscape? e = some c) (fuel : Nat)
    (rest : List Char) :
    stringBody (fuel + 1) ('\\' :: e :: rest) = before c (stringBody fuel rest) := by
  have hu : e ≠ 'u' := by
    rintro rfl
    cases h
  rw [stringBody]
  · simp only [h, Option.bind_eq_bind, Option.bind_some]
    cases stringBody fuel rest <;> rfl
  · exact hu

theorem stringBody_plain (hquote : c ≠ '"') (hslash : c ≠ '\\') (hcontrol : 32 ≤ c.toNat)
    (fuel : Nat) (rest : List Char) :
    stringBody (fuel + 1) (c :: rest) = before c (stringBody fuel rest) := by
  rw [stringBody]
  · simp only [Nat.not_lt.mpr hcontrol, hslash, decide_false, Bool.or_self, Bool.false_eq_true,
      if_false]
    cases stringBody fuel rest <;> rfl
  · exact hquote
  · exact fun _ h _ => hslash h
  · exact fun _ _ h _ => hslash h

theorem stringBody_escapeChar (c : Char) (fuel : Nat) (rest : List Char) :
    stringBody (fuel + 1) (escapeChar isNoControl c ++ rest) = before c (stringBody fuel rest) := by
  simp only [escapeChar]
  iterate 7
    split
    · subst c
      exact stringBody_simple rfl fuel rest
  split
  · rename_i hquote hslash _ _ _ _ _ hplain
    exact stringBody_plain hquote hslash (of_decide_eq_true hplain) fuel rest
  · rename_i hcontrol
    have hlt : c.toNat < 32 := by simpa [isNoControl] using hcontrol
    rw [escapeUnits, if_pos (by omega), stringBody_unit (by omega), Char.ofNat_toNat]

theorem length_le_escaped (text : List Char) :
    text.length ≤ (text.flatMap (escapeChar isNoControl)).length := by
  have hpos : ∀ c, 1 ≤ (escapeChar isNoControl c).length := by
    intro c
    simp only [escapeChar, escapeUnits]
    repeat' split
    all_goals simp
  induction text with
  | nil => simp
  | cons c text ih =>
    have hc := hpos c
    simp only [List.flatMap_cons, List.length_append, List.length_cons]
    omega

theorem stringBody_escaped (text rest : List Char) (h : text.length < fuel) :
    stringBody fuel (text.flatMap (escapeChar isNoControl) ++ '"' :: rest) = some (text, rest) := by
  induction text generalizing fuel with
  | nil =>
    obtain ⟨fuel, rfl⟩ := Nat.exists_eq_add_one_of_ne_zero (Nat.ne_zero_of_lt h)
    rfl
  | cons c text ih =>
    obtain ⟨fuel, rfl⟩ := Nat.exists_eq_add_one_of_ne_zero (Nat.ne_zero_of_lt h)
    rw [List.flatMap_cons, List.append_assoc, stringBody_escapeChar,
      ih (Nat.lt_of_succ_lt_succ h)]
    rfl

def quotedChars (text : String) : List Char :=
  '"' :: (text.toList.flatMap (escapeChar isNoControl) ++ ['"'])

@[simp] theorem toList_stringText (text : String) :
    (stringText isNoControl text).toList = quotedChars text := by
  simp [stringText, quotedChars]

theorem stringBody_quoted (text : String) (rest : List Char)
    (h : (quotedChars text).length ≤ fuel + 1) :
    ∃ body, quotedChars text ++ rest = '"' :: body ∧
      stringBody fuel body = some (text.toList, rest) := by
  have hlen := length_le_escaped text.toList
  simp only [quotedChars, List.length_cons, List.length_append, List.length_nil] at h
  exact ⟨_, by simp only [quotedChars, List.cons_append, List.append_assoc, List.nil_append],
    stringBody_escaped _ rest (by omega)⟩

-- ---------------------------------------------------------------------------
-- Values
-- ---------------------------------------------------------------------------

mutual
/-- The floating point numbers in a value are in normal form, and in its objects no name is given
twice. -/
def Legible : Json → Prop
  | .null | .bool _ | .int _ | .str _ => True
  | .float x => x.IsNormal
  | .arr items => LegibleItems items
  | .obj fields => (fields.map (·.1)).Nodup ∧ LegibleFields fields
def LegibleItems : List Json → Prop
  | [] => True
  | item :: items => item.Legible ∧ LegibleItems items
def LegibleFields : List (String × Json) → Prop
  | [] => True
  | (_, value) :: fields => value.Legible ∧ LegibleFields fields
end

mutual
def chars : Json → List Char
  | .null => "null".toList
  | .bool true => "true".toList
  | .bool false => "false".toList
  | .int n => (Decimal.intText n).toList
  | .float x => (Decimal.text .json x).toList
  | .str text => quotedChars text
  | .arr [] => ['[', ']']
  | .arr (item :: items) => '[' :: (chars item ++ charsAfterItem items)
  | .obj [] => ['\x7b', '\x7d']
  | .obj ((name, value) :: fields) =>
    '\x7b' :: (quotedChars name ++ ':' :: (chars value ++ charsAfterField fields))
/-- What follows an item of an array, the closing bracket included. -/
def charsAfterItem : List Json → List Char
  | [] => [']']
  | item :: items => ',' :: (chars item ++ charsAfterItem items)
def charsAfterField : List (String × Json) → List Char
  | [] => ['\x7d']
  | (name, value) :: fields =>
    ',' :: (quotedChars name ++ ':' :: (chars value ++ charsAfterField fields))
end

@[simp] theorem compact_openWith (depth : Nat) : Layout.compact.openWith depth = "" := rfl
@[simp] theorem compact_between (depth : Nat) : Layout.compact.between depth = "," := rfl
@[simp] theorem compact_closeWith (depth : Nat) : Layout.compact.closeWith depth = "" := rfl
@[simp] theorem compact_colon : Layout.compact.colon = ":" := rfl
@[simp] theorem compact_asIs : Layout.compact.asIs = isNoControl := rfl

mutual
theorem toList_render : ∀ (value : Json) (depth : Nat),
    (render .compact depth value).toList = chars value
  | .null, _ | .bool true, _ | .bool false, _ | .int _, _ | .float _, _ => rfl
  | .str text, _ => toList_stringText text
  | .arr [], _ => by simp [render, chars]
  | .arr (item :: items), depth => by
    have hitem := toList_render item (depth + 1)
    have hitems := toList_renderItems items (depth + 1)
    simp [render, chars, hitem, hitems]
  | .obj [], _ => by simp [render, chars]
  | .obj ((name, value) :: fields), depth => by
    have hvalue := toList_render value (depth + 1)
    have hfields := toList_renderFields fields (depth + 1)
    simp [render, chars, hvalue, hfields]
theorem toList_renderItems : ∀ (items : List Json) (depth : Nat),
    (renderItems .compact depth items).toList ++ [']'] = charsAfterItem items
  | [], _ => rfl
  | item :: items, depth => by
    have hitem := toList_render item depth
    have hitems := toList_renderItems items depth
    simp [renderItems, charsAfterItem, hitem, hitems]
theorem toList_renderFields : ∀ (fields : List (String × Json)) (depth : Nat),
    (renderFields .compact depth fields).toList ++ ['\x7d'] = charsAfterField fields
  | [], _ => rfl
  | (name, value) :: fields, depth => by
    have hvalue := toList_render value depth
    have hfields := toList_renderFields fields depth
    simp [renderFields, charsAfterField, hvalue, hfields]
end

theorem toList_write (value : Json) : (write .compact value).toList = chars value :=
  toList_render value 0

-- ---------------------------------------------------------------------------
-- Reading
-- ---------------------------------------------------------------------------

theorem skipSpace_cons (h : isSpace c = false) (rest : List Char) :
    skipSpace (c :: rest) = c :: rest := by
  simp [skipSpace, h]

/-- The text of a value starts with neither a blank nor a closing bracket. -/
theorem exists_chars_cons : ∀ (value : Json), value.Legible →
    ∃ c rest, chars value = c :: rest ∧ isSpace c = false ∧ c ≠ ']' ∧ c ≠ '\x7d'
  | .null, _ => ⟨_, _, rfl, by decide⟩
  | .bool true, _ => ⟨_, _, rfl, by decide⟩
  | .bool false, _ => ⟨_, _, rfl, by decide⟩
  | .int n, _ => exists_intText_cons n
  | .float _, h => exists_text_cons h
  | .str _, _ => ⟨_, _, rfl, by decide⟩
  | .arr [], _ => ⟨_, _, rfl, by decide⟩
  | .arr (_ :: _), _ => ⟨_, _, rfl, by decide⟩
  | .obj [], _ => ⟨_, _, rfl, by decide⟩
  | .obj (_ :: _), _ => ⟨_, _, rfl, by decide⟩

theorem skipSpace_chars {value : Json} (h : value.Legible) (rest : List Char) :
    skipSpace (chars value ++ rest) = chars value ++ rest := by
  obtain ⟨c, more, hchars, hspace, -⟩ := exists_chars_cons value h
  rw [hchars, List.cons_append, skipSpace_cons hspace]

theorem value?_quoted (text : String) (rest : List Char)
    (h : (quotedChars text).length ≤ fuel + 2) :
    value? (fuel + 1) (quotedChars text ++ rest) = some (.str text, rest) := by
  obtain ⟨body, htext, hbody⟩ := stringBody_quoted text rest h
  rw [htext, value?, hbody]
  simp

theorem value?_arr {item : Json} (h : item.Legible) (fuel : Nat) (rest : List Char) :
    value? (fuel + 1) ('[' :: (chars item ++ rest)) =
      (items? fuel (chars item ++ rest)).map fun (items, rest) => (.arr items, rest) := by
  obtain ⟨c, more, hchars, hspace, hclose, -⟩ := exists_chars_cons item h
  rw [hchars, List.cons_append, value?, skipSpace_cons hspace]
  split
  · rename_i heq
    simp [hclose] at heq
  · rename_i heq
    cases items? fuel _ <;> rfl

theorem items?_last {item : Json} (h : value? fuel text = some (item, ']' :: rest)) :
    items? (fuel + 1) text = some ([item], rest) := by
  rw [items?, h]
  rfl

theorem items?_more {item next : Json} (hnext : next.Legible)
    (h : value? fuel text = some (item, ',' :: (chars next ++ rest))) :
    items? (fuel + 1) text =
      (items? fuel (chars next ++ rest)).map fun (items, rest) => (item :: items, rest) := by
  rw [items?, h]
  simp only [Option.bind_eq_bind, Option.bind_some]
  rw [skipSpace_cons (by decide)]
  simp only [skipSpace_chars hnext]
  cases items? fuel _ <;> rfl

theorem value?_obj (name : String) (fuel : Nat) (rest : List Char) :
    value? (fuel + 1) ('\x7b' :: (quotedChars name ++ rest)) =
      (fields? fuel (quotedChars name ++ rest)).map
        fun (fields, rest) => (.obj (ofFields fields), rest) := by
  rw [quotedChars, List.cons_append, value?, skipSpace_cons (by decide)]
  split
  · rename_i heq
    simp at heq
  · cases fields? fuel _ <;> rfl

section
variable {name next : String} {value other : Json} (hvalue : value.Legible)
  (hname : (quotedChars name).length ≤ fuel + 2)

include hvalue hname

theorem fields?_last
    (h : value? fuel (chars value ++ '\x7d' :: rest) = some (value, '\x7d' :: rest)) :
    fields? (fuel + 1) (quotedChars name ++ ':' :: (chars value ++ '\x7d' :: rest)) =
      some ([(name, value)], rest) := by
  obtain ⟨body, htext, hbody⟩ := stringBody_quoted name _ hname
  rw [htext, fields?, hbody]
  simp only [Option.bind_eq_bind, Option.bind_some]
  rw [skipSpace_cons (by decide)]
  simp only [skipSpace_chars hvalue, h, Option.bind_some, String.ofList_toList]
  rw [skipSpace_cons (by decide)]
  rfl

theorem fields?_more (h : value? fuel (chars value ++ ',' :: (quotedChars next ++ rest)) =
      some (value, ',' :: (quotedChars next ++ rest))) :
    fields? (fuel + 1)
        (quotedChars name ++ ':' :: (chars value ++ ',' :: (quotedChars next ++ rest))) =
      (fields? fuel (quotedChars next ++ rest)).map
        fun (fields, rest) => ((name, value) :: fields, rest) := by
  obtain ⟨body, htext, hbody⟩ := stringBody_quoted name _ hname
  have hnext : skipSpace (quotedChars next ++ rest) = quotedChars next ++ rest :=
    skipSpace_cons (by decide) _
  rw [htext, fields?, hbody]
  simp only [Option.bind_eq_bind, Option.bind_some]
  rw [skipSpace_cons (by decide)]
  simp only [skipSpace_chars hvalue, h, Option.bind_some, String.ofList_toList]
  rw [skipSpace_cons (by decide)]
  simp only [hnext]
  cases fields? fuel _ <;> rfl

end

theorem ofFields_of_nodup {fields : List (String × Json)} (h : (fields.map (·.1)).Nodup) :
    ofFields fields = fields :=
  Table.ofList_of_nodup (fun _ _ _ _ => rfl) h

theorem closes_charsAfterItem (items : List Json) (rest : List Char) :
    Closes (charsAfterItem items ++ rest) := by
  cases items with
  | nil => exact closes_cons (by decide) rest
  | cons item items => exact closes_cons (by decide) _

theorem closes_charsAfterField (fields : List (String × Json)) (rest : List Char) :
    Closes (charsAfterField fields ++ rest) := by
  cases fields with
  | nil => exact closes_cons (by decide) rest
  | cons field fields => exact closes_cons (by decide) _

mutual
/-- A value is read from its characters, whatever follows them and does not continue a number. -/
theorem value?_chars : ∀ (value : Json) (fuel : Nat) (rest : List Char), value.Legible →
    Closes rest → 2 * (chars value).length < fuel →
    value? fuel (chars value ++ rest) = some (value, rest)
  | value, 0, _, _, _, hfuel => absurd hfuel (Nat.not_lt_zero _)
  | .null, fuel + 1, rest, _, _, _ => rfl
  | .bool true, fuel + 1, rest, _, _, _ => rfl
  | .bool false, fuel + 1, rest, _, _, _ => rfl
  | .int n, fuel + 1, rest, _, hrest, _ => value?_intText hrest n fuel
  | .float _, fuel + 1, rest, h, hrest, _ => value?_text hrest h fuel
  | .str text, fuel + 1, rest, _, _, hfuel => by
    rw [chars] at hfuel ⊢
    exact value?_quoted text rest (by omega)
  | .arr [], fuel + 1, rest, _, _, _ => rfl
  | .arr (item :: items), fuel + 1, rest, h, _, hfuel => by
    have hitems := items?_chars item items fuel rest h.1 h.2
      (by simp only [chars, List.length_cons] at hfuel; omega)
    rw [chars, List.cons_append, List.append_assoc, value?_arr h.1, hitems]
    rfl
  | .obj [], fuel + 1, rest, _, _, _ => rfl
  | .obj ((name, value) :: fields), fuel + 1, rest, ⟨hnodup, hvalue, hfields⟩, _, hfuel => by
    have hread := fields?_chars name value fields fuel rest hvalue hfields
      (by simp only [chars, List.length_cons] at hfuel; omega)
    simp only [chars, List.cons_append, List.append_assoc, value?_obj, hread, Option.map_some,
      ofFields_of_nodup hnodup]
theorem items?_chars : ∀ (item : Json) (items : List Json) (fuel : Nat) (rest : List Char),
    item.Legible → LegibleItems items →
    2 * (chars item ++ charsAfterItem items).length + 1 < fuel →
    items? fuel (chars item ++ (charsAfterItem items ++ rest)) = some (item :: items, rest)
  | _, _, 0, _, _, _, hfuel => absurd hfuel (Nat.not_lt_zero _)
  | item, [], fuel + 1, rest, hitem, _, hfuel => by
    refine items?_last (value?_chars item _ _ hitem (closes_charsAfterItem [] rest) ?_)
    simp only [List.length_append] at hfuel
    omega
  | item, next :: items, fuel + 1, rest, hitem, hitems, hfuel => by
    simp only [charsAfterItem, List.length_append, List.length_cons] at hfuel
    have hread := items?_chars next items fuel rest hitems.1 hitems.2
      (by rw [List.length_append]; omega)
    rw [charsAfterItem, List.cons_append, List.append_assoc,
      items?_more hitems.1 (value?_chars item _ _ hitem (closes_cons (by decide) _) (by omega)),
      hread]
    rfl
theorem fields?_chars : ∀ (name : String) (value : Json) (fields : List (String × Json))
    (fuel : Nat) (rest : List Char), value.Legible → LegibleFields fields →
    2 * (quotedChars name ++ ':' :: (chars value ++ charsAfterField fields)).length + 1 < fuel →
    fields? fuel (quotedChars name ++ ':' :: (chars value ++ (charsAfterField fields ++ rest))) =
      some ((name, value) :: fields, rest)
  | _, _, _, 0, _, _, _, hfuel => absurd hfuel (Nat.not_lt_zero _)
  | name, value, [], fuel + 1, rest, hvalue, _, hfuel => by
    simp only [List.length_append, List.length_cons] at hfuel
    exact fields?_last hvalue (by omega)
      (value?_chars value _ _ hvalue (closes_charsAfterField [] rest) (by omega))
  | name, value, (next, other) :: fields, fuel + 1, rest, hvalue, hfields, hfuel => by
    simp only [charsAfterField, List.length_append, List.length_cons] at hfuel
    have hread := fields?_chars next other fields fuel rest hfields.1 hfields.2
      (by simp only [List.length_append, List.length_cons]; omega)
    simp only [charsAfterField, List.cons_append, List.append_assoc]
    rw [fields?_more hvalue (by omega)
      (value?_chars value _ _ hvalue (closes_cons (by decide) _) (by omega)), hread]
    rfl
end

theorem read?_write {value : Json} (h : value.Legible) :
    read? (write .compact value) = some value := by
  have hskip : skipSpace (chars value) = chars value := by
    simpa using skipSpace_chars h []
  have hread := value?_chars value (2 * (chars value).length + 2) [] h closes_nil (by omega)
  rw [List.append_nil] at hread
  rw [read?, toList_write]
  simp only [hskip, hread]
  rfl

end UnsafeAudit.Json
