import UnsafeAudit.Proofs.Json.Numbers
import UnsafeAudit.Report.Timestamp

/-!
# Reading back timestamps

A timestamp is read back from the text that it has in data, with its fraction of
a second and its offset if it has them (`ofText?_dataText`).
-/

namespace UnsafeAudit.Timestamp

open Json (isDigit natOfDigits takeWhile_digits)
open Decimal (natText zeros)

variable {t : Timestamp} {width n : Nat} {c : Char} {rest : List Char} {choices : List Char}

-- ---------------------------------------------------------------------------
-- Padded numbers
-- ---------------------------------------------------------------------------

theorem length_natText_le (hwidth : 0 < width) (h : n < 10 ^ width) : (natText n).length ≤ width := by
  rw [natText, String.length_ofList]
  exact (Nat.length_toDigits_le_iff (by decide) hwidth).mpr h

theorem isDigit_of_mem_padded (h : c ∈ (padded width n).toList) : isDigit c = true := by
  rw [padded, String.toList_append] at h
  rcases List.mem_append.mp h with h | h
  · rw [zeros, String.toList_ofList] at h
    rw [List.eq_of_mem_replicate h]
    rfl
  · exact Json.isDigit_of_mem_natText h

theorem natOfDigits_padded (width n : Nat) : natOfDigits (padded width n).toList = n := by
  rw [padded, String.toList_append, Json.natOfDigits_append, zeros, String.toList_ofList,
    Json.natOfDigits_zeros, Json.natOfDigits_natText, Nat.mul_zero, Nat.zero_add]

theorem length_padded (hwidth : 0 < width) (h : n < 10 ^ width) :
    (padded width n).toList.length = width := by
  have hle := length_natText_le hwidth h
  have hlength : (natText n).toList.length = (natText n).length := rfl
  rw [padded, String.toList_append, List.length_append, zeros, String.toList_ofList,
    List.length_replicate]
  omega

theorem digits?_padded (hwidth : 0 < width) (h : n < 10 ^ width) (rest : List Char) :
    digits? width ((padded width n).toList ++ rest) = some (n, rest) := by
  have hlength := length_padded hwidth h
  have hdigits : (padded width n).toList.all isDigit = true :=
    List.all_eq_true.mpr fun c hc => isDigit_of_mem_padded hc
  have htake : ((padded width n).toList ++ rest).take width = (padded width n).toList := by
    rw [List.take_append_of_le_length hlength.ge, List.take_of_length_le hlength.le]
  have hdrop : ((padded width n).toList ++ rest).drop width = rest := by
    rw [List.drop_append_of_le_length hlength.ge, List.drop_of_length_le hlength.le, List.nil_append]
  simp only [digits?, htake, hdrop, hlength, hdigits, natOfDigits_padded, decide_true, Bool.and_self,
    if_true]

theorem expect?_cons (h : c ∈ choices) (rest : List Char) :
    expect? choices (c :: rest) = some rest := by
  rw [expect?, if_pos h]

-- ---------------------------------------------------------------------------
-- Offsets
-- ---------------------------------------------------------------------------

/-- The characters for an offset: none, or a letter for that of universal time. -/
def offsetChars (offset : Option Int) : List Char :=
  ((offset.map fun m => if m = 0 then "Z" else offsetText m).getD "").toList

theorem toList_offsetText (m : Int) :
    (offsetText m).toList = (if m < 0 then '-' else '+') ::
      ((padded 2 (m.natAbs / 60)).toList ++ ':' :: (padded 2 (m.natAbs % 60)).toList) := by
  rw [offsetText]
  split <;> simp

theorem offset?_sign {sign : Char} {hours minutes : Nat} (hsign : sign = '-' ∨ sign = '+')
    (hhours : hours < 10 ^ 2) (hminutes : minutes < 60) :
    offset? (sign :: ((padded 2 hours).toList ++ ':' :: (padded 2 minutes).toList)) =
      some (some (if sign = '-' then -((hours : Int) * 60 + minutes)
        else (hours : Int) * 60 + minutes)) := by
  have hread := digits?_padded (by decide) hhours (':' :: (padded 2 minutes).toList)
  have hread' := digits?_padded (by decide) (by omega : minutes < 10 ^ 2) []
  rw [List.append_nil] at hread'
  have hknown : (decide (sign = '+') || decide (sign = '-')) = true := by
    rcases hsign with rfl | rfl <;> rfl
  rw [offset?]
  · simp only [hknown, hread, hread', hminutes, expect?_cons (List.mem_singleton_self ':'),
      Option.bind_eq_bind, Option.bind_some, Option.getD_some, List.isEmpty_nil, decide_true,
      Bool.and_self, if_true]
  · rintro ⟨⟩
    simp at hsign
  · rintro ⟨⟩
    simp at hsign

theorem offset?_offsetText {m : Int} (h : m.natAbs < 24 * 60) :
    offset? (offsetText m).toList = some (some m) := by
  have hsign : (if m < 0 then '-' else '+') = '-' ∨ (if m < 0 then '-' else '+') = '+' := by
    split
    · exact .inl rfl
    · exact .inr rfl
  rw [toList_offsetText, offset?_sign hsign (by omega) (Nat.mod_lt _ (by decide))]
  congr 2
  rcases Int.lt_or_le m 0 with hneg | hnonneg
  · rw [if_pos hneg, if_pos rfl]
    omega
  · rw [if_neg (Int.not_lt.mpr hnonneg), if_neg (by decide)]
    omega

theorem offset?_offsetChars {offset : Option Int} (h : ∀ m ∈ offset, m.natAbs < 24 * 60) :
    offset? (offsetChars offset) = some offset := by
  cases offset with
  | none => rfl
  | some m =>
    rw [offsetChars, Option.map_some, Option.getD_some]
    split
    · rename_i hzero
      rw [hzero]
      rfl
    · exact offset?_offsetText (h m rfl)

/-- An offset begins with no digit and with no mark before a fraction. -/
theorem head_offsetChars (offset : Option Int) :
    ∀ c ∈ (offsetChars offset).head?, isDigit c = false ∧ c ∉ ['.', ','] := by
  cases offset with
  | none => exact nofun
  | some m =>
    rw [offsetChars, Option.map_some, Option.getD_some]
    split
    · rintro _ ⟨⟩
      decide
    · rw [toList_offsetText]
      rintro _ ⟨⟩
      split <;> decide

-- ---------------------------------------------------------------------------
-- Texts
-- ---------------------------------------------------------------------------

def fractionChars (micro : Nat) : List Char :=
  if micro = 0 then [] else '.' :: (padded 6 micro).toList

theorem micros_padded {micro : Nat} (h : micro < 10 ^ 6) : micros (padded 6 micro).toList = micro := by
  have hlength := length_padded (by decide) h
  rw [micros, List.take_append_of_le_length hlength.ge, List.take_of_length_le hlength.le,
    natOfDigits_padded]

/-- There is no fraction, or it is read up to the offset. -/
theorem expect?_fractionChars {micro : Nat} (h : micro < 10 ^ 6) (offset : Option Int) :
    micro = 0 ∧ fractionChars micro = [] ∧ expect? ['.', ','] (offsetChars offset) = none ∨
    ∃ more, expect? ['.', ','] (fractionChars micro ++ offsetChars offset) = some more ∧
      micros (more.takeWhile isDigit) = micro ∧ more.dropWhile isDigit = offsetChars offset := by
  have hhead := head_offsetChars offset
  rcases Nat.eq_zero_or_pos micro with hzero | hpos
  · refine .inl ⟨hzero, if_pos hzero, ?_⟩
    cases hoffset : offsetChars offset with
    | nil => rfl
    | cons c rest => rw [expect?, if_neg (hhead c (by rw [hoffset]; rfl)).2]
  · refine .inr ⟨(padded 6 micro).toList ++ offsetChars offset, ?_, ?_⟩
    · rw [fractionChars, if_neg hpos.ne', List.cons_append, expect?_cons List.mem_cons_self]
    · obtain ⟨htake, hdrop⟩ := takeWhile_digits (fun c => isDigit_of_mem_padded)
        fun c hc => (hhead c hc).1
      rw [htake, hdrop]
      exact ⟨micros_padded h, rfl⟩

theorem daysIn_le (year month : Nat) : daysIn year month ≤ 31 := by
  rw [daysIn]
  repeat' split
  all_goals decide

theorem toList_dataText (t : Timestamp) :
    t.dataText.toList = (padded 4 t.year).toList ++ '-' :: ((padded 2 t.month).toList ++ '-' ::
      ((padded 2 t.day).toList ++ 'T' :: ((padded 2 t.hour).toList ++ ':' ::
        ((padded 2 t.minute).toList ++ ':' :: ((padded 2 t.second).toList ++
          (fractionChars t.micro ++ offsetChars t.offset)))))) := by
  rw [dataText, momentText, offsetChars, fractionChars]
  split <;> simp

theorem ofText?_dataText (h : t.isValid = true) : ofText? t.dataText = some t := by
  obtain ⟨year, month, day, hour, minute, second, micro, offset⟩ := t
  have hvalid := h
  simp only [isValid, Bool.and_eq_true, decide_eq_true_iff] at hvalid
  obtain ⟨⟨⟨⟨⟨⟨⟨⟨⟨⟨-, hyear⟩, -⟩, hmonth⟩, -⟩, hday⟩, hhour⟩, hminute⟩, hsecond⟩, hmicro⟩, hoffset⟩ :=
    hvalid
  have hdays := daysIn_le year month
  have hoffset' : offset? (offsetChars offset) = some offset := by
    refine offset?_offsetChars fun m hm => ?_
    obtain rfl := Option.mem_def.mp hm
    exact of_decide_eq_true hoffset
  have hdash := fun rest => expect?_cons (List.mem_singleton_self '-') rest
  have hcolon := fun rest => expect?_cons (List.mem_singleton_self ':') rest
  have hT := fun rest => expect?_cons (by decide : 'T' ∈ ['T', 't', ' ', '_']) rest
  rw [ofText?, toList_dataText]
  simp only [digits?_padded (by decide) (by omega : year < 10 ^ 4),
    digits?_padded (by decide) (by omega : month < 10 ^ 2),
    digits?_padded (by decide) (by omega : day < 10 ^ 2),
    digits?_padded (by decide) (by omega : hour < 10 ^ 2),
    digits?_padded (by decide) (by omega : minute < 10 ^ 2),
    digits?_padded (by decide) (by omega : second < 10 ^ 2), hdash, hcolon, hT,
    Option.bind_eq_bind, Option.bind_some, List.isEmpty_cons, Bool.false_eq_true, if_false]
  rcases expect?_fractionChars hmicro offset with ⟨rfl, hnone, hexpect⟩ | ⟨more, hexpect, hmicros, hrest⟩
  · have hmicros : micros [] = 0 := by decide
    simp only [hnone, List.nil_append, hexpect, hmicros, hoffset', Option.bind_some, h, if_true]
  · simp only [hexpect, hmicros, hrest, hoffset', Option.bind_some, h, if_true]

end UnsafeAudit.Timestamp
