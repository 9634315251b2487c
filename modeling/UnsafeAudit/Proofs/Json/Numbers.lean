import Mathlib.Data.List.TakeWhile
import UnsafeAudit.Json.Reader
import UnsafeAudit.Json.Writer
import UnsafeAudit.Proofs.Decimal.Shortest

/-!
# Reading back numbers

An integer is read back from its text, and a floating point number in normal
form from the shortest digits that stand for it, however they are spelled
(`value?_intText`, `value?_text`). What follows a number must not continue it.
-/

namespace UnsafeAudit.Json

open Decimal (natText intText zeros exponentText spell)

variable {c : Char} {ds whole part text rest : List Char} {n coefficient fuel : Nat} {e : Int}
  {negative : Bool} {power : Option Int} {x : Binary64}

-- ---------------------------------------------------------------------------
-- Digits
-- ---------------------------------------------------------------------------

theorem isDigit_eq (c : Char) : isDigit c = c.isDigit := by
  rw [isDigit, Char.isDigit]
  rfl

theorem natOfDigits_eq (ds : List Char) : natOfDigits ds = Nat.ofDigitChars 10 ds 0 := by
  rw [Nat.ofDigitChars_eq_foldl]
  rfl

theorem natOfDigits_append (xs ys : List Char) :
    natOfDigits (xs ++ ys) = 10 ^ ys.length * natOfDigits xs + natOfDigits ys := by
  simp only [natOfDigits_eq, Nat.ofDigitChars_append]
  exact Nat.ofDigitChars_eq_ofDigitChars_zero

theorem natOfDigits_zeros (n : Nat) : natOfDigits (List.replicate n '0') = 0 := by
  rw [natOfDigits_eq, Nat.ofDigitChars_replicate_zero, Nat.mul_zero]

theorem natOfDigits_natText (n : Nat) : natOfDigits (natText n).toList = n := by
  rw [natOfDigits_eq, natText, String.toList_ofList, Nat.ofDigitChars_ten_toDigits]

theorem isDigit_of_mem_natText (h : c ∈ (natText n).toList) : isDigit c = true := by
  rw [natText, String.toList_ofList] at h
  rw [isDigit_eq]
  exact Nat.isDigit_of_mem_toDigits (by decide) (by decide) h

theorem natText_ne_nil (n : Nat) : (natText n).toList ≠ [] := by
  rw [natText, String.toList_ofList]
  exact Nat.toDigits_ne_nil

/-- Only the text of zero begins with a zero. -/
theorem eq_zero_of_head_natText (h : (natText n).toList.head? = some '0') : n = 0 := by
  rw [natText, String.toList_ofList] at h
  induction n using Nat.strongRecOn with
  | _ n ih =>
    rw [Nat.toDigits_eq_if (by decide)] at h
    split at h
    · have hdigit : ∀ d < 10, d.digitChar = '0' → d = 0 := by decide
      exact hdigit n ‹_› (Option.some.inj h)
    · rw [List.head?_append_of_ne_nil _ Nat.toDigits_ne_nil] at h
      have := ih (n / 10) (by omega) h
      omega

/-- What follows a number does not continue it. -/
def Closes (rest : List Char) : Prop :=
  ∀ c ∈ rest.head?, isDigit c = false ∧ c ≠ '.' ∧ c ≠ 'e' ∧ c ≠ 'E'

theorem closes_nil : Closes [] := nofun

theorem closes_cons (h : isDigit c = false ∧ c ≠ '.' ∧ c ≠ 'e' ∧ c ≠ 'E') (rest : List Char) :
    Closes (c :: rest) := by
  rintro _ ⟨⟩
  exact h

theorem takeWhile_digits (hds : ∀ c ∈ ds, isDigit c = true)
    (hrest : ∀ c ∈ rest.head?, isDigit c = false) :
    (ds ++ rest).takeWhile isDigit = ds ∧ (ds ++ rest).dropWhile isDigit = rest := by
  have hnone : rest.takeWhile isDigit = [] ∧ rest.dropWhile isDigit = rest := by
    cases rest with
    | nil => exact ⟨rfl, rfl⟩
    | cons c rest =>
      have hc := hrest c rfl
      simp [hc]
  rw [List.takeWhile_append_of_pos hds, List.dropWhile_append_of_pos hds, hnone.1, hnone.2,
    List.append_nil]
  exact ⟨rfl, rfl⟩

-- ---------------------------------------------------------------------------
-- Parts of a number
-- ---------------------------------------------------------------------------

theorem fraction_point (hpart : part ≠ []) (hdigits : ∀ c ∈ part, isDigit c = true)
    (hrest : ∀ c ∈ rest.head?, isDigit c = false) :
    fraction ('.' :: (part ++ rest)) = (part, rest) := by
  obtain ⟨htake, hdrop⟩ := takeWhile_digits hdigits hrest
  simp [fraction, htake, hdrop, hpart]

theorem fraction_none (h : ∀ c ∈ text.head?, c ≠ '.') : fraction text = ([], text) := by
  cases text with
  | nil => rfl
  | cons c rest =>
    have hc : c ≠ '.' := h c rfl
    rw [fraction]
    rintro _ ⟨⟩
    exact hc rfl

theorem exponent_none (h : ∀ c ∈ text.head?, c ≠ 'e' ∧ c ≠ 'E') : exponent text = (none, text) := by
  cases text with
  | nil => rfl
  | cons c rest =>
    obtain ⟨he, hE⟩ := h c rfl
    simp [exponent, he, hE]

/-- The digits of an exponent, of which there are two at least. -/
def exponentDigits (k : Nat) : List Char :=
  if (natText k).length < 2 then '0' :: (natText k).toList else (natText k).toList

theorem isDigit_of_mem_exponentDigits {k : Nat} (h : c ∈ exponentDigits k) : isDigit c = true := by
  rw [exponentDigits] at h
  split at h
  · rcases List.mem_cons.mp h with rfl | h
    · rfl
    · exact isDigit_of_mem_natText h
  · exact isDigit_of_mem_natText h

theorem exponentDigits_ne_nil (k : Nat) : exponentDigits k ≠ [] := by
  rw [exponentDigits]
  split
  · exact List.cons_ne_nil _ _
  · exact natText_ne_nil k

theorem natOfDigits_exponentDigits (k : Nat) : natOfDigits (exponentDigits k) = k := by
  rw [exponentDigits]
  split
  · rw [← List.singleton_append, natOfDigits_append, natOfDigits_natText]
    exact Nat.zero_add k
  · exact natOfDigits_natText k

theorem toList_exponentText (e : Int) :
    (exponentText e).toList = 'e' :: (if e < 0 then '-' else '+') :: exponentDigits e.natAbs := by
  rw [exponentText, exponentDigits]
  split <;> split <;> simp

theorem exponent_exponentText (e : Int) (hrest : ∀ c ∈ rest.head?, isDigit c = false) :
    exponent ((exponentText e).toList ++ rest) = (some e, rest) := by
  have hdigits : ∀ c ∈ exponentDigits e.natAbs, isDigit c = true :=
    fun _ => isDigit_of_mem_exponentDigits
  obtain ⟨htake, hdrop⟩ := takeWhile_digits hdigits hrest
  have hvalue := natOfDigits_exponentDigits e.natAbs
  have hne := exponentDigits_ne_nil e.natAbs
  rw [toList_exponentText]
  rcases Int.lt_or_le e 0 with hneg | hnonneg
  · simp [hneg, exponent, htake, hdrop, hvalue, hne, abs_of_neg hneg]
  · simp [Int.not_lt.mpr hnonneg, exponent, htake, hdrop, hvalue, hne, abs_of_nonneg hnonneg]

/-- Digits before the point: only a single zero begins with one. -/
structure IsWhole (whole : List Char) : Prop where
  ne_nil : whole ≠ []
  digits : ∀ c ∈ whole, isDigit c = true
  zero : whole.head? = some '0' → whole = ['0']

theorem isWhole_natText (n : Nat) : IsWhole (natText n).toList where
  ne_nil := natText_ne_nil n
  digits _ := isDigit_of_mem_natText
  zero h := by
    rw [eq_zero_of_head_natText h]
    rfl

theorem isWhole_zero : IsWhole ['0'] where
  ne_nil := List.cons_ne_nil _ _
  digits := List.forall_mem_singleton.mpr rfl
  zero _ := rfl

namespace IsWhole

variable (hwhole : IsWhole whole) (htext : ∀ c ∈ text.head?, isDigit c = false)

include hwhole htext

theorem taken : (if ((whole ++ text).takeWhile isDigit).head? = some '0' then ['0']
    else (whole ++ text).takeWhile isDigit) = whole := by
  rw [(takeWhile_digits hwhole.digits htext).1]
  split
  · rename_i h
    exact (hwhole.zero h).symm
  · rfl

theorem magnitude?_int (hfraction : fraction text = ([], rest))
    (hexponent : exponent rest = (none, rest)) (negative : Bool) :
    magnitude? negative (whole ++ text) =
      some (.int (if negative then -(natOfDigits whole : Int) else natOfDigits whole), rest) := by
  simp only [magnitude?, hwhole.taken htext, List.isEmpty_eq_false_iff.mpr hwhole.ne_nil,
    Bool.false_eq_true, if_false, List.drop_left, hfraction, hexponent]

theorem magnitude?_float {after : List Char} (hfraction : fraction text = (part, after))
    (hexponent : exponent after = (power, rest)) (h : part ≠ [] ∨ power ≠ none)
    (negative : Bool) :
    magnitude? negative (whole ++ text) =
      some (.float (.ofDecimal negative (natOfDigits (whole ++ part))
        (power.getD 0 - part.length)), rest) := by
  simp only [magnitude?, hwhole.taken htext, List.isEmpty_eq_false_iff.mpr hwhole.ne_nil,
    Bool.false_eq_true, if_false, List.drop_left, hfraction, hexponent]
  split
  · exact absurd h (by simp)
  · rfl

end IsWhole

-- ---------------------------------------------------------------------------
-- Texts of numbers
-- ---------------------------------------------------------------------------

theorem magnitude?_natText (hrest : Closes rest) (negative : Bool) (n : Nat) :
    magnitude? negative ((natText n).toList ++ rest) =
      some (.int (if negative then -(n : Int) else n), rest) := by
  have hread := (isWhole_natText n).magnitude?_int (fun c hc => (hrest c hc).1)
    (fraction_none fun c hc => (hrest c hc).2.1) (exponent_none fun c hc => (hrest c hc).2.2) negative
  rw [hread, natOfDigits_natText]

theorem head_exponentText (e : Int) (rest : List Char) :
    ((exponentText e).toList ++ rest).head? = some 'e' := by
  rw [toList_exponentText]
  rfl

section

variable (hwhole : IsWhole whole) (hrest : Closes rest) (negative : Bool)

include hwhole hrest

theorem magnitude?_point (hpart : part ≠ []) (hdigits : ∀ c ∈ part, isDigit c = true) :
    magnitude? negative (whole ++ '.' :: (part ++ rest)) =
      some (.float (.ofDecimal negative (natOfDigits (whole ++ part)) (-part.length)), rest) := by
  have hpoint : ∀ c ∈ ('.' :: (part ++ rest)).head?, isDigit c = false := by
    rintro _ ⟨⟩
    rfl
  have hread := hwhole.magnitude?_float hpoint
    (fraction_point hpart hdigits fun c hc => (hrest c hc).1)
    (exponent_none fun c hc => (hrest c hc).2.2) (.inl hpart) negative
  rw [hread, Option.getD_none, Int.zero_sub]

theorem magnitude?_exponent (e : Int) :
    magnitude? negative (whole ++ ((exponentText e).toList ++ rest)) =
      some (.float (.ofDecimal negative (natOfDigits whole) e), rest) := by
  have hhead := head_exponentText e rest
  have hletter : ∀ c ∈ ((exponentText e).toList ++ rest).head?, isDigit c = false := by
    rw [hhead]
    rintro _ ⟨⟩
    rfl
  have hread := hwhole.magnitude?_float hletter
    (fraction_none (by rw [hhead]; rintro _ ⟨⟩; decide))
    (exponent_exponentText e fun c hc => (hrest c hc).1) (.inr nofun) negative
  rw [hread, List.append_nil, Option.getD_some, List.length_nil, Int.natCast_zero, Int.sub_zero]

theorem magnitude?_point_exponent (hpart : part ≠ []) (hdigits : ∀ c ∈ part, isDigit c = true)
    (e : Int) :
    magnitude? negative (whole ++ '.' :: (part ++ ((exponentText e).toList ++ rest))) =
      some (.float (.ofDecimal negative (natOfDigits (whole ++ part)) (e - part.length)), rest) := by
  have hhead := head_exponentText e rest
  have hpoint : ∀ c ∈ ('.' :: (part ++ ((exponentText e).toList ++ rest))).head?,
      isDigit c = false := by
    rintro _ ⟨⟩
    rfl
  have hread := hwhole.magnitude?_float hpoint
    (fraction_point hpart hdigits (by rw [hhead]; rintro _ ⟨⟩; rfl))
    (exponent_exponentText e fun c hc => (hrest c hc).1) (.inl hpart) negative
  rw [hread, Option.getD_some]

end

-- ---------------------------------------------------------------------------
-- Texts of floating point numbers
-- ---------------------------------------------------------------------------

theorem head_natText_ne (hn : n ≠ 0) : (natText n).toList.head? ≠ some '0' :=
  fun h => hn (eq_zero_of_head_natText h)

theorem isWhole_take {k : Nat} (hpos : 0 < k) (hn : n ≠ 0) :
    IsWhole ((natText n).toList.take k) where
  ne_nil h := (List.take_eq_nil_iff.mp h).elim hpos.ne' (natText_ne_nil n)
  digits _ hc := isDigit_of_mem_natText (List.mem_of_mem_take hc)
  zero h := by
    rw [List.head?_take, if_neg hpos.ne'] at h
    exact absurd h (head_natText_ne hn)

theorem isWhole_zeros (k : Nat) (hn : n ≠ 0) :
    IsWhole ((natText n).toList ++ List.replicate k '0') where
  ne_nil := List.append_ne_nil_of_left_ne_nil (natText_ne_nil n) _
  digits c hc := by
    rcases List.mem_append.mp hc with hc | hc
    · exact isDigit_of_mem_natText hc
    · rw [List.eq_of_mem_replicate hc]
      rfl
  zero h := by
    rw [List.head?_append_of_ne_nil _ (natText_ne_nil n)] at h
    exact absurd h (head_natText_ne hn)

theorem natOfDigits_take_drop (k n : Nat) :
    natOfDigits ((natText n).toList.take k ++ (natText n).toList.drop k) = n := by
  rw [List.take_append_drop, natOfDigits_natText]

theorem natOfDigits_append_zeros (n k : Nat) :
    natOfDigits ((natText n).toList ++ List.replicate k '0') = n * 10 ^ k := by
  rw [natOfDigits_append, natOfDigits_natText, natOfDigits_zeros, List.length_replicate,
    Nat.mul_comm, Nat.add_zero]

/-- Digits that end before the sixteenth place stand for a small number, which zeros and a point
behind them do not change. -/
theorem ofDecimal_zeros {k : Nat} (hn : n ≠ 0) (hk : (natText n).length + k ≤ 16)
    (negative : Bool) :
    Binary64.ofDecimal negative (n * 10 ^ (k + 1)) (-1) = Binary64.ofDecimal negative n k := by
  have hvalue : ((n * 10 ^ (k + 1) : Nat) : ℚ) * 10 ^ (-1 : Int) = n * 10 ^ (k : Int) := by
    rw [zpow_natCast, zpow_neg_one, Nat.cast_mul, Nat.cast_pow, Nat.cast_ofNat, pow_succ]
    field_simp
  have hsmall : n * 10 ^ k < 2 ^ 1024 := by
    have hlength : (Nat.toDigits 10 n).length ≤ (natText n).length := by
      rw [natText, String.length_ofList]
    have hpos : 0 < (natText n).length := List.length_pos_iff.mpr (natText_ne_nil n)
    have hn10 : n < 10 ^ (natText n).length :=
      (Nat.length_toDigits_le_iff (by decide) hpos).mp hlength
    calc n * 10 ^ k < 10 ^ (natText n).length * 10 ^ k :=
          Nat.mul_lt_mul_of_pos_right hn10 (Nat.pow_pos (by decide))
      _ = 10 ^ ((natText n).length + k) := (Nat.pow_add ..).symm
      _ ≤ 10 ^ 16 := Nat.pow_le_pow_right (by decide) hk
      _ < 2 ^ 1024 := by decide +kernel
  refine Binary64.ofDecimal_congr (Nat.mul_ne_zero hn (Nat.pow_pos (by decide)).ne') hn (by decide)
    (by omega) hvalue ?_ negative
  rw [hvalue, zpow_natCast]
  exact_mod_cast hsmall

section

variable (hrest : Closes rest) (negative : Bool) (hn : n ≠ 0)

include hrest

theorem magnitude?_behind (k : Nat) :
    magnitude? negative (("0." ++ zeros k ++ natText n).toList ++ rest) =
      some (.float (.ofDecimal negative n (-(k + (natText n).length : Nat))), rest) := by
  have hdigits : ∀ c ∈ List.replicate k '0' ++ (natText n).toList, isDigit c = true := by
    intro c hc
    rcases List.mem_append.mp hc with hc | hc
    · rw [List.eq_of_mem_replicate hc]
      rfl
    · exact isDigit_of_mem_natText hc
  have htext : ("0." ++ zeros k ++ natText n).toList ++ rest =
      ['0'] ++ '.' :: (List.replicate k '0' ++ (natText n).toList ++ rest) := by
    simp [zeros]
  have hvalue : natOfDigits (['0'] ++ (List.replicate k '0' ++ (natText n).toList)) = n := by
    rw [natOfDigits_append, natOfDigits_append, natOfDigits_zeros, natOfDigits_natText]
    exact (Nat.zero_add _).trans (Nat.zero_add n)
  rw [htext, magnitude?_point isWhole_zero hrest negative
    (List.append_ne_nil_of_right_ne_nil _ (natText_ne_nil n)) hdigits, hvalue, List.length_append,
    List.length_replicate]
  rfl

include hn

theorem magnitude?_before {k : Nat} (hk : (natText n).length + k ≤ 16) :
    magnitude? negative ((natText n ++ zeros k ++ ".0").toList ++ rest) =
      some (.float (.ofDecimal negative n k), rest) := by
  have htext : (natText n ++ zeros k ++ ".0").toList ++ rest =
      (natText n).toList ++ List.replicate k '0' ++ '.' :: (['0'] ++ rest) := by
    simp [zeros]
  have hvalue : natOfDigits ((natText n).toList ++ List.replicate k '0' ++ ['0']) =
      n * 10 ^ (k + 1) := by
    rw [List.append_assoc]
    exact natOfDigits_append_zeros n (k + 1) ▸ by rw [List.replicate_succ']
  rw [htext, magnitude?_point (isWhole_zeros k hn) hrest negative isWhole_zero.ne_nil
    isWhole_zero.digits, hvalue]
  exact congrArg (fun x => some (Json.float x, rest)) (ofDecimal_zeros hn hk negative)

theorem magnitude?_within {k : Nat} (hpos : 0 < k) (hlt : k < (natText n).length) :
    magnitude? negative ((String.ofList ((natText n).toList.take k) ++ "." ++
        String.ofList ((natText n).toList.drop k)).toList ++ rest) =
      some (.float (.ofDecimal negative n (-((natText n).length - k : Nat))), rest) := by
  have hpart : (natText n).toList.drop k ≠ [] := fun h =>
    absurd (List.drop_eq_nil_iff.mp h) (Nat.not_le.mpr hlt)
  have htext : (String.ofList ((natText n).toList.take k) ++ "." ++
      String.ofList ((natText n).toList.drop k)).toList ++ rest =
        (natText n).toList.take k ++ '.' :: ((natText n).toList.drop k ++ rest) := by
    simp
  rw [htext, magnitude?_point (isWhole_take hpos hn) hrest negative hpart
    fun c hc => isDigit_of_mem_natText (List.mem_of_mem_drop hc), natOfDigits_take_drop,
    List.length_drop]
  rfl

theorem magnitude?_scientific (point : Int) :
    magnitude? negative
        (((if (String.ofList ((natText n).toList.drop 1)).isEmpty then
            String.ofList ((natText n).toList.take 1)
          else String.ofList ((natText n).toList.take 1) ++ "." ++
            String.ofList ((natText n).toList.drop 1)) ++ exponentText (point - 1)).toList ++ rest) =
      some (.float (.ofDecimal negative n (point - (natText n).length)), rest) := by
  have hlength : (natText n).toList.length = (natText n).length := rfl
  have hwhole := isWhole_take Nat.one_pos hn
  have hvalue := natOfDigits_take_drop 1 n
  by_cases hpart : (natText n).toList.drop 1 = []
  · have hone : (natText n).length = 1 := by
      have hle := List.drop_eq_nil_iff.mp hpart
      have hpos := List.length_pos_iff.mpr (natText_ne_nil n)
      omega
    rw [hpart, List.append_nil] at hvalue
    have hread := magnitude?_exponent hwhole hrest negative (point - 1)
    rw [hvalue] at hread
    simpa [hpart, hone] using hread
  · have hread := magnitude?_point_exponent hwhole hrest negative hpart
      (fun c hc => isDigit_of_mem_natText (List.mem_of_mem_drop hc)) (point - 1)
    have hplaces : point - 1 - ((natText n).toList.drop 1).length = point - (natText n).length := by
      have hpos := List.length_pos_iff.mpr (natText_ne_nil n)
      rw [List.length_drop]
      omega
    have htail : (String.ofList ((natText n).toList.drop 1)).isEmpty = false := by
      simpa using hpart
    rw [hvalue, hplaces] at hread
    rw [htail]
    simpa using hread

end

theorem spell_zero (e : Int) : spell .json 0 e = "0.0" := rfl

/-- However digits are spelled, they are read as the number that they stand for. -/
theorem magnitude?_spell (hrest : Closes rest) (negative : Bool) (n : Nat) (e : Int) :
    magnitude? negative ((spell .json n e).toList ++ rest) =
      some (.float (.ofDecimal negative n e), rest) := by
  rcases Nat.eq_zero_or_pos n with rfl | hpos
  · rw [spell_zero]
    exact magnitude?_point isWhole_zero hrest negative isWhole_zero.ne_nil isWhole_zero.digits
  · obtain ⟨point, hpoint⟩ : ∃ point : Int, ((natText n).length : Int) + e = point := ⟨_, rfl⟩
    rw [spell]
    simp only [hpos.ne', if_false, hpoint]
    split
    · rename_i hpositional
      split
      · rename_i hbehind
        rw [magnitude?_behind hrest]
        congr 4
        omega
      · split
        · rename_i hbefore
          have hgreatest : point ≤ 16 := of_decide_eq_true (Bool.and_eq_true_iff.mp hpositional).2
          rw [magnitude?_before hrest negative hpos.ne' (by omega)]
          congr 4
          omega
        · rw [magnitude?_within hrest negative hpos.ne' (by omega) (by omega)]
          congr 4
          omega
    · have hread := magnitude?_scientific hrest negative hpos.ne' point
      rw [show point - ((natText n).length : Int) = e by omega] at hread
      exact hread

-- ---------------------------------------------------------------------------
-- Values
-- ---------------------------------------------------------------------------

theorem exists_digit_of_magnitude? {found : Json × List Char}
    (h : magnitude? negative text = some found) : ∃ c rest, text = c :: rest ∧ isDigit c = true := by
  cases text with
  | nil => cases h
  | cons c rest =>
    refine ⟨c, rest, rfl, Bool.not_eq_false _ ▸ fun hc => ?_⟩
    simp [magnitude?, hc] at h

def signChars (negative : Bool) : List Char := if negative then ['-'] else []

theorem ne_of_isDigit {d : Char} (hc : isDigit c = true) (hd : isDigit d = false) : c ≠ d := by
  rintro rfl
  rw [hc] at hd
  cases hd

theorem find?_literals_digit (hc : isDigit c = true) (rest : List Char) :
    literals.find? (fun (word, _) => word.isPrefixOf (c :: rest)) = none := by
  have hn := ne_of_isDigit (d := 'n') hc rfl
  have ht := ne_of_isDigit (d := 't') hc rfl
  have hf := ne_of_isDigit (d := 'f') hc rfl
  have hN := ne_of_isDigit (d := 'N') hc rfl
  have hI := ne_of_isDigit (d := 'I') hc rfl
  have hminus := ne_of_isDigit (d := '-') hc rfl
  simp [literals, hn.symm, ht.symm, hf.symm, hN.symm, hI.symm, hminus.symm]

theorem find?_literals_minus (hc : isDigit c = true) (rest : List Char) :
    literals.find? (fun (word, _) => word.isPrefixOf ('-' :: c :: rest)) = none := by
  have hI := ne_of_isDigit (d := 'I') hc rfl
  simp [literals, hI.symm]

theorem scalar?_digit (hc : isDigit c = true) (rest : List Char) :
    scalar? (c :: rest) = magnitude? false (c :: rest) := by
  rw [scalar?, find?_literals_digit hc]
  rintro _ ⟨⟩
  cases hc

theorem scalar?_minus (hc : isDigit c = true) (rest : List Char) :
    scalar? ('-' :: c :: rest) = magnitude? true (c :: rest) := by
  rw [scalar?, find?_literals_minus hc]

/-- A number is read as such: no word and nothing else begins as it does. -/
theorem value?_of_magnitude? {found : Json × List Char} (h : magnitude? negative text = some found)
    (fuel : Nat) : value? (fuel + 1) (signChars negative ++ text) = some found := by
  obtain ⟨c, rest, rfl, hc⟩ := exists_digit_of_magnitude? h
  cases negative with
  | false =>
    rw [signChars, if_neg Bool.false_ne_true, List.nil_append, value?, scalar?_digit hc, h]
    · exact List.cons_ne_nil _ _
    all_goals
      rintro _ ⟨⟩
      cases hc
  | true =>
    rw [signChars, if_pos rfl, List.cons_append, List.nil_append, value?, scalar?_minus hc, h]
    · exact List.cons_ne_nil _ _
    all_goals
      rintro _ ⟨⟩

theorem intText_eq (n : Int) :
    (intText n).toList = signChars (n < 0) ++ (natText n.natAbs).toList := by
  rw [intText]
  split <;> simp [signChars, *]

theorem text_finite (negative : Bool) (m : Nat) (e : Int) :
    (Decimal.text .json (.finite negative m e)).toList = signChars negative ++
      (spell .json (Binary64.finite negative m e).digits.1
        (Binary64.finite negative m e).digits.2).toList := by
  rw [Decimal.text]
  cases negative <;> simp [signChars]

theorem exists_cons_of_magnitude? {found : Json × List Char}
    (h : magnitude? negative text = some found) :
    ∃ c rest, signChars negative ++ text = c :: rest ∧ isSpace c = false ∧ c ≠ ']' ∧ c ≠ '\x7d' := by
  obtain ⟨c, rest, rfl, hc⟩ := exists_digit_of_magnitude? h
  cases negative with
  | true => exact ⟨'-', c :: rest, rfl, by decide⟩
  | false =>
    have hblank := ne_of_isDigit (d := ' ') hc rfl
    have htab := ne_of_isDigit (d := '\t') hc rfl
    have hnewline := ne_of_isDigit (d := '\n') hc rfl
    have hreturn := ne_of_isDigit (d := '\r') hc rfl
    exact ⟨c, rest, rfl, by simp [isSpace, hblank, htab, hnewline, hreturn], ne_of_isDigit hc rfl,
      ne_of_isDigit hc rfl⟩

theorem exists_intText_cons (n : Int) :
    ∃ c rest, (intText n).toList = c :: rest ∧ isSpace c = false ∧ c ≠ ']' ∧ c ≠ '\x7d' := by
  rw [intText_eq, ← List.append_nil (natText n.natAbs).toList]
  exact exists_cons_of_magnitude? (magnitude?_natText closes_nil _ _)

theorem exists_text_cons (h : x.IsNormal) :
    ∃ c rest, (Decimal.text .json x).toList = c :: rest ∧ isSpace c = false ∧ c ≠ ']' ∧
      c ≠ '\x7d' := by
  cases x with
  | infinite negative => exact h.elim
  | nan => exact h.elim
  | finite negative m e =>
    rw [text_finite, ← List.append_nil (spell _ _ _).toList]
    exact exists_cons_of_magnitude? (magnitude?_spell closes_nil _ _ _)

theorem value?_intText (hrest : Closes rest) (n : Int) (fuel : Nat) :
    value? (fuel + 1) ((intText n).toList ++ rest) = some (.int n, rest) := by
  rw [intText_eq, List.append_assoc, value?_of_magnitude? (magnitude?_natText hrest _ _)]
  have hsign : (if decide (n < 0) = true then -(n.natAbs : Int) else n.natAbs) = n := by
    split
    · rename_i hneg
      have := of_decide_eq_true hneg
      omega
    · rename_i hnonneg
      rw [decide_eq_true_iff] at hnonneg
      omega
  rw [hsign]

theorem value?_text (hrest : Closes rest) (h : x.IsNormal) (fuel : Nat) :
    value? (fuel + 1) ((Decimal.text .json x).toList ++ rest) = some (.float x, rest) := by
  cases x with
  | infinite negative => exact h.elim
  | nan => exact h.elim
  | finite negative m e =>
    rw [text_finite, List.append_assoc, value?_of_magnitude? (magnitude?_spell hrest _ _ _)]
    exact congrArg (fun x => some (Json.float x, rest)) (Binary64.ofDecimal_digits h)

end UnsafeAudit.Json
