import UnsafeAudit.Text.Utf8

/-!
# Bytes of texts

What is encoded decodes to the same text (`decode_encode`). A character comes
back from its bytes, whatever follows them.
-/

namespace UnsafeAudit.Text.Utf8

variable {n : Nat} {a b c d : UInt8} {rest : List UInt8}

theorem toNat_byte (h : n < 256) : n.toUInt8.toNat = n := by
  simp [Nat.mod_eq_of_lt h]

/-- No character is a surrogate. -/
theorem toNat_bounds (c : Char) : c.toNat < 0xd800 ∨ 0xe000 ≤ c.toNat ∧ c.toNat < 0x110000 := by
  rcases c.valid with h | ⟨h, h'⟩
  · exact .inl h
  · exact .inr ⟨Nat.succ_le_of_lt h, h'⟩

-- ---------------------------------------------------------------------------
-- Further bytes
-- ---------------------------------------------------------------------------

theorem toNat_continuation (n : Nat) : (0x80 + n % 64).toUInt8.toNat = 0x80 + n % 64 :=
  toNat_byte (by omega)

@[simp] theorem isContinuation_byte (n : Nat) : isContinuation (0x80 + n % 64).toUInt8 = true := by
  rw [isContinuation, toNat_continuation, decide_eq_true_iff]
  omega

@[simp] theorem low6_byte (n : Nat) : low6 (0x80 + n % 64).toUInt8 = n % 64 := by
  rw [low6, toNat_continuation]
  omega

-- ---------------------------------------------------------------------------
-- Sequences
-- ---------------------------------------------------------------------------

theorem decodeFrom_one (h : announced a = some 1) (position : Nat) :
    decodeFrom position (a :: rest) =
      (decodeFrom (position + 1) rest).map (Char.ofNat a.toNat :: ·) := by
  rw [decodeFrom.eq_def]
  simp only [h]

theorem decodeFrom_two (h : announced a = some 2) (hb : isContinuation b = true)
    (position : Nat) : decodeFrom position (a :: b :: rest) =
      (decodeFrom (position + 2) rest).map
        (Char.ofNat (a.toNat % 32 * 64 + low6 b) :: ·) := by
  rw [decodeFrom.eq_def]
  simp only [h, hb, if_true]

theorem decodeFrom_three (h : announced a = some 3) (hb : admitsSecond a b = true)
    (hc : isContinuation c = true) (position : Nat) :
    decodeFrom position (a :: b :: c :: rest) =
      (decodeFrom (position + 3) rest).map
        (Char.ofNat (a.toNat % 16 * 4096 + low6 b * 64 + low6 c) :: ·) := by
  rw [decodeFrom.eq_def]
  simp [h, hb, hc]

theorem decodeFrom_four (h : announced a = some 4) (hb : admitsSecond a b = true)
    (hc : isContinuation c = true) (hd : isContinuation d = true) (position : Nat) :
    decodeFrom position (a :: b :: c :: d :: rest) =
      (decodeFrom (position + 4) rest).map
        (Char.ofNat (a.toNat % 8 * 262144 + low6 b * 4096 + low6 c * 64 + low6 d) :: ·) := by
  rw [decodeFrom.eq_def]
  simp [h, hb, hc, hd]

-- ---------------------------------------------------------------------------
-- Characters
-- ---------------------------------------------------------------------------

theorem decodeFrom_encodeChar (position : Nat) (c : Char) (rest : List UInt8) :
    decodeFrom position (encodeChar c ++ rest) =
      (decodeFrom (position + (encodeChar c).length) rest).map (c :: ·) := by
  have hc := toNat_bounds c
  rw [encodeChar]
  split
  · rename_i h1
    have ha : c.toNat.toUInt8.toNat = c.toNat := toNat_byte (by omega)
    have hfirst : announced c.toNat.toUInt8 = some 1 := by
      simp only [announced, ha, h1, if_true]
    rw [List.singleton_append, decodeFrom_one hfirst, ha, Char.ofNat_toNat]
    rfl
  split
  · rename_i h1 h2
    have ha : (0xc0 + c.toNat / 64).toUInt8.toNat = 0xc0 + c.toNat / 64 := toNat_byte (by omega)
    have hfirst : announced (0xc0 + c.toNat / 64).toUInt8 = some 2 := by
      simp only [announced, ha]
      rw [if_neg (by omega), if_neg (by omega), if_pos (by omega)]
    have hsum : (0xc0 + c.toNat / 64) % 32 * 64 + c.toNat % 64 = c.toNat := by omega
    rw [List.cons_append, List.singleton_append,
      decodeFrom_two hfirst (isContinuation_byte _), ha, low6_byte, hsum, Char.ofNat_toNat]
    rfl
  split
  · rename_i h1 h2 h3
    have ha : (0xe0 + c.toNat / 4096).toUInt8.toNat = 0xe0 + c.toNat / 4096 :=
      toNat_byte (by omega)
    have hfirst : announced (0xe0 + c.toNat / 4096).toUInt8 = some 3 := by
      simp only [announced, ha]
      rw [if_neg (by omega), if_neg (by omega), if_neg (by omega), if_pos (by omega)]
    -- neither an overlong form nor a surrogate
    have hsecond : admitsSecond (0xe0 + c.toNat / 4096).toUInt8
        (0x80 + c.toNat / 64 % 64).toUInt8 = true := by
      simp only [admitsSecond, ha, toNat_continuation, isContinuation_byte, decide_eq_true_iff]
      refine ⟨trivial, ?_, ?_, ?_, ?_⟩ <;> omega
    have hsum : (0xe0 + c.toNat / 4096) % 16 * 4096 + c.toNat / 64 % 64 * 64 + c.toNat % 64 =
        c.toNat := by omega
    rw [List.cons_append, List.cons_append, List.singleton_append,
      decodeFrom_three hfirst hsecond (isContinuation_byte _), ha, low6_byte, low6_byte, hsum,
      Char.ofNat_toNat]
    rfl
  · rename_i h1 h2 h3
    have ha : (0xf0 + c.toNat / 262144).toUInt8.toNat = 0xf0 + c.toNat / 262144 :=
      toNat_byte (by omega)
    have hfirst : announced (0xf0 + c.toNat / 262144).toUInt8 = some 4 := by
      simp only [announced, ha]
      rw [if_neg (by omega), if_neg (by omega), if_neg (by omega), if_neg (by omega),
        if_pos (by omega)]
    have hsecond : admitsSecond (0xf0 + c.toNat / 262144).toUInt8
        (0x80 + c.toNat / 4096 % 64).toUInt8 = true := by
      simp only [admitsSecond, ha, toNat_continuation, isContinuation_byte, decide_eq_true_iff]
      refine ⟨trivial, ?_, ?_, ?_, ?_⟩ <;> omega
    have hsum : (0xf0 + c.toNat / 262144) % 8 * 262144 + c.toNat / 4096 % 64 * 4096 +
        c.toNat / 64 % 64 * 64 + c.toNat % 64 = c.toNat := by omega
    rw [List.cons_append, List.cons_append, List.cons_append, List.singleton_append,
      decodeFrom_four hfirst hsecond (isContinuation_byte _) (isContinuation_byte _), ha,
      low6_byte, low6_byte, low6_byte, hsum, Char.ofNat_toNat]
    rfl

theorem decodeFrom_encode (position : Nat) (text : List Char) :
    decodeFrom position (encode text) = .ok text := by
  induction text generalizing position with
  | nil => rfl
  | cons c rest ih =>
    have hrest : encode (c :: rest) = encodeChar c ++ encode rest := List.flatMap_cons
    rw [hrest, decodeFrom_encodeChar, ih]
    rfl

theorem decode_encode (text : List Char) : decode (encode text) = .ok text :=
  decodeFrom_encode 0 text

end UnsafeAudit.Text.Utf8
