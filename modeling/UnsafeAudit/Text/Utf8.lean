/-!
# UTF-8

Decoding is strict and says where and why it stopped: the first byte that
cannot start a character, the first sequence that breaks off, or a sequence
cut short by the end of the input. Overlong forms, surrogates and values above
U+10FFFF are refused at the byte that makes them so.
-/

namespace UnsafeAudit.Text.Utf8

inductive Reason
  | invalidStart
  | invalidContinuation
  | unexpectedEnd
  deriving DecidableEq, Repr

def Reason.message : Reason → String
  | .invalidStart => "invalid start byte"
  | .invalidContinuation => "invalid continuation byte"
  | .unexpectedEnd => "unexpected end of data"

/-- A malformed sequence: `length` bytes from `position`, the first of them `byte`. -/
structure Malformed where
  position : Nat
  length : Nat
  byte : UInt8
  reason : Reason
  deriving DecidableEq, Repr

def hexDigit (n : Nat) : Char :=
  if n < 10 then Char.ofNat (48 + n) else Char.ofNat (87 + n)

def Malformed.message (m : Malformed) : String :=
  let b := m.byte.toNat
  let hex := String.ofList [hexDigit (b / 16), hexDigit (b % 16)]
  if m.length = 1 then
    s!"'utf-8' codec can't decode byte 0x{hex} in position {m.position}: {m.reason.message}"
  else
    let last := m.position + m.length - 1
    s!"'utf-8' codec can't decode bytes in position {m.position}-{last}: {m.reason.message}"

def isContinuation (b : UInt8) : Bool := 0x80 ≤ b.toNat ∧ b.toNat < 0xc0

def announced (b : UInt8) : Option Nat :=
  let n := b.toNat
  if n < 0x80 then some 1
  else if n < 0xc2 then none
  else if n < 0xe0 then some 2
  else if n < 0xf0 then some 3
  else if n < 0xf5 then some 4
  else none

/-- Whether `second` may follow `first`: a continuation byte that makes no overlong form,
surrogate or value above U+10FFFF. -/
def admitsSecond (first second : UInt8) : Bool :=
  let a := first.toNat
  let b := second.toNat
  isContinuation second ∧ (a = 0xe0 → 0xa0 ≤ b) ∧ (a = 0xed → b < 0xa0) ∧
    (a = 0xf0 → 0x90 ≤ b) ∧ (a = 0xf4 → b < 0x90)

def low6 (b : UInt8) : Nat := b.toNat % 64

def decodeFrom (position : Nat) : List UInt8 → Except Malformed (List Char)
  | [] => .ok []
  | a :: rest =>
    let fail (length : Nat) (reason : Reason) : Except Malformed (List Char) :=
      .error ⟨position, length, a, reason⟩
    match announced a with
    | none => fail 1 .invalidStart
    | some 1 => (decodeFrom (position + 1) rest).map (Char.ofNat a.toNat :: ·)
    | some 2 =>
      match rest with
      | [] => fail 1 .unexpectedEnd
      | b :: rest =>
        if isContinuation b then
          (decodeFrom (position + 2) rest).map
            (Char.ofNat (a.toNat % 32 * 64 + low6 b) :: ·)
        else fail 1 .invalidContinuation
    | some 3 =>
      match rest with
      | [] => fail 1 .unexpectedEnd
      | b :: rest =>
        if !admitsSecond a b then fail 1 .invalidContinuation
        else match rest with
          | [] => fail 2 .unexpectedEnd
          | c :: rest =>
            if isContinuation c then
              (decodeFrom (position + 3) rest).map
                (Char.ofNat (a.toNat % 16 * 4096 + low6 b * 64 + low6 c) :: ·)
            else fail 2 .invalidContinuation
    | some _ =>
      match rest with
      | [] => fail 1 .unexpectedEnd
      | b :: rest =>
        if !admitsSecond a b then fail 1 .invalidContinuation
        else match rest with
          | [] => fail 2 .unexpectedEnd
          | c :: rest =>
            if !isContinuation c then fail 2 .invalidContinuation
            else match rest with
              | [] => fail 3 .unexpectedEnd
              | d :: rest =>
                if isContinuation d then
                  (decodeFrom (position + 4) rest).map
                    (Char.ofNat (a.toNat % 8 * 262144 + low6 b * 4096 + low6 c * 64 + low6 d) :: ·)
                else fail 3 .invalidContinuation

def decode (bytes : List UInt8) : Except Malformed (List Char) := decodeFrom 0 bytes

def encodeChar (c : Char) : List UInt8 :=
  let n := c.toNat
  if n < 0x80 then [n.toUInt8]
  else if n < 0x800 then [(0xc0 + n / 64).toUInt8, (0x80 + n % 64).toUInt8]
  else if n < 0x10000 then
    [(0xe0 + n / 4096).toUInt8, (0x80 + n / 64 % 64).toUInt8, (0x80 + n % 64).toUInt8]
  else
    [(0xf0 + n / 262144).toUInt8, (0x80 + n / 4096 % 64).toUInt8,
      (0x80 + n / 64 % 64).toUInt8, (0x80 + n % 64).toUInt8]

def encode (text : List Char) : List UInt8 := text.flatMap encodeChar

end UnsafeAudit.Text.Utf8
