/-!
# Binary floating point

A finite number is a sign, a mantissa below 2^53 and an exponent of two that is
at least -1074; the mantissa is at least 2^52 unless the exponent is least.
`ofRatio` rounds a fraction to the nearest such number, ties to the even
mantissa. `digits` gives back the fewest decimal digits that read as the same
number, and of those the nearest.
-/

namespace UnsafeAudit

inductive Binary64
  | finite (negative : Bool) (mantissa : Nat) (exponent : Int)
  | infinite (negative : Bool)
  | nan
  deriving DecidableEq, Repr

namespace Binary64

def leastMantissa : Nat := 4503599627370496

def zero : Binary64 := .finite false 0 (-1074)

/-- `num * 2^(-e) / den` as a fraction of naturals. -/
def scaled (num den : Nat) (e : Int) : Nat × Nat :=
  if e < 0 then (num * Nat.pow 2 e.natAbs, den) else (num, den * Nat.pow 2 e.natAbs)

/-- The nearest natural to a fraction; halfway goes to the even one. -/
def roundRatio (num den : Nat) : Nat :=
  let q := num / den
  let twice := 2 * (num % den)
  if twice < den then q
  else if den < twice then q + 1
  else if q % 2 = 0 then q else q + 1

/-- The exponent at which a positive fraction has a 53-bit mantissa, or the least exponent. -/
def exponentFor (num den : Nat) : Int :=
  let guess : Int := (Nat.log2 num : Int) - Nat.log2 den - 52
  let (n, d) := scaled num den guess
  let e := if n / d ≥ 2 * leastMantissa then guess + 1
    else if n / d < leastMantissa then guess - 1 else guess
  max e (-1074)

/-- The number nearest to `num / den`, infinite when that is out of range. -/
def ofRatio (negative : Bool) (num den : Nat) : Binary64 :=
  if num = 0 then .finite negative 0 (-1074)
  else
    let e := exponentFor num den
    let (n, d) := scaled num den e
    let m := roundRatio n d
    let (m, e) := if m = 2 * leastMantissa then (leastMantissa, e + 1) else (m, e)
    if e > 971 then .infinite negative else .finite negative m e

/-- The number nearest to `coefficient * 10^exponent`. Beyond four hundred places either way
the answer is settled by the size alone. -/
def ofDecimal (negative : Bool) (coefficient : Nat) (exponent : Int) : Binary64 :=
  let places : Int := (Nat.log2 coefficient : Int) * 3 / 10
  if coefficient = 0 then .finite negative 0 (-1074)
  else if places + exponent > 400 then .infinite negative
  else if places + exponent < -400 then .finite negative 0 (-1074)
  else if exponent < 0 then ofRatio negative coefficient (Nat.pow 10 exponent.natAbs)
  else ofRatio negative (coefficient * Nat.pow 10 exponent.natAbs) 1

def ofInt (n : Int) : Binary64 := ofRatio (n < 0) n.natAbs 1

def neg : Binary64 → Binary64
  | .finite negative m e => .finite (!negative) m e
  | .infinite negative => .infinite (!negative)
  | .nan => .nan

def isNegative : Binary64 → Bool
  | .finite negative _ _ => negative
  | .infinite negative => negative
  | .nan => false

def magnitude : Binary64 → Nat × Nat
  | .finite _ m e => if e < 0 then (m, Nat.pow 2 e.natAbs) else (m * Nat.pow 2 e.natAbs, 1)
  | _ => (0, 1)

def isZero : Binary64 → Bool
  | .finite _ 0 _ => true
  | _ => false

def toInt? (x : Binary64) : Option Int :=
  match x with
  | .finite negative _ _ =>
    let (num, den) := x.magnitude
    if num % den = 0 then some (if negative then -(num / den : Nat) else (num / den : Nat)) else none
  | _ => none

/-- The least `k` with `num / den < 10^k`, looked for upwards from `k`. -/
def decimalPointFrom (num den : Nat) : Nat → Int → Int
  | 0, k => k
  | fuel + 1, k =>
    let below := if k < 0 then num * Nat.pow 10 k.natAbs < den else num < den * Nat.pow 10 k.natAbs
    if below then k else decimalPointFrom num den fuel (k + 1)

def decimalPoint (num den : Nat) : Int :=
  let guess : Int := ((Nat.log2 num : Int) - Nat.log2 den) * 301 / 1000 - 2
  decimalPointFrom num den 12 guess

/-- The two neighbours of a fraction on the grid of multiples of `10^place`, nearest first. -/
def gridNeighbours (num den : Nat) (place : Int) : List Nat :=
  let (n, d) :=
    if place < 0 then (num * Nat.pow 10 place.natAbs, den)
    else (num, den * Nat.pow 10 place.natAbs)
  let q := n / d
  if n % d = 0 then [q]
  else if 2 * (n % d) < d || (2 * (n % d) = d && q % 2 = 0) then [q, q + 1] else [q + 1, q]

def dropZeros : Nat → Nat → Int → Nat × Int
  | 0, c, e => (c, e)
  | fuel + 1, c, e => if c ≠ 0 && c % 10 = 0 then dropZeros fuel (c / 10) (e + 1) else (c, e)

/-- A coefficient and a power of ten that read back as the number `x`, with the fewest digits
possible, and of those the nearest. All digits of `x` are the last resort. -/
def digits (x : Binary64) : Nat × Int :=
  let (num, den) := x.magnitude
  if num = 0 then (0, 0)
  else
    let point := decimalPoint num den
    let hit? := (List.range 17).findSome? fun n =>
      let place : Int := point - (n + 1 : Nat)
      ((gridNeighbours num den place).find? fun c =>
        ofDecimal x.isNegative c place = x).map fun c => (c, place)
    match hit? with
    | some (c, place) => dropZeros 20 c place
    | none =>
      match x with
      | .finite _ m e => if e < 0 then (m * Nat.pow 5 e.natAbs, e) else (m * Nat.pow 2 e.natAbs, 0)
      | _ => (0, 0)

end Binary64

end UnsafeAudit
