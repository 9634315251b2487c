import UnsafeAudit.Decimal.Binary64

/-!
# Decimal texts of numbers

The text of a floating point number has the fewest digits that read back. It is
positional while the decimal point stands between 3 zeros after it and 16
digits before it, and has a signed exponent of at least two digits otherwise.
-/

namespace UnsafeAudit.Decimal

def natText (n : Nat) : String := String.ofList (Nat.toDigits 10 n)

def intText (n : Int) : String :=
  if n < 0 then "-" ++ natText n.natAbs else natText n.natAbs

structure Style where
  /-- Positional notation is used while the point stands after more digits than this. -/
  leastPoint : Int
  /-- Positional notation is used while the point stands after at most this many digits. -/
  greatestPoint : Int
  pointWithExponent : Bool
  infinity : String
  minusInfinity : String
  nan : String

def Style.plain : Style := ⟨-4, 16, false, "inf", "-inf", "nan"⟩

def Style.json : Style := { Style.plain with
  infinity := "Infinity", minusInfinity := "-Infinity", nan := "NaN" }

def Style.yaml : Style := { Style.plain with
  pointWithExponent := true, infinity := ".inf", minusInfinity := "-.inf", nan := ".nan" }

def zeros (n : Nat) : String := String.ofList (List.replicate n '0')

def exponentText (e : Int) : String :=
  let n := natText e.natAbs
  (if e < 0 then "e-" else "e+") ++ (if n.length < 2 then "0" ++ n else n)

def spell (style : Style) (coefficient : Nat) (exponent : Int) : String :=
  let ds := natText coefficient
  let point : Int := ds.length + exponent
  let point := if coefficient = 0 then 1 else point
  if style.leastPoint < point && point ≤ style.greatestPoint then
    if point ≤ 0 then "0." ++ zeros point.natAbs ++ ds
    else if ds.length ≤ point.natAbs then ds ++ zeros (point.natAbs - ds.length) ++ ".0"
    else
      String.ofList (ds.toList.take point.natAbs) ++ "." ++
        String.ofList (ds.toList.drop point.natAbs)
  else
    let head := String.ofList (ds.toList.take 1)
    let tail := String.ofList (ds.toList.drop 1)
    let mantissa :=
      if tail.isEmpty then (if style.pointWithExponent then head ++ ".0" else head)
      else head ++ "." ++ tail
    mantissa ++ exponentText (point - 1)

def text (style : Style) : Binary64 → String
  | .nan => style.nan
  | .infinite false => style.infinity
  | .infinite true => style.minusInfinity
  | x@(.finite negative _ _) =>
    let (c, e) := x.digits
    (if negative then "-" else "") ++ spell style c e

/-- The text with exactly `places` digits after the point; halfway goes to the even digit. -/
def fixed (places : Nat) : Binary64 → String
  | .nan => "nan"
  | .infinite false => "inf"
  | .infinite true => "-inf"
  | x@(.finite negative _ _) =>
    let (num, den) := x.magnitude
    let n := Binary64.roundRatio (num * Nat.pow 10 places) den
    let ds := natText n
    let ds := zeros (places + 1 - ds.length) ++ ds
    let whole := String.ofList (ds.toList.take (ds.length - places))
    let part := String.ofList (ds.toList.drop (ds.length - places))
    (if negative then "-" else "") ++ whole ++ (if places = 0 then "" else "." ++ part)

end UnsafeAudit.Decimal
