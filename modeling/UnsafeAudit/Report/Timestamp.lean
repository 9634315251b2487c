import UnsafeAudit.Json.Decode
import UnsafeAudit.Json.Reader
import UnsafeAudit.Decimal.Shortest

/-!
# Timestamps

A timestamp is a date and a time of day to the microsecond, with or without an
offset from universal time. Two spellings differ in one point: reports as data
write `Z` for the offset zero, reports as documents write `+00:00`.
-/

namespace UnsafeAudit

structure Timestamp where
  year : Nat
  month : Nat
  day : Nat
  hour : Nat
  minute : Nat
  second : Nat
  micro : Nat
  /-- Minutes ahead of universal time. -/
  offset : Option Int
  deriving DecidableEq, Repr

namespace Timestamp

def isLeap (year : Nat) : Bool := year % 4 = 0 && (year % 100 ≠ 0 || year % 400 = 0)

def daysIn (year month : Nat) : Nat :=
  if month = 2 then (if isLeap year then 29 else 28)
  else if month ∈ [4, 6, 9, 11] then 30 else 31

def isValid (t : Timestamp) : Bool :=
  1 ≤ t.year && t.year ≤ 9999 && 1 ≤ t.month && t.month ≤ 12 && 1 ≤ t.day &&
    t.day ≤ daysIn t.year t.month && t.hour < 24 && t.minute < 60 && t.second < 60 &&
    t.micro < 1000000 && (match t.offset with | none => true | some m => m.natAbs < 24 * 60)

def padded (width n : Nat) : String :=
  let digits := Decimal.natText n
  Decimal.zeros (width - digits.length) ++ digits

def offsetText (minutes : Int) : String :=
  let m := minutes.natAbs
  (if minutes < 0 then "-" else "+") ++ padded 2 (m / 60) ++ ":" ++ padded 2 (m % 60)

def momentText (t : Timestamp) : String :=
  padded 4 t.year ++ "-" ++ padded 2 t.month ++ "-" ++ padded 2 t.day ++ "T" ++
    padded 2 t.hour ++ ":" ++ padded 2 t.minute ++ ":" ++ padded 2 t.second ++
    (if t.micro = 0 then "" else "." ++ padded 6 t.micro)

def isoText (t : Timestamp) : String :=
  t.momentText ++ (t.offset.map offsetText).getD ""

def dataText (t : Timestamp) : String :=
  t.momentText ++ (t.offset.map fun m => if m = 0 then "Z" else offsetText m).getD ""

def digits? (width : Nat) (text : List Char) : Option (Nat × List Char) :=
  let ds := text.take width
  if ds.length = width && ds.all Json.isDigit then
    some (Json.natOfDigits ds, text.drop width)
  else none

def expect? (choices : List Char) : List Char → Option (List Char)
  | c :: rest => if c ∈ choices then some rest else none
  | [] => none

/-- Digits of a second beyond the point, cut after the sixth. -/
def micros (digits : List Char) : Nat :=
  Json.natOfDigits ((digits ++ List.replicate 6 '0').take 6)

def offset? (text : List Char) : Option (Option Int) :=
  match text with
  | [] => some none
  | ['Z'] | ['z'] => some (some 0)
  | sign :: rest =>
    if sign = '+' || sign = '-' then do
      let (h, rest) ← digits? 2 rest
      let rest := (expect? [':'] rest).getD rest
      let (m, rest) ← digits? 2 rest
      let total : Int := h * 60 + m
      if rest.isEmpty && m < 60 then some (some (if sign = '-' then -total else total)) else none
    else none

def ofText? (text : String) : Option Timestamp := do
  let chars := text.toList
  let (year, rest) ← digits? 4 chars
  let rest ← expect? ['-'] rest
  let (month, rest) ← digits? 2 rest
  let rest ← expect? ['-'] rest
  let (day, rest) ← digits? 2 rest
  let t : Timestamp := ⟨year, month, day, 0, 0, 0, 0, none⟩
  if rest.isEmpty then (if t.isValid then some t else none)
  else
    let rest ← expect? ['T', 't', ' ', '_'] rest
    let (hour, rest) ← digits? 2 rest
    let rest ← expect? [':'] rest
    let (minute, rest) ← digits? 2 rest
    let (second, rest) :=
      match (expect? [':'] rest).bind (digits? 2) with
      | some found => found
      | none => (0, rest)
    let (fraction, rest) :=
      match expect? ['.', ','] rest with
      | some more => (more.takeWhile Json.isDigit, more.dropWhile Json.isDigit)
      | none => ([], rest)
    let offset ← offset? rest
    let t : Timestamp := { t with hour, minute, second, micro := micros fraction, offset }
    if t.isValid then some t else none

/-- The date that is `days` days after the first of January 1970. -/
def dateOfDays (days : Int) : Nat × Nat × Nat :=
  let z := days + 719468
  let era := Int.fdiv z 146097
  let doe := (z - era * 146097).toNat
  let yoe := (doe - doe / 1460 + doe / 36524 - doe / 146096) / 365
  let doy := doe - (365 * yoe + yoe / 4 - yoe / 100)
  let mp := (5 * doy + 2) / 153
  let day := doy - (153 * mp + 2) / 5 + 1
  let month := if mp < 10 then mp + 3 else mp - 9
  let year := (yoe : Int) + era * 400 + (if month ≤ 2 then 1 else 0)
  (year.toNat, month, day)

/-- Seconds since 1970, or milliseconds when the number is too large for seconds. -/
def ofUnix? (n : Int) : Option Timestamp :=
  let (seconds, micro) : Int × Nat :=
    if n.natAbs > 20000000000 then (Int.fdiv n 1000, ((n % 1000) * 1000).toNat) else (n, 0)
  let days := Int.fdiv seconds 86400
  let rest := (seconds - days * 86400).toNat
  let (year, month, day) := dateOfDays days
  let t : Timestamp :=
    ⟨year, month, day, rest / 3600, rest / 60 % 60, rest % 60, micro, some 0⟩
  if t.isValid then some t else none

def ofJson : Decode.Decoder Timestamp
  | .str text =>
    match ofText? text with
    | some t => .ok t
    | none => .issue .datetimeParsing
  | .int n =>
    match ofUnix? n with
    | some t => .ok t
    | none => .issue .datetimeParsing
  | _ => .issue .datetimeType

end Timestamp

end UnsafeAudit
