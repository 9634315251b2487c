import UnsafeAudit.Report.Timestamp
import UnsafeAudit.Yaml.Cursor

/-!
# Values of scalars

What the text of a scalar says under a tag. A scalar with a tag of its own may
spell more than a plain one: digits in any number, blanks around them, a word for
infinity.
-/

namespace UnsafeAudit.Yaml

-- ---- numbers

def maxDigits : Nat := 4300

def basePrefix? : Nat → Option Char
  | 2 => some 'b'
  | 8 => some 'o'
  | 16 => some 'x'
  | _ => none

def dropBase (base : Nat) : List Char → List Char
  | '0' :: c :: rest => if some c.toLower = basePrefix? base then rest else '0' :: c :: rest
  | text => text

def digitsValue? (base : Nat) (digits : List Char) : Option Nat :=
  if digits.isEmpty || (base = 10 && maxDigits < digits.length) then none
  else digits.foldlM (fun n c => do
    let v ← Json.hexValue? c
    if v < base then some (n * base + v) else none) 0

def splitSign : List Char → Bool × List Char
  | '-' :: rest => (true, rest)
  | '+' :: rest => (false, rest)
  | text => (false, text)

def signed (negative : Bool) (n : Int) : Int := if negative then -n else n

def integer? (base : Nat) (text : List Char) : Except Trouble Int :=
  let (negative, body) := splitSign (Text.trim text)
  match digitsValue? base (dropBase base body) with
  | some n => .ok (signed negative n)
  | none => .error .unreadable

def sixties (places : List Int) : Int := places.foldl (fun n place => n * 60 + place) 0

def intOfText (text : String) : Except Trouble Int := do
  let text := text.toList.filter (· ≠ '_')
  if text.isEmpty then throw .emptyNumber
  let (negative, body) := splitSign text
  let magnitude ←
    match body with
    | [] => throw .emptyNumber
    | ['0'] => pure 0
    | '0' :: 'b' :: rest => integer? 2 rest
    | '0' :: 'x' :: rest => integer? 16 rest
    | '0' :: _ => integer? 8 body
    | _ =>
      if ':' ∈ body then sixties <$> (Text.splitOn ':' body).mapM (integer? 10)
      else integer? 10 body
  return signed negative magnitude

/-- A decimal fraction: its digits as a number, and how many stand behind the point. -/
def fraction? (text : List Char) : Option (Nat × Nat) :=
  let whole := text.takeWhile PlainType.isDigit
  let part :=
    match text.dropWhile PlainType.isDigit with
    | [] => some []
    | '.' :: part => if part.all PlainType.isDigit then some part else none
    | _ => none
  part.bind fun part =>
    if whole.isEmpty && part.isEmpty then none
    else some (Json.natOfDigits (whole ++ part), part.length)

def decimal? (text : List Char) : Except Trouble Binary64 :=
  let (negative, body) := splitSign (Text.trim text)
  let word := String.ofList body
  if word = "inf" || word = "infinity" then .ok (.infinite negative)
  else if word = "nan" then .ok .nan
  else
    let exponent :=
      match body.dropWhile (· ≠ 'e') with
      | [] => some 0
      | _ :: power =>
        let (below, digits) := splitSign power
        (digitsValue? 10 digits).map (signed below ·)
    match fraction? (body.takeWhile (· ≠ 'e')), exponent with
    | some (digits, places), some power => .ok (.ofDecimal negative digits (power - places))
    | _, _ => .error .unreadable

def sixtiesFraction? (negative : Bool) (places : List (List Char)) : Except Trouble Binary64 :=
  match places.mapM fraction? with
  | none => .error .unreadable
  | some places =>
    let scale : Nat := places.foldl (fun n (_, behind) => max n behind) 0
    let total : Nat := places.foldl (fun n (digits, behind) =>
      n * 60 + digits * Nat.pow 10 (scale - behind)) 0
    .ok (.ofDecimal negative total (-(scale : Int)))

def floatOfText (text : String) : Except Trouble Binary64 :=
  let text := (text.toList.filter (· ≠ '_')).map Char.toLower
  if text.isEmpty then .error .emptyNumber
  else
    let (negative, body) := splitSign text
    let word := String.ofList body
    if word = ".inf" then .ok (.infinite negative)
    else if word = ".nan" then .ok .nan
    else if ':' ∈ body then sixtiesFraction? negative (Text.splitOn ':' body)
    else (decimal? body).map fun x => if negative then x.neg else x

-- ---- truth values

def boolOfText (text : String) : Except Trouble Bool :=
  let word := text.toLower
  if word ∈ PlainType.trueWords then .ok true
  else if word ∈ PlainType.falseWords then .ok false
  else .error .unknownTruthValue

-- ---- dates

def digitsBetween? (least most : Nat) (text : List Char) : Option (Nat × List Char) :=
  (PlainType.dropDigits least most text).map fun rest =>
    (Json.natOfDigits (text.take (text.length - rest.length)), rest)

def zone? (text : List Char) : Option (Option Int) :=
  match text with
  | [] => some none
  | ['Z'] => some (some 0)
  | sign :: rest => do
    if sign ≠ '+' && sign ≠ '-' then none
    let (hours, rest) ← digitsBetween? 1 2 rest
    let (minutes, rest) ←
      match rest with
      | ':' :: rest => digitsBetween? 2 2 rest
      | _ => some (0, rest)
    if rest.isEmpty then some (some (signed (sign = '-') (hours * 60 + minutes))) else none

/-- A date, or a date and a time of day, which need not be one of the calendar. -/
def timestamp? (text : List Char) : Option Timestamp := do
  let (year, rest) ← digitsBetween? 4 4 text
  let rest ← PlainType.dropMark (· = '-') rest
  let (month, rest) ← digitsBetween? 1 2 rest
  let rest ← PlainType.dropMark (· = '-') rest
  let (day, rest) ← digitsBetween? 1 2 rest
  let date : Timestamp := ⟨year, month, day, 0, 0, 0, 0, none⟩
  match rest with
  | [] => some date
  | c :: rest =>
    let isTime := c = 'T' || c = 't' || PlainType.isGap c
    let rest := if PlainType.isGap c then rest.dropWhile PlainType.isGap else rest
    if !isTime || !PlainType.isTime rest then none
    let (hour, rest) ← digitsBetween? 1 2 rest
    let (minute, rest) ← digitsBetween? 2 2 (rest.drop 1)
    let (second, rest) ← digitsBetween? 2 2 (rest.drop 1)
    let rest :=
      match rest with
      | '.' :: rest => rest.dropWhile PlainType.isDigit
      | _ => rest
    let offset ← zone? (rest.dropWhile PlainType.isGap)
    some { date with hour, minute, second, offset }

def checkTimestamp (text : String) : Except Trouble Unit :=
  match timestamp? text.toList with
  | none => .error .noTimestamp
  | some t => if t.isValid then .ok () else .error .unreadable

-- ---- bytes

def base64Value? (c : Char) : Option Nat :=
  if 'A' ≤ c && c ≤ 'Z' then some (c.toNat - 65)
  else if 'a' ≤ c && c ≤ 'z' then some (c.toNat - 71)
  else if '0' ≤ c && c ≤ '9' then some (c.toNat + 4)
  else if c = '+' then some 62
  else if c = '/' then some 63
  else none

/-- The bytes that groups of four characters spell. `group` holds the values of the group so far,
and the last group is filled with padding. Other characters are passed over. -/
def base64 (group : List Nat) (padding : Nat) : List Char → Option (List UInt8)
  | [] => if group.isEmpty then some [] else none
  | c :: rest =>
    if c = '=' then
      if 2 ≤ group.length && 4 ≤ group.length + padding + 1 then
        match group with
        | [a, b] => some [(a * 4 + b / 16).toUInt8]
        | [a, b, d] => some [(a * 4 + b / 16).toUInt8, (b % 16 * 16 + d / 4).toUInt8]
        | _ => none
      else base64 group (if 2 ≤ group.length then padding + 1 else padding) rest
    else match base64Value? c with
      | none => base64 group padding rest
      | some v =>
        match group with
        | [a, b, d] =>
          (base64 [] 0 rest).map fun bytes =>
            (a * 4 + b / 16).toUInt8 :: (b % 16 * 16 + d / 4).toUInt8 ::
              (d % 4 * 64 + v).toUInt8 :: bytes
        | _ => base64 (group ++ [v]) 0 rest

def bytesOfText (text : String) : Except Trouble (List UInt8) :=
  if text.toList.any (127 < ·.toNat) then .error .malformed
  else match base64 [] 0 text.toList with
    | some bytes => .ok bytes
    | none => .error .malformed

end UnsafeAudit.Yaml
