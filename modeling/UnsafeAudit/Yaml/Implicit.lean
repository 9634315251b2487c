/-!
# Types of plain scalars

A scalar without quotes or a tag has the type that its text spells in YAML 1.1:
besides null, truth values and numbers (also binary, octal, hexadecimal and
sexagesimal ones) these are dates, the merge mark and the default mark. Every
other text is a string. Numbers may hold underscores.
-/

namespace UnsafeAudit.Yaml

inductive PlainType
  | null
  | bool
  | int
  | float
  | timestamp
  | merge
  | default
  | string
  deriving DecidableEq, Repr

namespace PlainType

def trueWords : List String := ["yes", "Yes", "YES", "true", "True", "TRUE", "on", "On", "ON"]

def falseWords : List String := ["no", "No", "NO", "false", "False", "FALSE", "off", "Off", "OFF"]

def nullWords : List String := ["", "~", "null", "Null", "NULL"]

def isDigit (c : Char) : Bool := '0' ≤ c && c ≤ '9'

def isDigitOrMark (c : Char) : Bool := isDigit c || c = '_'

def isHexDigit (c : Char) : Bool :=
  isDigit c || ('a' ≤ c && c ≤ 'f') || ('A' ≤ c && c ≤ 'F')

def dropSign : List Char → List Char
  | '+' :: rest => rest
  | '-' :: rest => rest
  | text => text

def isRun (p : Char → Bool) (text : List Char) : Bool := !text.isEmpty && text.all p

def isNumeral : List Char → Bool
  | c :: rest => isDigit c && rest.all isDigitOrMark
  | [] => false

/-- Whether a text is one or more groups of a colon and a number below sixty, and what stands
behind them. -/
def dropSixties : List Char → Option (List Char)
  | ':' :: a :: b :: rest =>
    if isDigit a && isDigit b then
      if a < '6' then some ((dropSixties rest).getD rest) else none
    else if isDigit a then some ((dropSixties (b :: rest)).getD (b :: rest))
    else none
  | [':', a] => if isDigit a then some [] else none
  | _ => none

def isInt (text : List Char) : Bool :=
  match dropSign text with
  | ['0'] => true
  | '0' :: 'b' :: rest => isRun (fun c => c ∈ ['0', '1', '_']) rest
  | '0' :: 'x' :: rest => isRun (fun c => isHexDigit c || c = '_') rest
  | '0' :: rest => isRun (fun c => ('0' ≤ c && c ≤ '7') || c = '_') rest
  | text =>
    match text.dropWhile isDigitOrMark with
    | [] => isNumeral text
    | rest => isNumeral (text.takeWhile isDigitOrMark) && dropSixties rest = some []

def isExponent : List Char → Bool
  | [] => true
  | e :: sign :: digits =>
    (e = 'e' || e = 'E') && (sign = '+' || sign = '-') && isRun isDigit digits
  | _ => false

def isFloat (text : List Char) : Bool :=
  let body := dropSign text
  match body with
  | '.' :: rest =>
    ["inf", "Inf", "INF"].contains (String.ofList rest) ||
      (body.length = text.length && (["nan", "NaN", "NAN"].contains (String.ofList rest) ||
        (isNumeral (rest.takeWhile isDigitOrMark) && isExponent (rest.dropWhile isDigitOrMark))))
  | _ =>
    isNumeral (body.takeWhile isDigitOrMark) &&
      match body.dropWhile isDigitOrMark with
      | '.' :: rest => isExponent (rest.dropWhile isDigitOrMark)
      | rest =>
        match dropSixties rest with
        | some ('.' :: rest) => rest.all isDigitOrMark
        | _ => false

/-- What is left of a text after between `least` and `most` digits, as many as there are. -/
def dropDigits (least most : Nat) (text : List Char) : Option (List Char) :=
  let digits := (text.take most).takeWhile isDigit
  if digits.length < least then none else some (text.drop digits.length)

def dropMark (p : Char → Bool) : List Char → Option (List Char)
  | c :: rest => if p c then some rest else none
  | [] => none

def isGap (c : Char) : Bool := c = ' ' || c = '\t'

def isZone (text : List Char) : Bool :=
  match text with
  | [] => true
  | ['Z'] => true
  | sign :: rest =>
    (sign = '+' || sign = '-') &&
      match dropDigits 1 2 rest with
      | some [] => true
      | some (':' :: rest) => dropDigits 2 2 rest = some []
      | _ => false

def isTime (text : List Char) : Bool :=
  let zone := do
    let rest ← dropDigits 1 2 text
    let rest ← dropMark (· = ':') rest
    let rest ← dropDigits 2 2 rest
    let rest ← dropMark (· = ':') rest
    let rest ← dropDigits 2 2 rest
    let rest := match rest with
      | '.' :: rest => rest.dropWhile isDigit
      | rest => rest
    return rest
  match zone with
  | some [] => true
  | some rest => !(rest.dropWhile isGap).isEmpty && isZone (rest.dropWhile isGap)
  | none => false

/-- A date, or a date and a time. A date alone has two digits for month and day. -/
def isTimestamp (text : List Char) : Bool :=
  let date (least : Nat) : Option (List Char) := do
    let rest ← dropDigits 4 4 text
    let rest ← dropMark (· = '-') rest
    let rest ← dropDigits least 2 rest
    let rest ← dropMark (· = '-') rest
    dropDigits least 2 rest
  date 2 = some [] ||
    match date 1 with
    | some (c :: rest) =>
      ((c = 'T' || c = 't') && isTime rest) || (isGap c && isTime (rest.dropWhile isGap))
    | _ => false

def ofText (text : List Char) : PlainType :=
  let word := String.ofList text
  if word ∈ nullWords then .null
  else if word ∈ trueWords || word ∈ falseWords then .bool
  else if isFloat text then .float
  else if isInt text then .int
  else if word = "<<" then .merge
  else if isTimestamp text then .timestamp
  else if word = "=" then .default
  else .string

end PlainType

end UnsafeAudit.Yaml
