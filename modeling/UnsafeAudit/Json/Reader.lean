import UnsafeAudit.Json.Basic

/-!
# Reading JSON texts

The reader takes what the standard allows and three more numbers, `NaN`,
`Infinity` and `-Infinity`. Blanks are space, tab, line feed and carriage
return. A control character in a string is refused. An escaped half of a
surrogate pair without the other half reads as U+FFFD.

Each step returns what it leaves of the text. Nesting is bounded by the length
of the text, which is the measure that the steps count down.

Three things that a run time may refuse or keep are outside of this: a document
nested deeper than its stack, an integer with more digits than it converts, and
a lone surrogate, which has no character here.
-/

namespace UnsafeAudit.Json

def isSpace (c : Char) : Bool := c = ' ' || c = '\t' || c = '\n' || c = '\r'

def skipSpace (text : List Char) : List Char := text.dropWhile isSpace

def isDigit (c : Char) : Bool := '0' ≤ c && c ≤ '9'

def digitValue (c : Char) : Nat := c.toNat - 48

def natOfDigits (digits : List Char) : Nat :=
  digits.foldl (fun n c => 10 * n + digitValue c) 0

def hexValue? (c : Char) : Option Nat :=
  if isDigit c then some (digitValue c)
  else if 'a' ≤ c && c ≤ 'f' then some (c.toNat - 87)
  else if 'A' ≤ c && c ≤ 'F' then some (c.toNat - 55)
  else none

def hex4? : List Char → Option (Nat × List Char)
  | a :: b :: c :: d :: rest => do
    let a ← hexValue? a
    let b ← hexValue? b
    let c ← hexValue? c
    let d ← hexValue? d
    some (((a * 16 + b) * 16 + c) * 16 + d, rest)
  | _ => none

def charOfUnit (n : Nat) : Char := if 0xd800 ≤ n && n < 0xe000 then '\ufffd' else Char.ofNat n

def joinUnits (high : Nat) (rest : List Char) : Char × List Char :=
  if 0xd800 ≤ high && high < 0xdc00 then
    match rest with
    | '\\' :: 'u' :: more =>
      match hex4? more with
      | some (low, rest') =>
        if 0xdc00 ≤ low && low < 0xe000 then
          (Char.ofNat (0x10000 + (high - 0xd800) * 0x400 + (low - 0xdc00)), rest')
        else (charOfUnit high, rest)
      | none => (charOfUnit high, rest)
    | _ => (charOfUnit high, rest)
  else (charOfUnit high, rest)

def simpleEscape? (c : Char) : Option Char :=
  match c with
  | '"' => some '"'
  | '\\' => some '\\'
  | '/' => some '/'
  | 'b' => some '\x08'
  | 'f' => some '\x0c'
  | 'n' => some '\n'
  | 'r' => some '\r'
  | 't' => some '\t'
  | _ => none

def stringBody : Nat → List Char → Option (List Char × List Char)
  | 0, _ => none
  | _ + 1, [] => none
  | _ + 1, '"' :: rest => some ([], rest)
  | fuel + 1, '\\' :: 'u' :: rest => do
    let (high, rest) ← hex4? rest
    let (c, rest) := joinUnits high rest
    let (body, rest) ← stringBody fuel rest
    some (c :: body, rest)
  | fuel + 1, '\\' :: e :: rest => do
    let c ← simpleEscape? e
    let (body, rest) ← stringBody fuel rest
    some (c :: body, rest)
  | fuel + 1, c :: rest =>
    if c.toNat < 32 || c = '\\' then none
    else do
      let (body, rest) ← stringBody fuel rest
      some (c :: body, rest)

def fraction : List Char → List Char × List Char
  | '.' :: rest =>
    let digits := rest.takeWhile isDigit
    if digits.isEmpty then ([], '.' :: rest) else (digits, rest.dropWhile isDigit)
  | text => ([], text)

def exponent (text : List Char) : Option Int × List Char :=
  match text with
  | e :: rest =>
    if e = 'e' || e = 'E' then
      let (negative, body) : Bool × List Char :=
        match rest with
        | '-' :: more => (true, more)
        | '+' :: more => (false, more)
        | _ => (false, rest)
      let digits := body.takeWhile isDigit
      if digits.isEmpty then (none, text)
      else
        let n : Int := natOfDigits digits
        (some (if negative then -n else n), body.dropWhile isDigit)
    else (none, text)
  | [] => (none, text)

def magnitude? (negative : Bool) (text : List Char) : Option (Json × List Char) :=
  let whole := text.takeWhile isDigit
  let whole := if whole.head? = some '0' then ['0'] else whole
  if whole.isEmpty then none
  else
    let (part, rest) := fraction (text.drop whole.length)
    let (power, rest) := exponent rest
    match part, power with
    | [], none =>
      let n : Int := natOfDigits whole
      some (.int (if negative then -n else n), rest)
    | _, _ =>
      some (.float (.ofDecimal negative (natOfDigits (whole ++ part))
        (power.getD 0 - part.length)), rest)

def literals : List (List Char × Json) :=
  [("null".toList, .null), ("true".toList, .bool true), ("false".toList, .bool false),
    ("NaN".toList, .float .nan), ("Infinity".toList, .float (.infinite false)),
    ("-Infinity".toList, .float (.infinite true))]

def scalar? (text : List Char) : Option (Json × List Char) :=
  match literals.find? fun (word, _) => word.isPrefixOf text with
  | some (word, value) => some (value, text.drop word.length)
  | none =>
    match text with
    | '-' :: rest => magnitude? true rest
    | _ => magnitude? false text

mutual
def value? : Nat → List Char → Option (Json × List Char)
  | 0, _ => none
  | _ + 1, [] => none
  | fuel + 1, '"' :: rest => do
    let (body, rest) ← stringBody (fuel + 1) rest
    some (.str (String.ofList body), rest)
  | fuel + 1, '[' :: rest =>
    match skipSpace rest with
    | ']' :: rest => some (.arr [], rest)
    | rest => do
      let (items, rest) ← items? fuel rest
      some (.arr items, rest)
  | fuel + 1, '\x7b' :: rest =>
    match skipSpace rest with
    | '\x7d' :: rest => some (.obj [], rest)
    | rest => do
      let (fields, rest) ← fields? fuel rest
      some (.obj (ofFields fields), rest)
  | _ + 1, text => scalar? text
def items? : Nat → List Char → Option (List Json × List Char)
  | 0, _ => none
  | fuel + 1, text => do
    let (item, rest) ← value? fuel text
    match skipSpace rest with
    | ',' :: rest =>
      let (items, rest) ← items? fuel (skipSpace rest)
      some (item :: items, rest)
    | ']' :: rest => some ([item], rest)
    | _ => none
def fields? : Nat → List Char → Option (List (String × Json) × List Char)
  | 0, _ => none
  | fuel + 1, text =>
    match text with
    | '"' :: rest => do
      let (name, rest) ← stringBody (fuel + 1) rest
      match skipSpace rest with
      | ':' :: rest =>
        let (value, rest) ← value? fuel (skipSpace rest)
        let member := (String.ofList name, value)
        match skipSpace rest with
        | ',' :: rest =>
          let (fields, rest) ← fields? fuel (skipSpace rest)
          some (member :: fields, rest)
        | '\x7d' :: rest => some ([member], rest)
        | _ => none
      | _ => none
    | _ => none
end

def read? (text : String) : Option Json :=
  let chars := skipSpace text.toList
  match value? (2 * chars.length + 2) chars with
  | some (value, rest) => if (skipSpace rest).isEmpty then some value else none
  | none => none

end UnsafeAudit.Json
