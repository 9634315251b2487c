import UnsafeAudit.Json.Basic
import UnsafeAudit.Path.Basic
import UnsafeAudit.Text.Lines

/-!
# Decoding with issues

A decoder turns a JSON value into a value of the domain or says everything
that is wrong with it: each issue has the place where it was found and its
kind. Decoding a record goes on after a bad field, so issues come in field
order. Decoders are lenient: a truth value may be spelled as a word or a number,
a number as text.
-/

namespace UnsafeAudit

inductive Step
  | field (name : String)
  | index (position : Nat)
  deriving DecidableEq, Repr

inductive IssueKind
  | missing
  | extraForbidden
  | stringType
  | boolType
  | boolParsing
  | intType
  | intParsing
  | intParsingSize
  | intFromFloat
  | finiteNumber
  | floatType
  | floatParsing
  | greaterThanEqual
  | enumValue
  | listType
  | dictType
  | modelType
  | modelAttributesType
  | pathType
  | datetimeType
  | datetimeParsing
  | unionTagInvalid
  | unionTagNotFound
  | jsonInvalid
  deriving DecidableEq, Repr

def IssueKind.code : IssueKind → String
  | .missing => "missing"
  | .extraForbidden => "extra_forbidden"
  | .stringType => "string_type"
  | .boolType => "bool_type"
  | .boolParsing => "bool_parsing"
  | .intType => "int_type"
  | .intParsing => "int_parsing"
  | .intParsingSize => "int_parsing_size"
  | .intFromFloat => "int_from_float"
  | .finiteNumber => "finite_number"
  | .floatType => "float_type"
  | .floatParsing => "float_parsing"
  | .greaterThanEqual => "greater_than_equal"
  | .enumValue => "enum"
  | .listType => "list_type"
  | .dictType => "dict_type"
  | .modelType => "model_type"
  | .modelAttributesType => "model_attributes_type"
  | .pathType => "path_type"
  | .datetimeType => "datetime_type"
  | .datetimeParsing => "datetime_from_date_parsing"
  | .unionTagInvalid => "union_tag_invalid"
  | .unionTagNotFound => "union_tag_not_found"
  | .jsonInvalid => "json_invalid"

structure Issue where
  place : List Step
  kind : IssueKind
  deriving DecidableEq, Repr

inductive Checked (α : Type u) where
  | ok (value : α)
  | bad (issues : List Issue)

namespace Checked

def map (f : α → β) : Checked α → Checked β
  | .ok a => .ok (f a)
  | .bad issues => .bad issues

/-- Both sides are checked, and the issues of both are kept. -/
def apply (f : Checked (α → β)) (a : Checked α) : Checked β :=
  match f, a with
  | .ok f, .ok a => .ok (f a)
  | .ok _, .bad issues => .bad issues
  | .bad issues, .ok _ => .bad issues
  | .bad first, .bad second => .bad (first ++ second)

instance : Functor Checked := ⟨Checked.map, fun a => Checked.map fun _ => a⟩

instance : Applicative Checked where
  pure := .ok
  seq f a := apply f (a ())

/-- The second check is made only on a value that passed the first. -/
def thenCheck (a : Checked α) (next : α → Checked β) : Checked β :=
  match a with
  | .ok a => next a
  | .bad issues => .bad issues

def issue (kind : IssueKind) : Checked α := .bad [⟨[], kind⟩]

def below (step : Step) : Checked α → Checked α
  | .ok a => .ok a
  | .bad issues => .bad (issues.map fun i => { i with place := step :: i.place })

def toExcept : Checked α → Except (List Issue) α
  | .ok a => .ok a
  | .bad issues => .error issues

end Checked

namespace Decode

abbrev Decoder (α : Type u) := Json → Checked α

def string : Decoder String
  | .str s => .ok s
  | _ => .issue .stringType

def path : Decoder Path
  | .str s => .ok (Path.ofString s)
  | _ => .issue .pathType

def nullable (decode : Decoder α) : Decoder (Option α)
  | .null => .ok none
  | value => (decode value).map some

def trueWords : List String := ["1", "on", "t", "true", "y", "yes"]
def falseWords : List String := ["0", "off", "f", "false", "n", "no"]

def boolOfText (text : String) : Checked Bool :=
  let text := text.toLower
  if text ∈ trueWords then .ok true
  else if text ∈ falseWords then .ok false
  else .issue .boolParsing

def boolOfInt (n : Int) (otherwise : IssueKind) : Checked Bool :=
  if n = 1 then .ok true else if n = 0 then .ok false else .issue otherwise

def bool : Decoder Bool
  | .bool b => .ok b
  | .int n => boolOfInt n .boolParsing
  | .float x =>
    match x.toInt? with
    | some n => boolOfInt n .boolType
    | none => .issue .boolType
  | .str s => boolOfText s
  | _ => .issue .boolType

def digitsValue? : List Char → Option Nat
  | [] => none
  | c :: rest => go (c :: rest) 0 false
where
  go : List Char → Nat → Bool → Option Nat
    | [], n, afterDigit => if afterDigit then some n else none
    | c :: rest, n, afterDigit =>
      if c.isDigit then go rest (10 * n + (c.toNat - 48)) true
      else if c = '_' && afterDigit then go rest n false
      else none

/-- A decimal integer with an optional sign and blanks around it. A fraction of zeros is let
pass. -/
def intOfText? (text : String) : Option Int :=
  let chars := Text.trim text.toList
  let (negative, body) : Bool × List Char :=
    match chars with
    | '-' :: rest => (true, rest)
    | '+' :: rest => (false, rest)
    | _ => (false, chars)
  let whole :=
    match Text.splitOn '.' body with
    | [whole, zeros] => if zeros.all (· = '0') then whole else body
    | _ => body
  (digitsValue? whole).map fun n => if negative then -(n : Int) else n

/-- Integers at or beyond this magnitude are not taken from a float. -/
def floatIntLimit : Nat := 9223372036854775808

def int : Decoder Int
  | .int n => .ok n
  | .bool b => .ok (if b then 1 else 0)
  | .float (.finite s m e) =>
    match (Binary64.finite s m e).toInt? with
    | some n => if n.natAbs < floatIntLimit then .ok n else .issue .intParsingSize
    | none => .issue .intFromFloat
  | .float _ => .issue .finiteNumber
  | .str s =>
    match intOfText? s with
    | some n => .ok n
    | none => .issue .intParsing
  | _ => .issue .intType

def intFrom (least : Int) : Decoder Int := fun value =>
  (int value).thenCheck fun n => if n < least then .issue .greaterThanEqual else .ok n

def natural : Decoder Nat := fun value => (intFrom 0 value).map Int.toNat

def word (ofWord : String → Option α) : Decoder α
  | .str s =>
    match ofWord s with
    | some a => .ok a
    | none => .issue .enumValue
  | _ => .issue .enumValue

def itemsFrom (decode : Decoder α) (position : Nat) : List Json → Checked (List α)
  | [] => .ok []
  | item :: rest =>
    List.cons <$> (decode item).below (.index position) <*> itemsFrom decode (position + 1) rest

def list (decode : Decoder α) : Decoder (List α)
  | .arr items => itemsFrom decode 0 items
  | _ => .issue .listType

abbrev Fields := List (String × Json)

def record (decode : Fields → Checked α) : Decoder α
  | .obj fields => decode fields
  | _ => .issue .modelType

def required (name : String) (decode : Decoder α) (fields : Fields) : Checked α :=
  match fields.lookup name with
  | some value => (decode value).below (.field name)
  | none => .bad [⟨[.field name], .missing⟩]

def defaulted (name : String) (decode : Decoder α) (value : α) (fields : Fields) : Checked α :=
  match fields.lookup name with
  | some given => (decode given).below (.field name)
  | none => .ok value

def only (names : List String) (fields : Fields) : Checked Unit :=
  match fields.filter fun (name, _) => name ∉ names with
  | [] => .ok ()
  | extra => .bad (extra.map fun (name, _) => ⟨[.field name], .extraForbidden⟩)

end Decode

end UnsafeAudit
