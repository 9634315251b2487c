import UnsafeAudit.Json.Basic
import UnsafeAudit.Decimal.Shortest
import UnsafeAudit.Text.Quoted

/-!
# JSON texts

A layout keeps everything on one line or gives each member a line of its own.
It also says which characters of a string stand for themselves. The compact one
escapes control characters only. The other texts are ASCII: every other character,
the delete character included, is written as one or two escapes of four
hexadecimal digits.
-/

namespace UnsafeAudit.Json

open Text.Quoted (hex)

/-- An escape of four digits, or two of them for a character beyond U+FFFF. -/
def escapeUnits (n : Nat) : List Char :=
  if n < 0x10000 then '\\' :: 'u' :: hex 4 n
  else
    let m := n - 0x10000
    ('\\' :: 'u' :: hex 4 (0xd800 + m / 0x400)) ++ ('\\' :: 'u' :: hex 4 (0xdc00 + m % 0x400))

def escapeChar (asIs : Char → Bool) (c : Char) : List Char :=
  if c = '"' then ['\\', '"']
  else if c = '\\' then ['\\', '\\']
  else if c = '\n' then ['\\', 'n']
  else if c = '\r' then ['\\', 'r']
  else if c = '\t' then ['\\', 't']
  else if c = '\x0c' then ['\\', 'f']
  else if c = '\x08' then ['\\', 'b']
  else if asIs c then [c]
  else escapeUnits c.toNat

def stringText (asIs : Char → Bool) (text : String) : String :=
  String.ofList ('"' :: text.toList.flatMap (escapeChar asIs) ++ ['"'])

def isNoControl (c : Char) : Bool := 32 ≤ c.toNat

def isAscii (c : Char) : Bool := 32 ≤ c.toNat && c.toNat < 127

/-- What stands between the members of a value, and which characters of a string stand for
themselves if they have no short escape. -/
structure Layout where
  /-- After an opening bracket, at the depth of the members. -/
  openWith : Nat → String
  between : Nat → String
  closeWith : Nat → String
  colon : String
  asIs : Char → Bool

def Layout.compact : Layout := ⟨fun _ => "", fun _ => ",", fun _ => "", ":", isNoControl⟩

def Layout.line : Layout := ⟨fun _ => "", fun _ => ", ", fun _ => "", ": ", isAscii⟩

def newline (width depth : Nat) : String :=
  String.ofList ('\n' :: List.replicate (width * depth) ' ')

def Layout.indented (width : Nat) : Layout :=
  ⟨fun depth => newline width depth, fun depth => "," ++ newline width depth,
    fun depth => newline width (depth - 1), ": ", isAscii⟩

mutual
def render (layout : Layout) (depth : Nat) : Json → String
  | .null => "null"
  | .bool true => "true"
  | .bool false => "false"
  | .int n => Decimal.intText n
  | .float x => Decimal.text .json x
  | .str s => stringText layout.asIs s
  | .arr [] => "[]"
  | .arr (item :: items) =>
    "[" ++ layout.openWith (depth + 1) ++ render layout (depth + 1) item ++
      renderItems layout (depth + 1) items ++ layout.closeWith (depth + 1) ++ "]"
  | .obj [] => "\x7b\x7d"
  | .obj ((name, value) :: fields) =>
    "\x7b" ++ layout.openWith (depth + 1) ++ stringText layout.asIs name ++ layout.colon ++
      render layout (depth + 1) value ++ renderFields layout (depth + 1) fields ++
      layout.closeWith (depth + 1) ++ "\x7d"
def renderItems (layout : Layout) (depth : Nat) : List Json → String
  | [] => ""
  | item :: items =>
    layout.between depth ++ render layout depth item ++ renderItems layout depth items
def renderFields (layout : Layout) (depth : Nat) : List (String × Json) → String
  | [] => ""
  | (name, value) :: fields =>
    layout.between depth ++ stringText layout.asIs name ++ layout.colon ++
      render layout depth value ++ renderFields layout depth fields
end

def write (layout : Layout) (value : Json) : String := render layout 0 value

end UnsafeAudit.Json
