import UnsafeAudit.Yaml.Scalar

/-!
# Positions in a YAML text

A cursor is what is left of a text and where that starts. Line ends have been
unified before, so the carriage return is none. A scanning step takes the cursor
on or fails.
-/

namespace UnsafeAudit.Yaml

inductive Trouble
  /-- It breaks a rule of the language, or uses a tag that nothing is known about. -/
  | malformed
  /-- An escape names no character, in either of two ranges. -/
  | noCharacter
  | numberTooLarge
  /-- A scalar does not spell a value of the type that its tag asks for. -/
  | unreadable
  | unknownTruthValue
  | emptyNumber
  | noTimestamp
  deriving DecidableEq, Repr

structure Cursor where
  rest : List Char
  index : Nat
  line : Nat
  column : Nat

namespace Cursor

def ofText (text : List Char) : Cursor := ⟨text, 0, 0, 0⟩

/-- A byte order mark takes no column. -/
def step (c : Cursor) (char : Char) : Cursor :=
  if isBreak char then ⟨c.rest.drop 1, c.index + 1, c.line + 1, 0⟩
  else ⟨c.rest.drop 1, c.index + 1, c.line, if char = '\ufeff' then c.column else c.column + 1⟩

def skip (c : Cursor) (n : Nat) : Cursor := (c.rest.take n).foldl step c

def peek (c : Cursor) (distance : Nat) : Option Char := c.rest[distance]?

end Cursor

/-- The end of a text counts as spacing. -/
def isGap (c : Option Char) : Bool := c.all isSpacing

def isEdge (c : Option Char) : Bool := c.all fun c => c = ' ' || isBreak c

def isEnd (c : Option Char) : Bool := c.all isBreak

abbrev Scan := StateT Cursor (Except Trouble)

namespace Scan

def peek (distance : Nat) : Scan (Option Char) := do return (← get).peek distance

def skip (n : Nat) : Scan Unit := modify (·.skip n)

def takeWhile (p : Char → Bool) : Scan (List Char) := do
  let chars := (← get).rest.takeWhile p
  skip chars.length
  return chars

def skipBlanks : Scan Unit := do
  let _ ← takeWhile (· = ' ')

def demand (p : Option Char → Bool) : Scan Unit := do
  if !p (← peek 0) then throw .malformed

/-- Takes a line end if there is one. Two of the four kinds are kept as they are. -/
def lineBreak : Scan (List Char) := do
  match ← peek 0 with
  | none => return []
  | some c =>
    if !isBreak c then return []
    skip 1
    return if c = '\u2028' || c = '\u2029' then [c] else ['\n']

def skipComment : Scan Unit := do
  if (← peek 0) = some '#' then
    let _ ← takeWhile (!isBreak ·)

def finishLine : Scan Unit := do
  skipBlanks
  skipComment
  demand isEnd
  let _ ← lineBreak

def atMarker (marker : String) : Scan Bool := do
  let c ← get
  return marker.toList.isPrefixOf c.rest && isGap (c.peek 3)

def atSeparator : Scan Bool := do
  let start ← atMarker "---"
  let finish ← atMarker "..."
  return start || finish

end Scan

end UnsafeAudit.Yaml
