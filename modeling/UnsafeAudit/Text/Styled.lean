import UnsafeAudit.Text.Lines
import UnsafeAudit.Text.Width

/-!
# Text on a terminal

Printed text loses the controls that would move the cursor, has its tabs
replaced by blanks up to the next tab stop, and is emphasized piece by piece:
a tab and a line end each close a piece, and an empty piece has no emphasis.
-/

namespace UnsafeAudit.Text

inductive Emphasis
  | plain
  | bold
  | green
  | boldRed
  | boldYellow
  deriving DecidableEq, Repr

def Emphasis.codes : Emphasis → String
  | .plain => ""
  | .bold => "1"
  | .green => "32"
  | .boldRed => "1;31"
  | .boldYellow => "1;33"

def Emphasis.when (emphasis : Emphasis) (colorize : Bool) : Emphasis :=
  if colorize then emphasis else .plain

def Emphasis.wrap (emphasis : Emphasis) (piece : String) : String :=
  if emphasis = .plain || piece.isEmpty then piece
  else s!"\x1b[{emphasis.codes}m{piece}\x1b[0m"

def tabWidth : Nat := 8

/-- The pieces of a line that were between tabs, each filled up to the tab stop after it. -/
def fillTabs (column : Nat) : List (List Char) → List (List Char)
  | [] => []
  | [last] => if last.isEmpty then [] else [last]
  | piece :: rest =>
    let piece := piece ++ [' ']
    let reached := column + cells piece
    let missing := (tabWidth - reached % tabWidth) % tabWidth
    (piece ++ List.replicate missing ' ') :: fillTabs (reached + missing) rest

/-- Bell, backspace, vertical tab, form feed and carriage return are not printed. -/
def isDropped (c : Char) : Bool := c.toNat ∈ [7, 8, 11, 12, 13]

def printLine (emphasis : Emphasis) (line : List Char) : String :=
  String.join ((fillTabs 0 (splitOn '\t' line)).map fun piece =>
    emphasis.wrap (String.ofList piece))

def print (emphasis : Emphasis) (text : String) : String :=
  let lines := splitOn '\n' (text.toList.filter fun c => !isDropped c)
  joinWith "\n" (lines.map (printLine emphasis)) ++ "\n"

end UnsafeAudit.Text
