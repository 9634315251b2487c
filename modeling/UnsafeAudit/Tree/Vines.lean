import UnsafeAudit.Tree.Line
import UnsafeAudit.Decimal.Shortest

/-!
# Vines

The vines of a line say for each level above it whether more siblings follow
there. Every level takes four characters; the last level of a package line
branches off to the package.
-/

namespace UnsafeAudit

structure Glyphs where
  down : Char
  tee : Char
  ell : Char
  right : Char
  deriving DecidableEq, Repr

def Charset.glyphs : Charset → Glyphs
  | .utf8 => ⟨'│', '├', '└', '─'⟩
  | .ascii => ⟨'|', '|', '\x60', '-'⟩

structure TreeOptions where
  /-- Show the dependencies of a package below each of its occurrences. -/
  all : Bool
  direction : Direction
  linePrefix : LinePrefix
  charset : Charset
  deriving DecidableEq, Repr

def TreeOptions.default : TreeOptions := ⟨false, .outgoing, .indent, .utf8⟩

namespace Vines

def passing (glyphs : Glyphs) (continues : Bool) : List Char :=
  [if continues then glyphs.down else ' ', ' ', ' ', ' ']

def branching (glyphs : Glyphs) (continues : Bool) : List Char :=
  [if continues then glyphs.tee else glyphs.ell, glyphs.right, glyphs.right, ' ']

def columns (glyphs : Glyphs) : List Bool → List Char
  | [] => []
  | [last] => branching glyphs last
  | level :: rest => passing glyphs level ++ columns glyphs rest

def package (options : TreeOptions) (levels : List Bool) : String :=
  match options.linePrefix with
  | .depth => Decimal.natText levels.length ++ " "
  | .none => ""
  | .indent => String.ofList (columns options.charset.glyphs levels)

def group (options : TreeOptions) (levels : List Bool) : String :=
  match options.linePrefix with
  | .indent => String.ofList (levels.flatMap (passing options.charset.glyphs))
  | _ => ""

end Vines

end UnsafeAudit
