import UnsafeAudit.Graph.Kind
import UnsafeAudit.Verdict.Basic

/-!
# Tree lines

The rendered tree is a flat list of lines: one for each occurrence of a
package, and one above each group of dependencies that has a label.
-/

namespace UnsafeAudit

inductive Charset
  | utf8
  | ascii
  deriving DecidableEq, Repr

namespace Charset

def all : List Charset := [.utf8, .ascii]

def word : Charset → String
  | .utf8 => "utf8"
  | .ascii => "ascii"

def ofWord? (w : String) : Option Charset := all.find? (·.word == w)

end Charset

inductive LinePrefix
  | depth
  | indent
  | none
  deriving DecidableEq, Repr

namespace LinePrefix

def all : List LinePrefix := [.depth, .indent, .none]

def word : LinePrefix → String
  | .depth => "depth"
  | .indent => "indent"
  | .none => "none"

def ofWord? (w : String) : Option LinePrefix := all.find? (·.word == w)

end LinePrefix

inductive SafetySymbol
  | lock
  | questionMark
  | rads
  deriving DecidableEq, Repr

namespace SafetySymbol

def all : List SafetySymbol := [.lock, .questionMark, .rads]

def word : SafetySymbol → String
  | .lock => "lock"
  | .questionMark => "question_mark"
  | .rads => "rads"

def ofWord? (w : String) : Option SafetySymbol := all.find? (·.word == w)

def ofVerdict : Verdict → SafetySymbol
  | .forbidsUnsafeEverywhere => .lock
  | .unsafeDetected => .rads
  | .noneDetectedButNotForbidden => .questionMark

def glyph : Charset → SafetySymbol → String
  | .utf8, .lock => "🔒"
  | .utf8, .questionMark => "❓"
  | .utf8, .rads => "☢\ufe0f"
  | .ascii, .lock => ":)"
  | .ascii, .questionMark => "?"
  | .ascii, .rads => "!"

end SafetySymbol

structure PackageLine where
  packageId : PackageId
  vines : String
  depth : Nat
  verdict : Verdict
  symbol : SafetySymbol
  deriving DecidableEq, Repr

structure GroupLine where
  kind : DependencyKind
  vines : String
  deriving DecidableEq, Repr

def GroupLine.label (line : GroupLine) : String := line.kind.group?.getD line.kind.word

inductive TreeLine
  | package (line : PackageLine)
  | group (line : GroupLine)
  deriving DecidableEq, Repr

namespace TreeLine

def vines : TreeLine → String
  | .package line => line.vines
  | .group line => line.vines

def packageId? : TreeLine → Option PackageId
  | .package line => some line.packageId
  | .group _ => none

end TreeLine

end UnsafeAudit
