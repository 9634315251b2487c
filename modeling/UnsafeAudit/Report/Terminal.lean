import UnsafeAudit.Report.Basic
import UnsafeAudit.Report.Pattern
import UnsafeAudit.Text.Styled

/-!
# Reports on a terminal

A report is printed as the key to its symbols, the tree, a summary, and its
errors and warnings if there are any.
-/

namespace UnsafeAudit

open Text (Emphasis print joinWith)

structure TerminalOptions where
  colorize : Bool
  charset : Charset
  pattern : Pattern
  deriving DecidableEq, Repr

namespace TerminalOptions

def verdictEmphasis : Verdict → Emphasis
  | .forbidsUnsafeEverywhere => .green
  | .unsafeDetected => .boldRed
  | .noneDetectedButNotForbidden => .plain

def symbolText (o : TerminalOptions) (symbol : SafetySymbol) : String :=
  let glyph := symbol.glyph o.charset
  if glyph.length < 2 then glyph ++ " " else glyph

def styled (o : TerminalOptions) (emphasis : Emphasis) (text : String) : String :=
  print (emphasis.when o.colorize) text

def plain (text : String) : String := print .plain text

def keyLine (o : TerminalOptions) (symbol : SafetySymbol) (meaning : String) : String :=
  plain s!"    {o.symbolText symbol} = {meaning}"

def keyText (o : TerminalOptions) : String :=
  plain "" ++ o.styled .bold "Symbols: " ++
    o.keyLine .lock "No \x60unsafe\x60 usage found, declares #![forbid(unsafe_code)]" ++
    o.keyLine .questionMark "No \x60unsafe\x60 usage found, missing #![forbid(unsafe_code)]" ++
    o.keyLine .rads "\x60unsafe\x60 usage found" ++ plain ""

/-- The summary of a package: the last one of several. -/
def summaryOf (report : AuditReport) (line : PackageLine) : PackageSummary :=
  (report.packages.reverse.find? (·.packageId = line.packageId)).getD
    (.bare line.packageId line.verdict)

def treeLine (o : TerminalOptions) (report : AuditReport) : TreeLine → String
  | .group line => plain s!"   {line.vines}[{line.label}]"
  | .package line =>
    let symbol := o.symbolText line.symbol
    let shown := o.pattern.display (summaryOf report line)
    o.styled (verdictEmphasis line.verdict) s!"{symbol} {line.vines}{shown}"

def countLine (o : TerminalOptions) (report : AuditReport) (label : String) (verdict : Verdict) :
    String :=
  o.styled (verdictEmphasis verdict) s!"  {label}: {report.countVerdict verdict}"

def durationText (report : AuditReport) : String :=
  match report.durationMs with
  | none => ""
  | some ms =>
    if ms.toInt? = some 0 then "" else
      let shown := Decimal.fixed 2 ms
      plain s!"  Analysis Time: {shown}ms"

def summaryText (o : TerminalOptions) (report : AuditReport) : String :=
  o.styled .bold "Summary" ++ plain s!"  Packages: {report.packageCount}" ++
    o.countLine report "Forbid unsafe" .forbidsUnsafeEverywhere ++
    o.countLine report "No unsafe found" .noneDetectedButNotForbidden ++
    o.countLine report "Unsafe detected" .unsafeDetected ++
    durationText report ++ plain ""

def messages (o : TerminalOptions) (emphasis : Emphasis) (title : String) :
    List String → String
  | [] => ""
  | texts =>
    o.styled emphasis title ++ String.join (texts.map fun text => plain s!"  {text}") ++ plain ""

def reportText (o : TerminalOptions) (report : AuditReport) : String :=
  o.keyText ++ String.join (report.lines.map (o.treeLine report)) ++ plain "" ++
    o.summaryText report ++ o.messages .boldRed "Errors" report.errors ++
    o.messages .boldYellow "Warnings" report.warnings

end TerminalOptions

namespace CompiledFile

def line (file : CompiledFile) : String :=
  let owner := (file.packageId.map (·.toString)).getD "-"
  Text.print .plain s!"{file.path}  [{file.role.word}]  {owner}"

def listingText : List CompiledFile → String
  | [] => Text.print .plain "No compiled files found."
  | files =>
    String.join (files.map line) ++ Text.print .plain "" ++
      Text.print .plain s!"Total: {files.length} files"

end CompiledFile

end UnsafeAudit
