import UnsafeAudit.Report.Summary
import UnsafeAudit.Report.Timestamp
import UnsafeAudit.Tree.Codec

/-!
# Audit reports

A report holds the rendered tree and a summary for each package, with the
warnings of packages that could not be scanned. A listing of compiled files is
a result of its own.
-/

namespace UnsafeAudit

inductive ScanMode
  | full
  | forbidOnly
  deriving DecidableEq, Repr

namespace ScanMode

def all : List ScanMode := [.full, .forbidOnly]

def word : ScanMode → String
  | .full => "full"
  | .forbidOnly => "forbid_only"

def ofWord? (w : String) : Option ScanMode := all.find? (·.word == w)

end ScanMode

structure AuditReport where
  timestamp : Timestamp
  manifestPath : String
  root : PackageId
  scanMode : ScanMode
  lines : List TreeLine
  packages : List PackageSummary
  resolvedFileCount : Int
  durationMs : Option Binary64
  errors : List String
  warnings : List String
  deriving DecidableEq, Repr

structure CompiledFile where
  path : Path
  role : FileRole
  packageId : Option PackageId
  deriving DecidableEq, Repr

namespace AuditReport

def packageCount (report : AuditReport) : Nat := report.packages.length

def withVerdict (report : AuditReport) (verdict : Verdict) : List PackageSummary :=
  report.packages.filter (·.verdict = verdict)

def countVerdict (report : AuditReport) (verdict : Verdict) : Nat :=
  (report.withVerdict verdict).length

def hasErrors (report : AuditReport) : Bool := !report.errors.isEmpty

def toJson (report : AuditReport) : Json := .obj [
  ("timestamp", .str report.timestamp.dataText),
  ("manifest_path", .str report.manifestPath),
  ("root", report.root.toJson),
  ("scan_mode", .str report.scanMode.word),
  ("lines", .arr (report.lines.map TreeLine.toJson)),
  ("packages", .arr (report.packages.map PackageSummary.toJson)),
  ("resolved_file_count", .int report.resolvedFileCount),
  ("analysis_duration_ms", Json.ofOption .float report.durationMs),
  ("errors", Json.strings report.errors),
  ("warnings", Json.strings report.warnings)]

/-- A number given as such, as a truth value or as text. -/
def duration : Decode.Decoder Binary64
  | .float x => .ok x
  | .int n => .ok (.ofInt n)
  | .bool b => .ok (.ofInt (if b then 1 else 0))
  | .str s =>
    match Json.read? s with
    | some (.float x) => .ok x
    | some (.int n) => .ok (.ofInt n)
    | _ => .issue .floatParsing
  | _ => .issue .floatType

/-- The moment that a report without a timestamp is taken to be from. -/
def ofJsonAt (now : Timestamp) : Decode.Decoder AuditReport := Decode.record fun fields =>
  open Decode in
  AuditReport.mk <$> defaulted "timestamp" Timestamp.ofJson now fields
    <*> required "manifest_path" string fields
    <*> required "root" PackageId.ofJson fields
    <*> defaulted "scan_mode" (word ScanMode.ofWord?) .full fields
    <*> defaulted "lines" (list TreeLine.ofJson) [] fields
    <*> defaulted "packages" (list PackageSummary.ofJson) [] fields
    <*> defaulted "resolved_file_count" int 0 fields
    <*> defaulted "analysis_duration_ms" (nullable duration) none fields
    <*> defaulted "errors" (list string) [] fields
    <*> defaulted "warnings" (list string) [] fields

end AuditReport

open Decode in
def CompiledFile.ofJson : Decoder CompiledFile := record fun fields =>
  CompiledFile.mk <$> required "path" Decode.path fields
    <*> defaulted "role" (word FileRole.ofWord?) .other fields
    <*> defaulted "package_id" (nullable PackageId.ofJson) none fields

end UnsafeAudit
