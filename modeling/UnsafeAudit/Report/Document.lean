import UnsafeAudit.Report.Basic

/-!
# Reports as documents

The content of a report as it is written for other programs: the results with a
summary of them. What is derived from the content of a package line, such as a
group's label, is left out.
-/

namespace UnsafeAudit

namespace AuditReport

def summary (report : AuditReport) : Json := .obj [
  ("packages", .nat report.packageCount),
  ("forbids_unsafe", .nat (report.countVerdict .forbidsUnsafeEverywhere)),
  ("unsafe_detected", .nat (report.countVerdict .unsafeDetected)),
  ("resolved_files", .int report.resolvedFileCount),
  ("analysis_duration_ms", Json.ofOption .float report.durationMs)]

def document (report : AuditReport) : Json := .obj [
  ("timestamp", .str report.timestamp.isoText),
  ("manifest_path", .str report.manifestPath),
  ("root", .str report.root.toString),
  ("scan_mode", .str report.scanMode.word),
  ("summary", report.summary),
  ("tree", .arr (report.lines.map TreeLine.toJson)),
  ("packages", .arr (report.packages.map PackageSummary.toJson)),
  ("errors", Json.strings report.errors),
  ("warnings", Json.strings report.warnings)]

end AuditReport

namespace CompiledFile

def entry (file : CompiledFile) : Json := .obj [
  ("path", .str file.path.toString),
  ("role", .str file.role.word),
  ("package", Json.ofOption (.str ·.toString) file.packageId)]

def document (files : List CompiledFile) : Json := .obj [
  ("total", .nat files.length),
  ("files", .arr (files.map entry))]

end CompiledFile

end UnsafeAudit
