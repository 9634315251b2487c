import UnsafeAudit.Verdict.Basic

/-!
# Package summaries

The result of an audit for one package, with the details of the package that a
report can show.
-/

namespace UnsafeAudit

structure PackageSummary where
  packageId : PackageId
  verdict : Verdict
  scannedFiles : Int
  entryPoints : Int
  counts : UnsafeCounts
  /-- False if some file of the package could not be scanned. -/
  metricsAvailable : Bool
  manifestPath : Option Path
  license : Option String
  repository : Option String
  features : List String
  deriving DecidableEq, Repr

namespace PackageSummary

def bare (packageId : PackageId) (verdict : Verdict) : PackageSummary :=
  ⟨packageId, verdict, 0, 0, .zero, true, none, none, none, []⟩

def toJson (s : PackageSummary) : Json := .obj [
  ("package_id", s.packageId.toJson),
  ("verdict", .str s.verdict.word),
  ("scanned_files", .int s.scannedFiles),
  ("entry_points", .int s.entryPoints),
  ("counts", s.counts.toJson),
  ("metrics_available", .bool s.metricsAvailable),
  ("manifest_path", Json.ofOption (.str ·.toString) s.manifestPath),
  ("license", Json.ofOption .str s.license),
  ("repository", Json.ofOption .str s.repository),
  ("features", Json.strings s.features)]

open Decode in
def ofJson : Decoder PackageSummary := record fun fields =>
  PackageSummary.mk <$> required "package_id" PackageId.ofJson fields
    <*> required "verdict" (word Verdict.ofWord?) fields
    <*> defaulted "scanned_files" int 0 fields
    <*> defaulted "entry_points" int 0 fields
    <*> defaulted "counts" UnsafeCounts.ofJson .zero fields
    <*> defaulted "metrics_available" bool true fields
    <*> defaulted "manifest_path" (nullable path) none fields
    <*> defaulted "license" (nullable string) none fields
    <*> defaulted "repository" (nullable string) none fields
    <*> defaulted "features" (list string) [] fields

end PackageSummary

end UnsafeAudit
