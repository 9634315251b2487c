import UnsafeAudit.Package.Codec
import UnsafeAudit.Source.Counts

/-!
# Safety verdicts

A package's verdict follows from the metrics of its files: unknown without an
entry point among them, forbidding if every entry point forbids unsafe code
whatever the other files hold, unsafe if any file has an unsafe construct.
-/

namespace UnsafeAudit

structure FileUsage where
  counts : UnsafeCounts
  forbidsUnsafe : Bool
  deriving DecidableEq, Repr

structure SourceFile where
  path : Path
  role : FileRole
  deriving DecidableEq, Repr

structure FileMetrics where
  file : SourceFile
  usage : FileUsage
  deriving DecidableEq, Repr

def FileMetrics.isEntryPoint (entry : FileMetrics) : Bool := entry.file.role.isEntryPoint

/-- The scanned files of a package, by canonical path and in scan order. -/
structure PackageMetrics where
  packageId : PackageId
  files : List (Path × FileMetrics)
  deriving DecidableEq, Repr

namespace PackageMetrics

def entryPoints (metrics : PackageMetrics) : List FileMetrics :=
  (metrics.files.map (·.2)).filter (·.isEntryPoint)

def counts (metrics : PackageMetrics) : UnsafeCounts :=
  UnsafeCounts.sum (metrics.files.map (·.2.usage.counts))

end PackageMetrics

inductive Verdict
  | forbidsUnsafeEverywhere
  | noneDetectedButNotForbidden
  | unsafeDetected
  deriving DecidableEq, Repr

namespace Verdict

def all : List Verdict :=
  [.forbidsUnsafeEverywhere, .noneDetectedButNotForbidden, .unsafeDetected]

def word : Verdict → String
  | .forbidsUnsafeEverywhere => "forbids_unsafe"
  | .noneDetectedButNotForbidden => "none_detected"
  | .unsafeDetected => "unsafe_detected"

def ofWord? (w : String) : Option Verdict := all.find? (·.word == w)

def ofMetrics : Option PackageMetrics → Verdict
  | none => .noneDetectedButNotForbidden
  | some metrics =>
    if metrics.entryPoints = [] then .noneDetectedButNotForbidden
    else if ∀ entry ∈ metrics.entryPoints, entry.usage.forbidsUnsafe then .forbidsUnsafeEverywhere
    else if ∃ entry ∈ metrics.files, entry.2.usage.counts.hasUnsafe then .unsafeDetected
    else .noneDetectedButNotForbidden

end Verdict

end UnsafeAudit
