import UnsafeAudit.Attribution.Owners
import UnsafeAudit.Attribution.TargetFiles
import UnsafeAudit.Failure
import UnsafeAudit.Graph.Basic

/-!
# Metrics of packages

The files of a package are its target roots and, of the files of a build, the
Rust files that it owns. Without a build they are its entry points only. A
package one of whose files cannot be scanned has no metrics: it is left out
with a warning, or ends the whole, as settings say.
-/

namespace UnsafeAudit

abbrev ScanFile := Path → Except AuditError FileUsage

structure Aggregation where
  metrics : List PackageMetrics
  warnings : List String
  deriving Repr

namespace Aggregation

def sourceSuffix : String := ".rs"

/-- The metrics of a package, or the failure of its first file that cannot be scanned. -/
def scanPackage (scan : ScanFile) (id : PackageId) (files : List SourceFile) :
    Except AuditError PackageMetrics := do
  let entries ← files.mapM fun file => do return (file.path, FileMetrics.mk file (← scan file.path))
  return ⟨id, entries⟩

def entryPointFiles (fs : FileSystem) (package : Package) :
    Except ResolveError (List SourceFile) := do
  return (← fs.targetFiles package none).filter (·.role.isEntryPoint)

/-- The files of a package in a build: target roots first, then owned files. -/
def compiledFiles (fs : FileSystem) (owners : Ownership) (compiled : List Path)
    (package : Package) : Except ResolveError (List SourceFile) := do
  let roots ← fs.targetFiles package (some compiled)
  let sources := compiled.filter fun file => file.suffix = sourceSuffix
  let others := (owners.filesOf sources package.id).filter fun file =>
    !roots.any (·.path = file)
  return roots ++ others.map fun file => ⟨file, .other⟩

/-- Scans packages one after the other. Warnings come in that order, also when a later failure
ends the whole. -/
def scanPackages (files : Package → Except ResolveError (List SourceFile)) (scan : ScanFile)
    (allowPartial : Bool) : List Package → List String × Except Failure (List PackageMetrics)
  | [] => ([], .ok [])
  | package :: rest =>
    match files package with
    | .error e => ([], .error (.fault (.unresolved e)))
    | .ok found =>
      match scanPackage scan package.id found with
      | .ok metrics =>
        let (warnings, result) := scanPackages files scan allowPartial rest
        (warnings, result.map (metrics :: ·))
      | .error e =>
        if allowPartial then
          let (warnings, result) := scanPackages files scan allowPartial rest
          (s!"{package.id}: {e.message}" :: warnings, result)
        else ([], .error (.audit e))

def filesBy (fs : FileSystem) (packages : List Package) (compiled : Option (List Path))
    (targetDirectory : Option Path) :
    Except ResolveError (Package → Except ResolveError (List SourceFile)) :=
  match compiled with
  | none => .ok (entryPointFiles fs)
  | some compiled => do
    let owners ← Ownership.ofPackages fs packages targetDirectory
    return compiledFiles fs owners compiled

def run (fs : FileSystem) (scan : ScanFile) (allowPartial : Bool) (targetDirectory : Option Path)
    (graph : DependencyGraph) (compiled : Option (List Path)) :
    List String × Except Failure Aggregation :=
  match filesBy fs graph.packages compiled targetDirectory with
  | .error e => ([], .error (.fault (.unresolved e)))
  | .ok files =>
    let (warnings, result) := scanPackages files scan allowPartial graph.packages
    (warnings, result.map fun metrics => ⟨metrics, warnings⟩)

def metricsOf? (aggregation : Aggregation) (id : PackageId) : Option PackageMetrics :=
  aggregation.metrics.find? (·.packageId = id)

def verdictOf (aggregation : Aggregation) (id : PackageId) : Verdict :=
  .ofMetrics (aggregation.metricsOf? id)

end Aggregation

end UnsafeAudit
