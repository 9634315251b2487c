import UnsafeAudit.Attribution.Aggregate
import UnsafeAudit.Build.CompiledFiles
import UnsafeAudit.Metadata.Cargo
import UnsafeAudit.Metadata.Load
import UnsafeAudit.Report.Basic
import UnsafeAudit.Source.Scanner
import UnsafeAudit.Tree.Walk

/-!
# Audits

An audit loads the package graph, builds while it intercepts the compiler unless
only entry points are asked for, scans the files, and renders the tree of
verdicts. The compiled files can also be listed without a scan.
-/

namespace UnsafeAudit

structure Clock where
  now : Timestamp
  elapsedMs : Binary64

structure Audit where
  manifest : Path
  config : Config
  package : Option String
  /-- Metadata that was loaded before; cargo is asked otherwise. -/
  loaded : Option Metadata
  cargo : Cargo
  driver : BuildDriver
  scanner : FileSystem → ScanFile

namespace Audit

def new [Rust.Parser] (cargo : Cargo) (manifest : Path) (config : Config) (package : Option String)
    (loaded : Option Metadata) : Audit :=
  ⟨manifest, config, package, loaded, cargo, .ofCargo cargo config.build manifest,
    fun fs => fs.scanFile config.scan.includeTests⟩

def metadata (audit : Audit) : Run Metadata :=
  match audit.loaded with
  | some metadata => pure metadata
  | none => Metadata.ofCargo audit.cargo audit.config.build audit.manifest

def graphIn (audit : Audit) (metadata : Metadata) : Except Failure (PackageId × DependencyGraph) :=
  do
    let root ← metadata.findRoot audit.package
    return (root, ← metadata.buildGraph audit.config.graph root)

def summarize (package : Package) (metrics : Option PackageMetrics) : PackageSummary where
  packageId := package.id
  verdict := .ofMetrics metrics
  scannedFiles := (metrics.map (·.files.length)).getD 0
  entryPoints := (metrics.map (·.entryPoints.length)).getD 0
  counts := (metrics.map (·.counts)).getD .zero
  metricsAvailable := metrics.isSome
  manifestPath := some package.manifestPath
  license := package.license
  repository := package.repository
  features := package.features

def aggregate (audit : Audit) (fs : FileSystem) (metadata : Metadata) (graph : DependencyGraph)
    (compiled : Option (List Path)) : Except Failure Aggregation :=
  (Aggregation.run fs (audit.scanner fs) audit.config.scan.allowPartialResults
    (some metadata.targetDirectory) graph compiled).2

def report (audit : Audit) (clock : Clock) (root : PackageId) (graph : DependencyGraph)
    (compiled : Option (List Path)) (found : Aggregation) : AuditReport where
  timestamp := clock.now
  manifestPath := audit.manifest.toString
  root
  scanMode := if audit.config.scan.forbidOnly then .forbidOnly else .full
  lines := graph.walk (.ofConfig audit.config) found.verdictOf root
  packages := graph.packages.map fun package => summarize package (found.metricsOf? package.id)
  resolvedFileCount := ((compiled.map (·.length)).getD 0 : Nat)
  durationMs := some clock.elapsedMs
  errors := []
  warnings := found.warnings

def run (audit : Audit) (clock : Clock) : Run AuditReport := do
  Run.announce .loading
  let metadata ← audit.metadata
  let (root, graph) ← Run.ofExcept (audit.graphIn metadata)
  let compiled ←
    if audit.config.scan.forbidOnly then pure none
    else
      Run.announce .building
      pure (some (← audit.driver.compiledFiles metadata.workspaceRoot))
  Run.announce .scanning
  let found ← Run.ofExcept (audit.aggregate (← Run.files) metadata graph compiled)
  Run.announce .rendering
  let report := audit.report clock root graph compiled found
  Run.announce .done
  return report

/-- The role of a file as the root of a target; the last package of which it is one decides. -/
def roleOf (roots : List SourceFile) (file : Path) : FileRole :=
  ((roots.reverse.find? (·.path = file)).map (·.role)).getD .other

def listing (fs : FileSystem) (metadata : Metadata) (graph : DependencyGraph)
    (compiled : List Path) : Except ResolveError (List CompiledFile) := do
  let roots ← graph.packages.mapM fun package => fs.targetFiles package (some compiled)
  let owners ← Ownership.ofPackages fs graph.packages (some metadata.targetDirectory)
  return (Path.sort compiled).map fun file =>
    ⟨file, roleOf roots.flatten file, owners.owner? file⟩

def listCompiledFiles (audit : Audit) : Run (List CompiledFile) := do
  let metadata ← audit.metadata
  let compiled ← audit.driver.compiledFiles metadata.workspaceRoot
  let (_, graph) ← Run.ofExcept (audit.graphIn metadata)
  Run.ofExcept ((listing (← Run.files) metadata graph compiled).mapError fun e =>
    .fault (.unresolved e))

end Audit

end UnsafeAudit
