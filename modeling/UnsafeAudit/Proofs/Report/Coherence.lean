import UnsafeAudit.Audit.Basic
import UnsafeAudit.Proofs.Attribution.Failing
import UnsafeAudit.Proofs.Attribution.Shown
import UnsafeAudit.Proofs.Metadata.Loaded
import UnsafeAudit.Proofs.Tree.Shown
import UnsafeAudit.Proofs.Verdict.FurtherFiles

/-!
# Coherent reports

A report says the same thing in several places: a verdict stands in a summary,
on lines of the tree and in a count, and metrics that are missing show in a
summary and in a warning. Each is computed on its own, and in every report that
an audit returns they agree (`Audit.run_coherent`).
-/

namespace UnsafeAudit

-- ---------------------------------------------------------------------------
-- Totals of counts
-- ---------------------------------------------------------------------------

namespace UnsafeCounts

theorem total_add (a b : UnsafeCounts) : (a.add b).total = a.total + b.total := by
  simp only [total, add]
  omega

theorem total_foldl_add (counts : List UnsafeCounts) (start : UnsafeCounts) :
    (counts.foldl add start).total = start.total + (counts.map total).sum := by
  induction counts generalizing start with
  | nil => simp
  | cons c rest ih =>
    rw [List.foldl_cons, ih, total_add, List.map_cons, List.sum_cons, Nat.add_assoc]

theorem total_sum_pos_iff {counts : List UnsafeCounts} :
    0 < (sum counts).total ↔ ∃ c ∈ counts, c.hasUnsafe = true := by
  have htotal : (sum counts).total = (counts.map total).sum := by
    rw [sum, total_foldl_add]
    exact Nat.zero_add _
  rw [htotal, List.sum_pos_iff_exists_pos_nat]
  simp [hasUnsafe]

end UnsafeCounts

theorem PackageMetrics.total_counts_pos_iff {metrics : PackageMetrics} :
    0 < metrics.counts.total ↔
      ∃ listed ∈ metrics.files, listed.2.usage.counts.hasUnsafe = true := by
  rw [counts, UnsafeCounts.total_sum_pos_iff]
  simp only [List.mem_map, exists_exists_and_eq_and]

-- ---------------------------------------------------------------------------
-- Summaries
-- ---------------------------------------------------------------------------

/-- The verdict of a summary is borne out by what else the summary says. -/
structure PackageSummary.Coherent (summary : PackageSummary) : Prop where
  forbids : summary.verdict = .forbidsUnsafeEverywhere →
    summary.metricsAvailable = true ∧ 1 ≤ summary.entryPoints
  detected : summary.verdict = .unsafeDetected →
    summary.metricsAvailable = true ∧ 1 ≤ summary.entryPoints ∧ 0 < summary.counts.total
  counted : 0 < summary.counts.total → summary.verdict ≠ .unsafeDetected →
    summary.verdict = .forbidsUnsafeEverywhere ∨ summary.entryPoints = 0
  unavailable : summary.metricsAvailable = false →
    summary.counts = .zero ∧ summary.verdict = .noneDetectedButNotForbidden

/-- Unsafe code that is not reported is in a package that forbids it or has no entry point. -/
theorem Verdict.forbids_or_no_entryPoints {metrics : PackageMetrics}
    (hcode : ∃ listed ∈ metrics.files, listed.2.usage.counts.hasUnsafe = true)
    (hne : ofMetrics (some metrics) ≠ .unsafeDetected) :
    ofMetrics (some metrics) = .forbidsUnsafeEverywhere ∨ metrics.entryPoints = [] := by
  rw [ofMetrics] at hne ⊢
  split_ifs at hne ⊢ with hnone
  · exact .inr hnone
  · exact .inl rfl
  · exact absurd rfl hne

theorem Audit.coherent_summarize (package : Package) (metrics : Option PackageMetrics) :
    (summarize package metrics).Coherent := by
  cases metrics with
  | none => exact ⟨nofun, nofun, nofun, fun _ => ⟨rfl, rfl⟩⟩
  | some metrics =>
    have hentry : ∀ entry ∈ metrics.entryPoints, (1 : Int) ≤ (metrics.entryPoints.length : Nat) :=
      fun entry hmem => by exact_mod_cast List.length_pos_of_mem hmem
    refine ⟨fun h => ⟨rfl, ?_⟩, fun h => ⟨rfl, ?_, ?_⟩, fun hcount hne => ?_, nofun⟩
    · obtain ⟨⟨entry, hmem⟩, -⟩ := Verdict.ofMetrics_eq_forbids_iff.mp h
      exact hentry entry hmem
    · obtain ⟨⟨entry, hmem, -⟩, -⟩ := Verdict.ofMetrics_eq_unsafe_iff.mp h
      exact hentry entry hmem
    · exact PackageMetrics.total_counts_pos_iff.mpr (Verdict.ofMetrics_eq_unsafe_iff.mp h).2
    · have hcode := PackageMetrics.total_counts_pos_iff.mp hcount
      refine (Verdict.forbids_or_no_entryPoints hcode hne).imp_right fun hnil => ?_
      show ((metrics.entryPoints.length : Nat) : Int) = 0
      rw [hnil]
      rfl

-- ---------------------------------------------------------------------------
-- Warnings
-- ---------------------------------------------------------------------------

namespace Aggregation

variable {fs : FileSystem} {scan : ScanFile} {allowPartial : Bool} {packages : List Package}
  {files : Package → Except ResolveError (List SourceFile)} {metrics : List PackageMetrics}
  {targetDirectory : Option Path} {compiled : Option (List Path)} {graph : DependencyGraph}
  {found : Aggregation}

theorem length_warnings_of_scanPackages_ok
    (h : (scanPackages files scan allowPartial packages).2 = .ok metrics) :
    (scanPackages files scan allowPartial packages).1.length =
      packages.countP fun package => (scanned? files scan package).isNone := by
  induction packages generalizing metrics with
  | nil => rfl
  | cons package rest ih =>
    obtain ⟨hfiles, hpartial, -⟩ := scanPackages_ok_iff.mp h
    obtain ⟨⟨own, hown⟩, hothers⟩ := List.forall_mem_cons.mp hfiles
    have hpartial' := hpartial.imp_right fun hall => (List.forall_mem_cons.mp hall).2
    rw [List.countP_cons, ← ih (scanPackages_ok_iff.mpr ⟨hothers, hpartial', rfl⟩)]
    rcases scanPackage_outcome scan package.id own with ⟨e, hscan, -⟩ | ⟨listed, hscan, -⟩
    · rw [scanned?_error hown hscan]
      rw [scanPackages_cons_error hown hscan] at h ⊢
      cases allowPartial with
      | true => rfl
      | false => cases h
    · rw [scanned?_ok hown hscan, scanPackages_cons_ok hown hscan]
      rfl

theorem length_warnings_of_run_ok (hids : (graph.packages.map (·.id)).Nodup)
    (h : (run fs scan allowPartial targetDirectory graph compiled).2 = .ok found) :
    found.warnings.length =
      graph.packages.countP fun package => (found.metricsOf? package.id).isNone := by
  obtain ⟨files, hfiles, hwarnings, hmetrics⟩ := run_ok_iff.mp h
  rw [hwarnings, length_warnings_of_scanPackages_ok hmetrics]
  refine List.countP_congr fun package hmem => ?_
  rw [metricsOf?_eq hids (scanPackages_ok_iff.mp hmetrics).2.2 hmem]

end Aggregation

-- ---------------------------------------------------------------------------
-- Lines
-- ---------------------------------------------------------------------------

theorem DependencyGraph.verdict_of_mem_walk {graph : DependencyGraph} {options : TreeOptions}
    {verdictOf : PackageId → Verdict} {root : PackageId} {line : PackageLine}
    (h : .package line ∈ graph.walk options verdictOf root) :
    line.packageId ∈ TreeLines.ids (graph.walk options verdictOf root) ∧
      line.verdict = verdictOf line.packageId ∧ line.symbol = .ofVerdict line.verdict := by
  have hline : line ∈ TreeLines.packages (graph.walk options verdictOf root) :=
    List.mem_filterMap.mpr ⟨_, h, rfl⟩
  refine ⟨List.mem_map_of_mem hline, ?_⟩
  obtain ⟨below, -, hwalk⟩ := walk_eq_lines graph options verdictOf root
  rw [hwalk, Occurrence.lines, TreeLines.packages_package, Outline.packages_lines,
    ← List.map_cons (f := Occurrence.line options verdictOf)] at hline
  obtain ⟨here, -, rfl⟩ := List.mem_map.mp hline
  exact ⟨rfl, rfl⟩

-- ---------------------------------------------------------------------------
-- Reports
-- ---------------------------------------------------------------------------

/-- What a report says about the packages of a graph agrees wherever it is said. -/
structure AuditReport.Coherent (report : AuditReport) (graph : DependencyGraph) : Prop where
  nodup_ids : (graph.packages.map (·.id)).Nodup
  summarizes : report.packages.map (·.packageId) = graph.packages.map (·.id)
  summaries : ∀ summary ∈ report.packages, summary.Coherent
  shows : ∀ line, .package line ∈ report.lines →
    (∃ summary ∈ report.packages, summary.packageId = line.packageId) ∧
      ∀ summary ∈ report.packages, summary.packageId = line.packageId →
        line.verdict = summary.verdict ∧ line.symbol = .ofVerdict summary.verdict
  warned : report.warnings.length = report.packages.countP (!·.metricsAvailable)
  counted : report.packageCount = report.countVerdict .forbidsUnsafeEverywhere +
    report.countVerdict .noneDetectedButNotForbidden + report.countVerdict .unsafeDetected

theorem AuditReport.packageCount_eq (report : AuditReport) :
    report.packageCount = report.countVerdict .forbidsUnsafeEverywhere +
      report.countVerdict .noneDetectedButNotForbidden + report.countVerdict .unsafeDetected := by
  simp only [packageCount, countVerdict, withVerdict]
  induction report.packages with
  | nil => rfl
  | cons summary rest ih =>
    simp only [List.filter_cons, List.length_cons]
    cases summary.verdict <;> simp [ih] <;> omega

namespace Audit

section
variable {audit : Audit} {clock : Clock} {root : PackageId} {graph : DependencyGraph}
  {compiled : Option (List Path)} {found : Aggregation} {fs : FileSystem} {metadata : Metadata}

theorem coherent_report (hsound : graph.Sound) (hroot : graph.contains root)
    (h : audit.aggregate fs metadata graph compiled = .ok found) :
    (audit.report clock root graph compiled found).Coherent graph where
  nodup_ids := hsound.nodup_ids
  summarizes := List.map_map
  summaries := by
    intro summary hsummary
    obtain ⟨package, -, rfl⟩ := List.mem_map.mp hsummary
    exact coherent_summarize package _
  shows := by
    intro line hline
    obtain ⟨hid, hverdict, hsymbol⟩ := DependencyGraph.verdict_of_mem_walk hline
    have hcontains := DependencyGraph.contains_of_reaches hsound.spans hroot
      ((DependencyGraph.mem_ids_walk_iff _ _ _ _ _).mp hid)
    obtain ⟨package, hp, hpid⟩ := List.mem_map.mp (DependencyGraph.contains_iff.mp hcontains)
    refine ⟨⟨_, List.mem_map_of_mem hp, hpid⟩, fun summary hsummary heq => ?_⟩
    obtain ⟨other, -, rfl⟩ := List.mem_map.mp hsummary
    have hsame : line.verdict = (summarize other (found.metricsOf? other.id)).verdict := by
      rw [hverdict, ← heq]
      rfl
    exact ⟨hsame, hsame ▸ hsymbol⟩
  warned := by
    have hmissing : ∀ package metrics,
        (!(summarize package metrics).metricsAvailable) = metrics.isNone := by
      intro package metrics
      cases metrics <;> rfl
    show found.warnings.length = List.countP _ (graph.packages.map _)
    rw [Aggregation.length_warnings_of_run_ok hsound.nodup_ids h, List.countP_map]
    exact List.countP_congr fun package _ => by simp only [Function.comp, hmissing]
  counted := AuditReport.packageCount_eq _

theorem of_run_ok {s : Session} {report : AuditReport}
    (h : ((audit.run clock).run s).1 = .ok report) :
    ∃ metadata t root graph compiled fs found,
      audit.metadata.run { s with stages := s.stages ++ [.loading] } = (.ok metadata, t) ∧
      audit.graphIn metadata = .ok (root, graph) ∧
      audit.aggregate fs metadata graph compiled = .ok found ∧
      report = audit.report clock root graph compiled found := by
  obtain ⟨_, _, hannounced, h⟩ := Run.of_bind_ok h
  cases hannounced
  obtain ⟨metadata, t, hmetadata, h⟩ := Run.of_bind_ok h
  obtain ⟨⟨root, graph⟩, _, hgraph, h⟩ := Run.of_bind_ok h
  -- what is done with the files is the same, however they were found
  have hlast : ∀ (compiled : Option (List Path)) (t : Session), ((do
      Run.announce .scanning
      let found ← Run.ofExcept (audit.aggregate (← Run.files) metadata graph compiled)
      Run.announce .rendering
      let report := audit.report clock root graph compiled found
      Run.announce .done
      return report : Run AuditReport).run t).1 = .ok report →
      ∃ fs found, audit.aggregate fs metadata graph compiled = .ok found ∧
        report = audit.report clock root graph compiled found := by
    intro compiled t h
    obtain ⟨_, _, -, h⟩ := Run.of_bind_ok h
    obtain ⟨fs, _, -, h⟩ := Run.of_bind_ok h
    obtain ⟨found, _, hfound, h⟩ := Run.of_bind_ok h
    obtain ⟨_, _, -, h⟩ := Run.of_bind_ok h
    obtain ⟨_, _, -, h⟩ := Run.of_bind_ok h
    cases h
    exact ⟨fs, found, (Prod.mk.inj hfound).1, rfl⟩
  have hreport : ∃ compiled fs found, audit.aggregate fs metadata graph compiled = .ok found ∧
      report = audit.report clock root graph compiled found := by
    dsimp only at h
    split at h
    · obtain ⟨compiled, _, -, h⟩ := Run.of_bind_ok h
      exact ⟨compiled, hlast compiled _ h⟩
    · obtain ⟨_, _, -, h⟩ := Run.of_bind_ok h
      obtain ⟨_, _, -, h⟩ := Run.of_bind_ok h
      obtain ⟨compiled, _, -, h⟩ := Run.of_bind_ok h
      exact ⟨compiled, hlast compiled _ h⟩
  obtain ⟨compiled, fs, found, hfound, rfl⟩ := hreport
  exact ⟨metadata, t, root, graph, compiled, fs, found, hmetadata, (Prod.mk.inj hgraph).1, hfound,
    rfl⟩

/-- Metadata that cargo gives is read from a document. -/
theorem exists_document_of_ofCargo_ok {cargo : Cargo} {config : BuildConfig} {manifest : Path}
    {s : Session} (h : ((Metadata.ofCargo cargo config manifest).run s).1 = .ok metadata) :
    ∃ document, Metadata.ofJson document = .ok metadata := by
  obtain ⟨ended, _, -, h⟩ := Run.of_bind_ok h
  split at h
  · cases h
  · rename_i output diagnostics
    replace h : Metadata.ofText output = .ok metadata := h
    rw [Metadata.ofText] at h
    split at h
    · cases h
    · rename_i document _
      exact ⟨document, of_mapError_ok h⟩
  · cases h

/-- Every report that an audit returns is about the graph of the package that was asked for, as it
is loaded from the metadata, and coherent. Metadata that is given to the audit was read from a
document, as cargo's is. -/
theorem run_coherent (audit : Audit) (clock : Clock) (s : Session) (report : AuditReport)
    (hloaded : ∀ metadata ∈ audit.loaded, ∃ document, Metadata.ofJson document = .ok metadata)
    (h : ((audit.run clock).run s).1 = .ok report) :
    ∃ metadata graph, (∃ t, audit.metadata.run { s with stages := s.stages ++ [.loading] } =
        (.ok metadata, t)) ∧
      audit.graphIn metadata = .ok (report.root, graph) ∧ report.Coherent graph := by
  obtain ⟨metadata, t, root, graph, compiled, fs, found, hmetadata, hgraph, hfound, rfl⟩ :=
    of_run_ok h
  refine ⟨metadata, graph, ⟨t, hmetadata⟩, hgraph, ?_⟩
  have hdocument : ∃ document, Metadata.ofJson document = .ok metadata := by
    rw [Audit.metadata] at hmetadata
    split at hmetadata
    · rename_i given hgiven
      cases hmetadata
      exact hloaded metadata hgiven
    · exact exists_document_of_ofCargo_ok (congrArg Prod.fst hmetadata)
  obtain ⟨document, hread⟩ := hdocument
  obtain ⟨picked, hpicked, hgraph⟩ := UnsafeAudit.of_bind_ok hgraph
  obtain ⟨loaded, hbuilt, hgraph⟩ := UnsafeAudit.of_bind_ok hgraph
  cases hgraph
  exact coherent_report (Metadata.sound_of_buildGraph_ok hbuilt)
    (Metadata.contains_root hread hpicked hbuilt) hfound

theorem run_ok {s t u : Session} {files : List Path}
    (hmetadata : audit.metadata.run { s with stages := s.stages ++ [.loading] } = (.ok metadata, t))
    (hgraph : audit.graphIn metadata = .ok (root, graph))
    (hbuilds : audit.config.scan.forbidOnly = false)
    (hfiles : (audit.driver.compiledFiles metadata.workspaceRoot).run
      { t with stages := t.stages ++ [.building] } = (.ok files, u))
    (hfound : audit.aggregate u.files metadata graph (some files) = .ok found) :
    ((audit.run clock).run s).1 = .ok (audit.report clock root graph (some files) found) := by
  have hgraph : (Run.ofExcept (audit.graphIn metadata)).run t = (.ok (root, graph), t) := by
    rw [Run.run_ofExcept, hgraph]
  have hfound : ∀ v, (Run.ofExcept (audit.aggregate u.files metadata graph (some files))).run v =
      (.ok found, v) := by
    intro v
    rw [Run.run_ofExcept, hfound]
  rw [Audit.run, Run.bind_ok (Run.run_announce _ _), Run.bind_ok hmetadata, Run.bind_ok hgraph]
  simp only [hbuilds, Bool.false_eq_true, if_false]
  rw [Run.bind_ok (Run.run_announce _ _), Run.bind_ok hfiles, Run.bind_ok (Run.run_pure _ _),
    Run.bind_ok (Run.run_announce _ _), Run.bind_ok (Run.run_files _), Run.bind_ok (hfound _)]
  rfl

end

-- ---------------------------------------------------------------------------
-- An audit with a warning
-- ---------------------------------------------------------------------------

namespace Sample

open Aggregation.Generator (describe app gen shown withBuildDeps appCode genCode sources)
open Declared (WellTyped Sample.node Sample.dependency)
open FileSystem (bare canonical_bare resolve_bare)

/-- To build the package `app` takes another one, which is kept below its directory. -/
def document : Json := .obj [
  ("workspace_root", .str "/app"),
  ("packages", .arr [describe "app" "/app", describe "gen" "/app/gen"]),
  ("resolve", .obj [("nodes", .arr [
    Sample.node "app" [Sample.dependency "gen" (.str "build")], Sample.node "gen" []])])]

def sourcesBuilt : BuildScript :=
  ⟨[.deliver (.invocation ⟨.atRoot ["app"], sources, none, none, [], false⟩) false], none⟩

/-- The build compiles both packages. One has unsafe code, the other cannot be scanned. -/
def audit : Audit where
  manifest := .atRoot ["app", "Cargo.toml"]
  config := { Config.default with graph := withBuildDeps }
  package := some "app"
  loaded := some (Declared.metadata document)
  cargo := fun _ _ _ => .error .wrongType
  driver := ⟨pure (), pure sourcesBuilt⟩
  scanner := fun _ file =>
    if file = genCode then .error (.scan file "no Rust") else .ok ⟨⟨1, 0, 0, 0, 0⟩, false⟩

def clock : Clock := ⟨⟨2024, 1, 1, 0, 0, 0, 0, none⟩, .zero⟩

theorem wellTyped : WellTyped document := by decide

theorem graphIn_eq : audit.graphIn (Declared.metadata document) = .ok (app.id, shown) := by rfl

theorem compiledFiles_eq : (audit.driver.compiledFiles (Declared.workspaceRoot document)).run
    ⟨bare, [], [.loading, .building]⟩ = (.ok sources, ⟨bare, [], [.loading, .building]⟩) := by
  have hcontext : audit.driver.interceptedBuild.run ⟨bare, [], [.loading, .building]⟩ =
      (.ok ⟨sources, [], 1⟩, ⟨bare, [], [.loading, .building]⟩) := by rfl
  have hroot : bare.resolve (Declared.workspaceRoot document) = .ok (.atRoot ["app"]) :=
    resolve_bare (by decide)
  have hfiles : bare.compiledFiles ⟨sources, [], 1⟩ (.atRoot ["app"]) = .ok sources := by
    rw [FileSystem.compiledFiles, Path.sort, List.mergeSort_nil]
    rfl
  have hresolved : (Run.ofExcept ((bare.resolve (Declared.workspaceRoot document)).mapError
      fun e => .fault (.unresolved e))).run ⟨bare, [], [.loading, .building]⟩ =
        (.ok (.atRoot ["app"]), ⟨bare, [], [.loading, .building]⟩) := by
    rw [Run.run_ofExcept, hroot]
    rfl
  rw [BuildDriver.compiledFiles, Run.bind_ok hcontext, Run.bind_ok (Run.run_files _),
    Run.bind_ok hresolved, Run.run_ofExcept, hfiles]

theorem exists_report : ∃ report, ((audit.run clock).run (.ofFiles bare)).1 = .ok report := by
  have hids : (shown.packages.map (·.id)).Nodup := by decide
  have hset : ∀ listed ∈ some sources, listed.Nodup := by rintro _ ⟨⟩; decide
  have htarget : bare.canonical (Declared.targetDirectory document) =
      .ok (Declared.targetDirectory document) := canonical_bare (by decide)
  have hresolves : Aggregation.Resolves bare shown.packages
      (some (Declared.targetDirectory document)) (some sources) :=
    ⟨(Aggregation.Generator.resolves (by decide)).targets, fun _ => ⟨by rintro _ ⟨⟩; exact ⟨_, htarget⟩,
      fun package hp => ⟨_, Aggregation.Generator.canonical_root package hp⟩⟩⟩
  obtain ⟨found, hfound⟩ := (Aggregation.exists_run_iff hids hset).mpr ⟨hresolves, .inl rfl⟩
  exact ⟨_, run_ok rfl graphIn_eq rfl compiledFiles_eq hfound⟩

end Sample

open Sample FileSystem in
/-- A report on two packages, one of which has no metrics. -/
theorem run_coherent_sample :
    (∀ metadata ∈ audit.loaded, ∃ document, Metadata.ofJson document = .ok metadata) ∧
    ∃ report, ((audit.run clock).run (.ofFiles bare)).1 = .ok report ∧
      ∃ metadata graph, audit.graphIn metadata = .ok (report.root, graph) ∧
        report.Coherent graph := by
  have hloaded : ∀ metadata ∈ audit.loaded,
      ∃ document, Metadata.ofJson document = .ok metadata := by
    rintro _ ⟨⟩
    exact ⟨document, Metadata.ofJson_eq wellTyped⟩
  obtain ⟨report, hreport⟩ := exists_report
  obtain ⟨metadata, graph, -, hgraph, hcoherent⟩ :=
    run_coherent audit clock (.ofFiles bare) report hloaded hreport
  exact ⟨hloaded, report, hreport, metadata, graph, hgraph, hcoherent⟩

end Audit

end UnsafeAudit
