import UnsafeAudit.Proofs.Attribution.Failing
import UnsafeAudit.Proofs.Attribution.Modes

/-!
# Generated files

What lies in the target directory belongs to nobody, wherever packages lie. It
counts for a package that declares it as the root of a target and for no other,
and is scanned only where it counts (`run_generated_files`).
-/

namespace UnsafeAudit.Aggregation

open FileSystem (IsGenerated IsRoot)

variable {fs : FileSystem} {scan other : ScanFile} {packages : List Package} {package : Package}
  {targetDirectory : Option Path} {compiled : Option (List Path)} {listed : List Path} {file : Path}
  {files : Package → Except ResolveError (List SourceFile)}

-- ---------------------------------------------------------------------------
-- Where generated files count
-- ---------------------------------------------------------------------------

/-- Of the two ways in which a file counts for a package the exclusion is on one only. -/
theorem counts_generated_iff (h : fs.IsGenerated targetDirectory file) :
    Counts fs packages targetDirectory (some listed) package file ↔
      file ∈ listed ∧ fs.IsRoot package file := by
  constructor
  · rintro ⟨hfile, hroot | ⟨-, howns⟩⟩
    · exact ⟨hfile, hroot⟩
    · exact absurd h howns.not_generated
  · exact fun ⟨hfile, hroot⟩ => ⟨hfile, .inl hroot⟩

theorem owner?_generated {owners : Ownership}
    (howners : Ownership.ofPackages fs packages targetDirectory = .ok owners)
    (h : fs.IsGenerated targetDirectory file) : owners.owner? file = none := by
  rw [Ownership.owner?, if_pos ((Ownership.isGenerated_iff howners).mpr h)]

-- ---------------------------------------------------------------------------
-- What is scanned
-- ---------------------------------------------------------------------------

theorem scanPackages_congr (h : ∀ package ∈ packages, ∀ found, files package = .ok found →
      ∀ file ∈ found, other file.path = scan file.path) (allowPartial : Bool) :
    scanPackages files other allowPartial packages =
      scanPackages files scan allowPartial packages := by
  induction packages with
  | nil => rfl
  | cons package rest ih =>
    have ih := ih fun p hp => h p (List.mem_cons_of_mem _ hp)
    rw [scanPackages, scanPackages]
    cases hfound : files package with
    | error e => rfl
    | ok found =>
      simp only [scanPackage_congr (h package List.mem_cons_self found hfound), ih]

theorem run_congr {graph : DependencyGraph} (hids : (graph.packages.map (·.id)).Nodup)
    (hset : ∀ listed ∈ compiled, listed.Nodup)
    (h : ∀ package ∈ graph.packages, ∀ file,
      Counts fs graph.packages targetDirectory compiled package file → other file = scan file)
    (allowPartial : Bool) : run fs other allowPartial targetDirectory graph compiled =
      run fs scan allowPartial targetDirectory graph compiled := by
  rw [run, run]
  cases hfiles : filesBy fs graph.packages compiled targetDirectory with
  | error e => rfl
  | ok files =>
    have hsame := scanPackages_congr (fun package hmem found hfound file hfile =>
      h package hmem file.path (((of_files_ok hfiles hids hset hmem hfound).2 file).mp hfile).1)
      allowPartial
    simp only [hsame]

/-- A generated file is among the metrics of a package exactly if the build compiled it and the
package declares it as the root of a target. It belongs to no package, and what is in it does not
matter unless some package declares it so. -/
theorem run_generated_files (fs : FileSystem) (scan : ScanFile) (allowPartial : Bool)
    (targetDirectory : Option Path) (graph : DependencyGraph) (listed : List Path)
    (hids : (graph.packages.map (·.id)).Nodup) (hset : listed.Nodup) :
    (∀ aggregation,
      (run fs scan allowPartial targetDirectory graph (some listed)).2 = .ok aggregation →
      ∀ package ∈ graph.packages, ∀ metrics, aggregation.metricsOf? package.id = some metrics →
        ∀ file, fs.IsGenerated targetDirectory file →
          (file ∈ metrics.files.map (·.1) ↔ file ∈ listed ∧ fs.IsRoot package file)) ∧
    (∀ owners, Ownership.ofPackages fs graph.packages targetDirectory = .ok owners →
      ∀ file, fs.IsGenerated targetDirectory file → owners.owner? file = none ∧
        ∀ files id, file ∉ owners.filesOf files id) ∧
    ∀ other : ScanFile,
      (∀ file ∈ listed, (fs.IsGenerated targetDirectory file →
        ∃ package ∈ graph.packages, fs.IsRoot package file) → other file = scan file) →
      run fs other allowPartial targetDirectory graph (some listed) =
        run fs scan allowPartial targetDirectory graph (some listed) := by
  have hset' : ∀ files ∈ some listed, files.Nodup := by simpa using hset
  refine ⟨?_, ?_, ?_⟩
  · intro aggregation hrun package hmem metrics hmetrics file hgenerated
    obtain ⟨files, hfiles, -, hall⟩ := run_ok_iff.mp hrun
    have hscanned := (metricsOf?_eq hids (scanPackages_ok_iff.mp hall).2.2 hmem).symm.trans hmetrics
    rw [(covers_of_scanned? hfiles hids hset' hmem hscanned).mem_keys,
      counts_generated_iff hgenerated]
  · intro owners howners file hgenerated
    have hnobody := owner?_generated howners hgenerated
    refine ⟨hnobody, fun files id hfile => ?_⟩
    cases hnobody.symm.trans (Ownership.mem_filesOf.mp hfile).2
  · intro other hsame
    refine run_congr hids hset' (fun package hmem file hcounts => ?_) allowPartial
    refine hsame file hcounts.1 fun hgenerated => ?_
    exact ⟨package, hmem, ((counts_generated_iff hgenerated).mp hcounts).2⟩

namespace Nested

open FileSystem (bare canonical_bare)

def output : Path := .atRoot ["w", "target", "out.rs"]

theorem generated_output : bare.IsGenerated (some generated) output :=
  ⟨generated, rfl, generated, canonical_generated, by decide⟩

/-- What the build wrote below the directory of the outer package is in no metrics. -/
theorem run_generated_files_nested :
    (graph.packages.map (·.id)).Nodup ∧ sources.Nodup ∧ output ∈ sources ∧
    bare.IsGenerated (some generated) output ∧
    ∃ aggregation,
      (run bare forbidding false (some generated) graph (some sources)).2 = .ok aggregation ∧
      ∀ package ∈ graph.packages, ∃ metrics, aggregation.metricsOf? package.id = some metrics ∧
        output ∉ metrics.files.map (·.1) := by
  have hids : (graph.packages.map (·.id)).Nodup := by decide
  have hset : sources.Nodup := by decide
  have hset' : ∀ files ∈ some sources, files.Nodup := by simpa using hset
  obtain ⟨aggregation, hrun⟩ : ∃ aggregation,
      (run bare forbidding false (some generated) graph (some sources)).2 = .ok aggregation :=
    (exists_run_iff hids hset').mpr ⟨resolves, .inr fun _ _ _ _ => ⟨_, rfl⟩⟩
  refine ⟨hids, hset, by decide, generated_output, aggregation, hrun, fun package hmem => ?_⟩
  obtain ⟨metrics, hmetrics, -⟩ :=
    exists_covers hids hset' hrun hmem fun _ _ => ⟨_, rfl⟩
  refine ⟨metrics, hmetrics, ?_⟩
  rw [(run_generated_files bare forbidding false (some generated) graph sources hids hset).1
    aggregation hrun package hmem metrics hmetrics output generated_output]
  rintro ⟨-, target, htarget, hroot⟩
  rw [canonical_target package hmem target htarget] at hroot
  have hne : ∀ package ∈ graph.packages, ∀ target ∈ package.targets, target.srcPath ≠ output := by
    decide
  exact hne package hmem target htarget (Except.ok.inj hroot)

/-- A package with a library whose root the build wrote. -/
def writer : Package :=
  ⟨⟨"writer", "1", none, "writer"⟩, .atRoot ["w", "Cargo.toml"], none, none, [],
    [⟨"writer", .lib, output⟩]⟩

theorem canonical_output : bare.canonical output = .ok output := canonical_bare (by decide)

theorem run_counts_generated_root : ∃ aggregation metrics,
    (run bare forbidding false (some generated) ⟨[writer], []⟩ (some [output])).2 =
      .ok aggregation ∧
    aggregation.metricsOf? writer.id = some metrics ∧
    bare.IsGenerated (some generated) output ∧ output ∈ metrics.files.map (·.1) := by
  have hids : (([writer] : List Package).map (·.id)).Nodup := by decide
  have hset : ∀ files ∈ some [output], files.Nodup := by simp
  have hresolves : Resolves bare [writer] (some generated) (some [output]) := by
    constructor
    case targets => simp [FileSystem.Locates, writer, canonical_output]
    case directories =>
      have hroot : bare.canonical writer.root = .ok writer.root := canonical_bare (by decide)
      simp [canonical_generated, hroot]
  obtain ⟨aggregation, hrun⟩ : ∃ aggregation,
      (run bare forbidding false (some generated) ⟨[writer], []⟩ (some [output])).2 =
        .ok aggregation :=
    (exists_run_iff hids hset).mpr ⟨hresolves, .inr fun _ _ _ _ => ⟨_, rfl⟩⟩
  obtain ⟨metrics, hmetrics, hcovers⟩ :=
    exists_covers hids hset hrun (List.mem_singleton_self writer) fun _ _ => ⟨_, rfl⟩
  refine ⟨aggregation, metrics, hrun, hmetrics, generated_output, (hcovers.mem_keys output).mpr ?_⟩
  exact ⟨List.mem_singleton_self _, .inl ⟨_, List.mem_singleton_self _, canonical_output⟩⟩

end Nested

end UnsafeAudit.Aggregation
