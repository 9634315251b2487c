import UnsafeAudit.Proofs.Attribution.Modes

/-!
# Verdicts on a growing build

A build that compiled more files counts more of them for every package, so it keeps the unsafe code
that was found before (`run_more_files`). Which entry points allow unsafe code, and which files have
it, is all that such a verdict depends on (`Covers.unsafe_iff`).
-/

namespace UnsafeAudit.Aggregation

variable {fs : FileSystem} {scan : ScanFile} {packages : List Package} {package : Package}
  {targetDirectory : Option Path} {compiled : Option (List Path)} {few many : List Path}
  {metrics : PackageMetrics} {file : Path}

theorem Counts.more_files (hsub : few ⊆ many)
    (h : Counts fs packages targetDirectory (some few) package file) :
    Counts fs packages targetDirectory (some many) package file := ⟨hsub h.1, h.2⟩

theorem Scans.fewer_files (hsub : few ⊆ many)
    (h : Scans fs scan packages targetDirectory (some many) package) :
    Scans fs scan packages targetDirectory (some few) package :=
  fun file hfile => h file (hfile.more_files hsub)

theorem Resolves.other_files (h : Resolves fs packages targetDirectory (some few)) :
    Resolves fs packages targetDirectory (some many) := ⟨h.targets, fun _ => h.directories rfl⟩

theorem Covers.unsafe_iff (h : Covers fs scan packages targetDirectory compiled package metrics) :
    Verdict.ofMetrics (some metrics) = .unsafeDetected ↔
      (∃ file usage, Counts fs packages targetDirectory compiled package file ∧
        (fs.roleOf package.targets file).isEntryPoint = true ∧ scan file = .ok usage ∧
        usage.forbidsUnsafe = false) ∧
      ∃ file usage, Counts fs packages targetDirectory compiled package file ∧
        scan file = .ok usage ∧ usage.counts.hasUnsafe = true := by
  rw [Verdict.ofMetrics_eq_unsafe_iff]
  refine and_congr ⟨?_, ?_⟩ ⟨?_, ?_⟩
  · rintro ⟨entry, hentry, hallows⟩
    obtain ⟨⟨⟨file, _⟩, hlisted, rfl⟩, hrole⟩ := PackageMetrics.mem_entryPoints.mp hentry
    obtain ⟨hfile, hsource, hscan⟩ := (h.mem_files file _).mp hlisted
    rw [FileMetrics.isEntryPoint, hsource] at hrole
    exact ⟨file, _, hfile, hrole, hscan, hallows⟩
  · rintro ⟨file, usage, hfile, hrole, hscan, hallows⟩
    have hlisted := (h.mem_files file ⟨⟨file, fs.roleOf package.targets file⟩, usage⟩).mpr
      ⟨hfile, rfl, hscan⟩
    exact ⟨_, PackageMetrics.mem_entryPoints.mpr ⟨⟨_, hlisted, rfl⟩, hrole⟩, hallows⟩
  · rintro ⟨⟨file, entry⟩, hlisted, hunsafe⟩
    obtain ⟨hfile, -, hscan⟩ := (h.mem_files file entry).mp hlisted
    exact ⟨file, _, hfile, hscan, hunsafe⟩
  · rintro ⟨file, usage, hfile, hscan, hunsafe⟩
    have hlisted := (h.mem_files file ⟨⟨file, fs.roleOf package.targets file⟩, usage⟩).mpr
      ⟨hfile, rfl, hscan⟩
    exact ⟨_, hlisted, hunsafe⟩

/-- What listing further files does to verdicts. A package with unsafe code has it whatever file is
added. A file that is no entry point leaves packages that forbid unsafe code as they are, and where
nothing was found there may be unsafe code then. In which order files are added does not matter. So
a package has unsafe code with a build that compiled more files, if it has with one that compiled
fewer and its files can be scanned. -/
theorem run_more_files :
    (∀ (metrics : PackageMetrics) (listed : Path × FileMetrics),
      listed.1 ∉ metrics.files.map (·.1) →
      (Verdict.ofMetrics (some metrics) = .unsafeDetected →
        Verdict.ofMetrics (some (metrics.add listed)) = .unsafeDetected) ∧
      (listed.2.isEntryPoint = false →
        (Verdict.ofMetrics (some metrics) = .forbidsUnsafeEverywhere ↔
          Verdict.ofMetrics (some (metrics.add listed)) = .forbidsUnsafeEverywhere) ∧
        (Verdict.ofMetrics (some metrics) = .noneDetectedButNotForbidden →
          Verdict.ofMetrics (some (metrics.add listed)) = .noneDetectedButNotForbidden ∨
            Verdict.ofMetrics (some (metrics.add listed)) = .unsafeDetected))) ∧
    (∀ (metrics : PackageMetrics) (added others : List (Path × FileMetrics)),
      (added.map (·.1)).Nodup → (∀ listed ∈ added, listed.1 ∉ metrics.files.map (·.1)) →
      added.Perm others →
      Verdict.ofMetrics (some (others.foldl PackageMetrics.add metrics)) =
        Verdict.ofMetrics (some (added.foldl PackageMetrics.add metrics))) ∧
    ∀ (fs : FileSystem) (scan : ScanFile) (targetDirectory : Option Path) (graph : DependencyGraph)
      (few many : List Path) (package : Package), (graph.packages.map (·.id)).Nodup →
      few.Nodup → many.Nodup → few ⊆ many → package ∈ graph.packages →
      Scans fs scan graph.packages targetDirectory (some many) package →
      ∀ allowPartial first,
        (run fs scan allowPartial targetDirectory graph (some few)).2 = .ok first →
        first.verdictOf package.id = .unsafeDetected →
        (∃ second, (run fs scan true targetDirectory graph (some many)).2 = .ok second) ∧
        ∀ allowPartial' second,
          (run fs scan allowPartial' targetDirectory graph (some many)).2 = .ok second →
          second.verdictOf package.id = .unsafeDetected := by
  refine ⟨fun metrics listed hnew => ⟨PackageMetrics.unsafe_add hnew, fun hrole => ?_⟩,
    fun metrics added others hnodup hnew hperm =>
      PackageMetrics.verdict_foldl_add_perm hperm hnodup hnew, ?_⟩
  · have hwithin := PackageMetrics.within_add hnew hrole
    refine ⟨hwithin.forbids_iff, fun hnone => ?_⟩
    rcases hwithin.eq_or_unsafe with heq | ⟨hfound, -⟩
    · exact .inl (heq.trans hnone)
    · exact .inr hfound
  · intro fs scan targetDirectory graph few many package hids hfew hmany hsub hmem hscans
      allowPartial first hfirst hunsafe
    have hset : ∀ files ∈ some few, files.Nodup := by simpa using hfew
    have hset' : ∀ files ∈ some many, files.Nodup := by simpa using hmany
    have hresolves := ((exists_run_iff hids hset).mp ⟨first, hfirst⟩).1
    refine ⟨(exists_run_iff hids hset').mpr ⟨hresolves.other_files, .inl rfl⟩, ?_⟩
    intro allowPartial' second hsecond
    obtain ⟨metrics, hmetrics, hcovers⟩ :=
      exists_covers hids hset hfirst hmem (hscans.fewer_files hsub)
    obtain ⟨metrics', hmetrics', hcovers'⟩ := exists_covers hids hset' hsecond hmem hscans
    rw [verdictOf, hmetrics, hcovers.unsafe_iff] at hunsafe
    rw [verdictOf, hmetrics', hcovers'.unsafe_iff]
    obtain ⟨⟨file, usage, hfile, hallows⟩, other, usage', hother, hfound⟩ := hunsafe
    exact ⟨⟨file, usage, hfile.more_files hsub, hallows⟩,
      other, usage', hother.more_files hsub, hfound⟩

namespace Nested

open FileSystem (bare)

def main : Path := .atRoot ["w", "inner", "main.rs"]

def careless : ScanFile := fun _ => .ok ⟨⟨1, 0, 0, 0, 0⟩, false⟩

theorem counts_main : Counts bare graph.packages (some generated) (some [main]) inner main :=
  ⟨by decide, .inl ⟨_, List.mem_cons_self, canonical_target inner (by decide) _ (by decide)⟩⟩

theorem roleOf_main : (bare.roleOf inner.targets main).isEntryPoint = true :=
  FileSystem.roleOf_isEntryPoint_iff.mpr
    ⟨_, List.mem_cons_self, rfl, canonical_target inner (by decide) _ (by decide)⟩

/-- The unsafe code of the inner package is found when only its entry point was compiled, so it is
found with all files. -/
theorem run_more_files_nested :
    (graph.packages.map (·.id)).Nodup ∧ [main].Nodup ∧ sources.Nodup ∧ [main] ⊆ sources ∧
    inner ∈ graph.packages ∧
    Scans bare careless graph.packages (some generated) (some sources) inner ∧
    ∃ first second,
      (run bare careless true (some generated) graph (some [main])).2 = .ok first ∧
      first.verdictOf inner.id = .unsafeDetected ∧
      (run bare careless true (some generated) graph (some sources)).2 = .ok second ∧
      second.verdictOf inner.id = .unsafeDetected := by
  have hids : (graph.packages.map (·.id)).Nodup := by decide
  have hfew : [main].Nodup := by decide
  have hmany : sources.Nodup := by decide
  have hsub : [main] ⊆ sources := by decide
  have hmem : inner ∈ graph.packages := by decide
  have hscans : ∀ compiled,
      Scans bare careless graph.packages (some generated) (some compiled) inner :=
    fun _ _ _ => ⟨_, rfl⟩
  have hset : ∀ files ∈ some [main], files.Nodup := by simp
  obtain ⟨first, hfirst⟩ : ∃ first,
      (run bare careless true (some generated) graph (some [main])).2 = .ok first :=
    (exists_run_iff hids hset).mpr ⟨resolves.other_files, .inl rfl⟩
  have hunsafe : first.verdictOf inner.id = .unsafeDetected := by
    obtain ⟨metrics, hmetrics, hcovers⟩ := exists_covers hids hset hfirst hmem (hscans _)
    rw [verdictOf, hmetrics, hcovers.unsafe_iff]
    exact ⟨⟨main, _, counts_main, roleOf_main, rfl, rfl⟩, main, _, counts_main, rfl, by decide⟩
  obtain ⟨⟨second, hsecond⟩, hkeeps⟩ := run_more_files.2.2 bare careless (some generated) graph
    [main] sources inner hids hfew hmany hsub hmem (hscans _) true first hfirst hunsafe
  exact ⟨hids, hfew, hmany, hsub, hmem, hscans _, first, second, hfirst, hunsafe, hsecond,
    hkeeps true second hsecond⟩

end Nested

end UnsafeAudit.Aggregation
