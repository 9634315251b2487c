import UnsafeAudit.Proofs.Attribution.Counted
import UnsafeAudit.Proofs.Verdict.FurtherFiles

/-!
# Verdicts with a build and without one

In a build the files of a package are those that were compiled, without one
they are its entry points only. Where the build compiled all entry points both
see the same of them, so both agree on whether unsafe code is forbidden, and
the one with the build finds at least as much unsafe code
(`run_modes_agree`).
-/

namespace UnsafeAudit.Aggregation

variable {fs : FileSystem} {scan : ScanFile} {few many packages : List Package}
  {package : Package} {targetDirectory targetDirectory' : Option Path}
  {compiled compiled' : Option (List Path)} {fewer more : PackageMetrics}

theorem Covers.within (hfewer : Covers fs scan few targetDirectory compiled package fewer)
    (hmore : Covers fs scan many targetDirectory' compiled' package more)
    (hcounts : ∀ file, Counts fs few targetDirectory compiled package file →
      Counts fs many targetDirectory' compiled' package file)
    (hentry : ∀ file, (fs.roleOf package.targets file).isEntryPoint = true →
      Counts fs many targetDirectory' compiled' package file →
      Counts fs few targetDirectory compiled package file) : fewer.Within more := by
  constructor
  case subset =>
    rintro ⟨file, entry⟩ hlisted
    obtain ⟨hfile, hrest⟩ := (hfewer.mem_files file entry).mp hlisted
    exact (hmore.mem_files file entry).mpr ⟨hcounts file hfile, hrest⟩
  case entry =>
    rintro ⟨file, entry⟩ hlisted hrole
    obtain ⟨hfile, hsource, hscan⟩ := (hmore.mem_files file entry).mp hlisted
    rw [FileMetrics.isEntryPoint, hsource] at hrole
    exact (hfewer.mem_files file entry).mpr ⟨hentry file hrole hfile, hsource, hscan⟩

theorem exists_covers {graph : DependencyGraph} {aggregation : Aggregation} {allowPartial : Bool}
    (hids : (graph.packages.map (·.id)).Nodup) (hset : ∀ listed ∈ compiled, listed.Nodup)
    (hrun : (run fs scan allowPartial targetDirectory graph compiled).2 = .ok aggregation)
    (hmem : package ∈ graph.packages)
    (hscans : Scans fs scan graph.packages targetDirectory compiled package) :
    ∃ metrics, aggregation.metricsOf? package.id = some metrics ∧
      Covers fs scan graph.packages targetDirectory compiled package metrics := by
  obtain ⟨files, hfiles, -, hmetrics⟩ := run_ok_iff.mp hrun
  obtain ⟨hfound, -, hall⟩ := scanPackages_ok_iff.mp hmetrics
  have hlocates := (exists_files_iff hfiles).mp (hfound package hmem)
  obtain ⟨metrics, hscanned⟩ := Option.isSome_iff_exists.mp
    ((isSome_scanned?_iff hfiles hids hset hmem hlocates).mpr hscans)
  exact ⟨metrics, (metricsOf?_eq hids hall hmem).trans hscanned,
    covers_of_scanned? hfiles hids hset hmem hscanned⟩

-- ---------------------------------------------------------------------------
-- Entry points
-- ---------------------------------------------------------------------------

/-- The build compiled all entry points of a package. -/
def CompilesEntryPoints (fs : FileSystem) (listed : List Path) (package : Package) : Prop :=
  ∀ target ∈ package.targets, target.kind.role.isEntryPoint = true →
    ∀ file, fs.canonical target.srcPath = .ok file → file ∈ listed

variable {listed : List Path}

namespace CompilesEntryPoints

theorem counts (h : CompilesEntryPoints fs listed package) {file : Path}
    (hfile : Counts fs packages targetDirectory none package file) :
    Counts fs packages targetDirectory (some listed) package file := by
  obtain ⟨target, hmem, hentry, hleads⟩ := hfile
  exact ⟨h target hmem hentry file hleads, .inl ⟨target, hmem, hleads⟩⟩

theorem scans (h : CompilesEntryPoints fs listed package)
    (hscans : Scans fs scan packages targetDirectory (some listed) package) :
    Scans fs scan packages targetDirectory none package :=
  fun file hfile => hscans file (h.counts hfile)

theorem within (h : CompilesEntryPoints fs listed package)
    (hfewer : Covers fs scan packages targetDirectory none package fewer)
    (hmore : Covers fs scan packages targetDirectory (some listed) package more) :
    fewer.Within more := by
  refine hfewer.within hmore (fun _ => h.counts) fun file hrole _ => ?_
  exact FileSystem.roleOf_isEntryPoint_iff.mp hrole

end CompilesEntryPoints

theorem Resolves.unbuilt (h : Resolves fs packages targetDirectory compiled) :
    Resolves fs packages targetDirectory none := ⟨h.targets, nofun⟩

/-- A package whose entry points were all compiled, and whose files can all be scanned: with the
build and without it unsafe code is forbidden alike; what is unsafe without the build is unsafe with
it; and where nothing is found with the build, nothing is found without it. Both verdicts are there
if partial results are allowed and all paths lead somewhere. -/
theorem run_modes_agree (fs : FileSystem) (scan : ScanFile) (targetDirectory : Option Path)
    (graph : DependencyGraph) (listed : List Path) (package : Package)
    (hids : (graph.packages.map (·.id)).Nodup) (hset : listed.Nodup)
    (hmem : package ∈ graph.packages) (hentry : CompilesEntryPoints fs listed package)
    (hscans : Scans fs scan graph.packages targetDirectory (some listed) package) :
    (Resolves fs graph.packages targetDirectory (some listed) →
      (∃ built, (run fs scan true targetDirectory graph (some listed)).2 = .ok built) ∧
        ∃ unbuilt, (run fs scan true targetDirectory graph none).2 = .ok unbuilt) ∧
    ∀ allowPartial allowPartial' built unbuilt,
      (run fs scan allowPartial targetDirectory graph (some listed)).2 = .ok built →
      (run fs scan allowPartial' targetDirectory graph none).2 = .ok unbuilt →
      (built.verdictOf package.id = .forbidsUnsafeEverywhere ↔
        unbuilt.verdictOf package.id = .forbidsUnsafeEverywhere) ∧
      (unbuilt.verdictOf package.id = .unsafeDetected →
        built.verdictOf package.id = .unsafeDetected) ∧
      (built.verdictOf package.id = .noneDetectedButNotForbidden →
        unbuilt.verdictOf package.id = .noneDetectedButNotForbidden) := by
  have hset : ∀ files ∈ some listed, files.Nodup := by simpa using hset
  have hnone : ∀ files ∈ (none : Option (List Path)), files.Nodup := by simp
  constructor
  · intro hresolves
    exact ⟨(exists_run_iff hids hset).mpr ⟨hresolves, .inl rfl⟩,
      (exists_run_iff hids hnone).mpr ⟨hresolves.unbuilt, .inl rfl⟩⟩
  · intro allowPartial allowPartial' built unbuilt hbuilt hunbuilt
    obtain ⟨more, hmetrics, hmore⟩ := exists_covers hids hset hbuilt hmem hscans
    obtain ⟨fewer, hmetrics', hfewer⟩ :=
      exists_covers hids hnone hunbuilt hmem (hentry.scans hscans)
    have hwithin := hentry.within hfewer hmore
    rw [verdictOf, verdictOf, hmetrics, hmetrics']
    exact ⟨hwithin.forbids_iff.symm, hwithin.unsafe_of_unsafe, hwithin.none_of_none⟩

open Nested FileSystem in
/-- The file that is below both packages has unsafe code, and is no entry point. -/
theorem run_modes_agree_nested :
    let scan : ScanFile := fun file => .ok ⟨⟨if file = helper then 1 else 0, 0, 0, 0, 0⟩, false⟩
    (graph.packages.map (·.id)).Nodup ∧ sources.Nodup ∧ Nested.inner ∈ graph.packages ∧
    CompilesEntryPoints bare sources Nested.inner ∧
    Scans bare scan graph.packages (some generated) (some sources) Nested.inner ∧
    ∃ built unbuilt,
      (run bare scan true (some generated) graph (some sources)).2 = .ok built ∧
      (run bare scan true (some generated) graph none).2 = .ok unbuilt ∧
      (built.verdictOf Nested.inner.id = .forbidsUnsafeEverywhere ↔
        unbuilt.verdictOf Nested.inner.id = .forbidsUnsafeEverywhere) ∧
      (unbuilt.verdictOf Nested.inner.id = .unsafeDetected →
        built.verdictOf Nested.inner.id = .unsafeDetected) ∧
      (built.verdictOf Nested.inner.id = .noneDetectedButNotForbidden →
        unbuilt.verdictOf Nested.inner.id = .noneDetectedButNotForbidden) := by
  intro scan
  have hids : (graph.packages.map (·.id)).Nodup := by decide
  have hset : sources.Nodup := by decide
  have hmem : Nested.inner ∈ graph.packages := by decide
  have hentry : CompilesEntryPoints bare sources Nested.inner := by
    intro target ht _ file hfile
    rw [canonical_target Nested.inner hmem target ht] at hfile
    cases hfile
    revert target
    decide
  have hscans : Scans bare scan graph.packages (some generated) (some sources) Nested.inner :=
    fun _ _ => ⟨_, rfl⟩
  obtain ⟨hexist, hagree⟩ :=
    run_modes_agree bare scan (some generated) graph sources Nested.inner hids hset hmem hentry
      hscans
  obtain ⟨⟨built, hbuilt⟩, unbuilt, hunbuilt⟩ := hexist resolves
  exact ⟨hids, hset, hmem, hentry, hscans, built, unbuilt, hbuilt, hunbuilt,
    hagree true true built unbuilt hbuilt hunbuilt⟩

end UnsafeAudit.Aggregation
