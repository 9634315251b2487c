import UnsafeAudit.Proofs.Attribution.Failing
import UnsafeAudit.Proofs.Attribution.Modes
import UnsafeAudit.Proofs.FileSystem.Unresolved
import UnsafeAudit.Source.Scanner

/-!
# What partial results tolerate

Where partial results are allowed, a file that cannot be read or decoded costs its packages their
metrics and nothing else. But before a file is scanned its path is resolved, and a path that has no
canonical path ends the aggregation of all packages (`run_partial_error`). Only names with the null
character and links that come back to themselves do so; paths that are missing, dangling, no files or
no text are tolerated (`run_tolerates_files`). One link is enough (`run_aborts_at_self_link`).
-/

namespace UnsafeAudit

namespace FileSystem

variable {fs : FileSystem} {package : Package} {compiled : Option (List Path)} {path : Path}
  {includeTests : Bool} {e : ResolveError} {error : AuditError}

-- ---------------------------------------------------------------------------
-- Scanning one file
-- ---------------------------------------------------------------------------

theorem scanFile_error [Rust.Parser] (h : fs.scanFile includeTests path = .error error) :
    ∃ reason, error = .scan path reason := by
  rcases bind_eq_error_iff.mp h with hbytes | ⟨bytes, -, h⟩
  · obtain ⟨cause, -, rfl⟩ := mapError_eq_error_iff.mp hbytes
    exact ⟨_, rfl⟩
  · rcases bind_eq_error_iff.mp h with hsource | ⟨source, -, h⟩
    · obtain ⟨cause, -, rfl⟩ := mapError_eq_error_iff.mp hsource
      exact ⟨_, rfl⟩
    · cases h

/-- What can be scanned are the regular files that hold UTF-8. -/
theorem exists_scanFile_iff [Rust.Parser] :
    (∃ usage, fs.scanFile includeTests path = .ok usage) ↔
    ∃ bytes source, fs.stat path = .ok (.file bytes) ∧ Text.Utf8.decode bytes = .ok source := by
  constructor
  · rintro ⟨usage, h⟩
    obtain ⟨bytes, hbytes, h⟩ := of_bind_ok h
    obtain ⟨source, hsource, -⟩ := of_bind_ok h
    have hbytes := of_mapError_ok hbytes
    rw [readBytes] at hbytes
    split at hbytes
    · rename_i found hstat
      cases hbytes
      exact ⟨_, source, hstat, of_mapError_ok hsource⟩
    all_goals cases hbytes
  · rintro ⟨bytes, source, hstat, hsource⟩
    refine ⟨FileUsage.ofSource includeTests source, ?_⟩
    rw [scanFile, readBytes, hstat]
    simp only [mapError_ok, bind, Except.bind, hsource]
    rfl

-- ---------------------------------------------------------------------------
-- Paths that end an aggregation
-- ---------------------------------------------------------------------------

theorem targetFiles_error (h : fs.targetFiles package compiled = .error e) :
    ∃ target ∈ package.targets, fs.canonical target.srcPath = .error e := by
  rw [targetFiles] at h
  generalize ([] : List SourceFile) = found at h
  generalize package.targets = targets at h ⊢
  induction targets generalizing found with
  | nil => cases h
  | cons target rest ih =>
    rw [List.foldlM_cons] at h
    rcases bind_eq_error_iff.mp h with hstep | ⟨next, -, hrest⟩
    · rcases bind_eq_error_iff.mp hstep with hpath | ⟨path, -, hkept⟩
      · exact ⟨target, List.mem_cons_self, hpath⟩
      · split at hkept <;> cases hkept
    · obtain ⟨other, hother, hpath⟩ := ih next hrest
      exact ⟨other, List.mem_cons_of_mem _ hother, hpath⟩

end FileSystem

namespace Ownership

variable {fs : FileSystem} {packages : List Package} {targetDirectory : Option Path}
  {e : ResolveError}

theorem ofPackages_error (h : ofPackages fs packages targetDirectory = .error e) :
    (∃ directory ∈ targetDirectory, fs.canonical directory = .error e) ∨
      ∃ package ∈ packages, fs.canonical package.root = .error e := by
  rcases bind_eq_error_iff.mp h with hgenerated | ⟨generated, -, h⟩
  · cases targetDirectory with
    | none => cases hgenerated
    | some directory =>
      exact .inl ⟨directory, rfl, optionMapM_some_error_iff.mp hgenerated⟩
  · rcases bind_eq_error_iff.mp h with hroots | ⟨roots, -, h⟩
    · obtain ⟨package, hmem, hentry⟩ := exists_of_mapM_error hroots
      exact .inr ⟨package, hmem, bind_pure_eq_error_iff.mp hentry⟩
    · cases h

end Ownership

namespace Aggregation

section

variable {fs : FileSystem} {scan : ScanFile} {packages : List Package} {package : Package}
  {targetDirectory : Option Path} {compiled : Option (List Path)} {path : Path}
  {files : Package → Except ResolveError (List SourceFile)} {failure : Failure} {e : ResolveError}

/-- The paths that an aggregation resolves: those of targets and, in a build, the directories of
packages and of what is generated. -/
def Needs (packages : List Package) (targetDirectory : Option Path) (compiled : Option (List Path))
    (path : Path) : Prop :=
  (∃ package ∈ packages, ∃ target ∈ package.targets, path = target.srcPath) ∨
    compiled.isSome ∧ (path ∈ targetDirectory ∨ ∃ package ∈ packages, path = package.root)

theorem resolves_iff : Resolves fs packages targetDirectory compiled ↔
    ∀ path, Needs packages targetDirectory compiled path → ∃ c, fs.canonical path = .ok c := by
  constructor
  · rintro h path (⟨package, hmem, target, htarget, rfl⟩ | ⟨hbuilt, hdirectory | ⟨package, hmem, rfl⟩⟩)
    · exact h.targets package hmem target htarget
    · exact (h.directories hbuilt).1 path hdirectory
    · exact (h.directories hbuilt).2 package hmem
  · intro h
    refine ⟨fun package hmem target htarget => h _ (.inl ⟨package, hmem, target, htarget, rfl⟩),
      fun hbuilt => ⟨fun directory hdirectory => h _ (.inr ⟨hbuilt, .inl hdirectory⟩),
        fun package hmem => h _ (.inr ⟨hbuilt, .inr ⟨package, hmem, rfl⟩⟩)⟩⟩

theorem filesBy_error (h : filesBy fs packages compiled targetDirectory = .error e) :
    ∃ path, Needs packages targetDirectory compiled path ∧ fs.canonical path = .error e := by
  cases compiled with
  | none => cases h
  | some listed =>
    rcases bind_eq_error_iff.mp h with howners | ⟨owners, -, h⟩
    · rcases Ownership.ofPackages_error howners with ⟨directory, hmem, hpath⟩ | ⟨package, hmem, hpath⟩
      · exact ⟨directory, .inr ⟨rfl, .inl hmem⟩, hpath⟩
      · exact ⟨_, .inr ⟨rfl, .inr ⟨package, hmem, rfl⟩⟩, hpath⟩
    · cases h

theorem files_error (hfiles : filesBy fs packages compiled targetDirectory = .ok files)
    (h : files package = .error e) :
    ∃ target ∈ package.targets, fs.canonical target.srcPath = .error e := by
  cases compiled with
  | none =>
    cases hfiles
    exact FileSystem.targetFiles_error (bind_pure_eq_error_iff.mp h)
  | some listed =>
    obtain ⟨owners, -, hfiles⟩ := of_bind_ok hfiles
    cases hfiles
    rcases bind_eq_error_iff.mp h with htargets | ⟨roots, -, h⟩
    · exact FileSystem.targetFiles_error htargets
    · cases h

theorem scanPackages_partial_error
    (h : (scanPackages files scan true packages).2 = .error failure) :
    ∃ package ∈ packages, ∃ e, files package = .error e ∧ failure = .fault (.unresolved e) := by
  induction packages with
  | nil => cases h
  | cons package rest ih =>
    cases hfound : files package with
    | error e =>
      rw [scanPackages, hfound] at h
      exact ⟨package, List.mem_cons_self, e, hfound, (Except.error.inj h).symm⟩
    | ok found =>
      have hrest : (scanPackages files scan true rest).2 = .error failure := by
        cases hscan : scanPackage scan package.id found with
        | error e =>
          rw [scanPackages_cons_error hfound hscan] at h
          exact h
        | ok metrics =>
          rw [scanPackages_cons_ok hfound hscan] at h
          exact map_eq_error_iff.mp h
      obtain ⟨other, hmem, hother⟩ := ih hrest
      exact ⟨other, List.mem_cons_of_mem _ hmem, hother⟩

variable {graph : DependencyGraph} {found : Aggregation}

/-- Where partial results are allowed, only a path without a canonical path ends an aggregation. -/
theorem run_partial_error
    (h : (run fs scan true targetDirectory graph compiled).2 = .error failure) :
    ∃ path e, Needs graph.packages targetDirectory compiled path ∧ fs.canonical path = .error e ∧
      failure = .fault (.unresolved e) := by
  rw [run] at h
  cases hfiles : filesBy fs graph.packages compiled targetDirectory with
  | error e =>
    rw [hfiles] at h
    obtain ⟨path, hneeds, hpath⟩ := filesBy_error hfiles
    exact ⟨path, e, hneeds, hpath, (Except.error.inj h).symm⟩
  | ok files =>
    simp only [hfiles] at h
    obtain ⟨package, hmem, e, herror, rfl⟩ := scanPackages_partial_error (map_eq_error_iff.mp h)
    obtain ⟨target, htarget, hpath⟩ := files_error hfiles herror
    exact ⟨_, e, .inl ⟨package, hmem, target, htarget, rfl⟩, hpath, rfl⟩

theorem exists_run_partial_iff (hids : (graph.packages.map (·.id)).Nodup) :
    (∃ found, run fs scan true targetDirectory graph compiled = (found.warnings, .ok found)) ↔
      Resolves fs graph.packages targetDirectory compiled := by
  constructor
  · rintro ⟨found, hrun⟩
    obtain ⟨files, hfiles, -, hmetrics⟩ := run_ok_iff.mp (congrArg (·.2) hrun)
    refine ⟨fun package hmem => ?_, exists_filesBy_iff.mp ⟨files, hfiles⟩⟩
    exact (exists_files_iff hfiles).mp ((scanPackages_ok_iff.mp hmetrics).1 package hmem)
  · intro hresolves
    obtain ⟨files, hfiles, hall⟩ := hresolves.exists_files hids
    exact ⟨⟨_, _⟩, run_partial hfiles hall⟩

theorem firstFailure?_eq_some {found : List SourceFile} {error : AuditError}
    (h : firstFailure? scan found = some error) :
    ∃ file ∈ found, scan file.path = .error error := by
  obtain ⟨file, hmem, hfails⟩ := List.exists_of_findSome?_eq_some h
  refine ⟨file, hmem, ?_⟩
  cases hscan : scan file.path with
  | ok usage =>
    rw [hscan] at hfails
    cases hfails
  | error first =>
    rw [hscan] at hfails
    cases hfails
    rfl

theorem exists_warning (hids : (graph.packages.map (·.id)).Nodup)
    (hset : ∀ listed ∈ compiled, listed.Nodup)
    (hresolves : Resolves fs graph.packages targetDirectory compiled)
    (hrun : (run fs scan true targetDirectory graph compiled).2 = .ok found)
    (hmem : package ∈ graph.packages)
    (hscans : ¬ Scans fs scan graph.packages targetDirectory compiled package) :
    found.metricsOf? package.id = none ∧ ∃ file error,
      Counts fs graph.packages targetDirectory compiled package file ∧
        scan file = .error error ∧ s!"{package.id}: {error.message}" ∈ found.warnings := by
  obtain ⟨files, hfiles, hall⟩ := hresolves.exists_files hids
  have hnone : scanned? files scan package = none := by
    rw [← Option.not_isSome_iff_eq_none,
      isSome_scanned?_iff hfiles hids hset hmem (hresolves.targets package hmem)]
    exact hscans
  rw [run_partial hfiles hall] at hrun
  cases hrun
  refine ⟨(metricsOf?_eq hids rfl hmem).trans hnone, ?_⟩
  rcases scanPackage_outcome scan package.id (countedFiles fs graph.packages targetDirectory
    compiled package) with ⟨error, -, hfirst⟩ | ⟨metrics, hscan, -⟩
  · obtain ⟨file, hfile, herror⟩ := firstFailure?_eq_some hfirst
    refine ⟨file.path, error, ?_, herror, List.mem_filterMap.mpr ⟨package, hmem, ?_⟩⟩
    · exact (((hresolves.mem_countedFiles hids hset hmem).2 file).mp hfile).1
    · rw [warning?, hfirst]
      rfl
  · rw [scanned?_ok (hall package hmem) hscan] at hnone
    cases hnone

end

/-- What an aggregation tolerates where partial results are allowed. It has a result exactly if all
paths that it resolves have canonical paths, and nothing else fails it; a path has none only if a
name on its way holds the null character or it comes back to a link. Whatever else is the matter
with a file, scanning it fails as such. A package all of whose files can be scanned has metrics that
list them, and every other package has none, and a warning names a file of it.

Two things are outside of this: a syntax tree that is deeper than the stack of the run time, on which
the walk over it would end (`FileSystem.scanFile`), and a path with the null character among the
compiled files (`FileSystem.readBytes`). -/
theorem run_tolerates_files [Rust.Parser] (fs : FileSystem) (includeTests : Bool)
    (targetDirectory : Option Path) (graph : DependencyGraph) (compiled : Option (List Path))
    (hids : (graph.packages.map (·.id)).Nodup) (hset : ∀ listed ∈ compiled, listed.Nodup) :
    let scan := fs.scanFile includeTests
    let needs := Needs graph.packages targetDirectory compiled
    let counts := Counts fs graph.packages targetDirectory compiled
    ((∃ found, run fs scan true targetDirectory graph compiled = (found.warnings, .ok found)) ↔
      ∀ path, needs path → ∃ result, fs.canonical path = .ok result) ∧
    (∀ failure, (run fs scan true targetDirectory graph compiled).2 = .error failure →
      ∃ path error, needs path ∧ fs.canonical path = .error error ∧
        failure = .fault (.unresolved error)) ∧
    (fs.WellFormed → ∀ path error, fs.canonical path = .error error →
      error = .nullName ∨
        fs.ComesBack path ∧ ∃ loc, error = .loop (Path.atRoot loc).toString) ∧
    (∀ path error, scan path = .error error → ∃ reason, error = .scan path reason) ∧
    (∀ path, (∃ usage, scan path = .ok usage) ↔
      ∃ bytes source, fs.stat path = .ok (.file bytes) ∧ Text.Utf8.decode bytes = .ok source) ∧
    ∀ found, (run fs scan true targetDirectory graph compiled).2 = .ok found →
      ∀ package ∈ graph.packages,
        ((∀ file, counts package file → ∃ usage, scan file = .ok usage) →
          ∃ metrics, found.metricsOf? package.id = some metrics ∧
            Covers fs scan graph.packages targetDirectory compiled package metrics) ∧
        ((∃ file, counts package file ∧ ∀ usage, scan file ≠ .ok usage) →
          found.metricsOf? package.id = none ∧ ∃ file reason, counts package file ∧
            s!"{package.id}: {(AuditError.scan file reason).message}" ∈ found.warnings) := by
  intro scan needs counts
  refine ⟨(exists_run_partial_iff hids).trans resolves_iff, fun failure => run_partial_error,
    fun hfs path error => FileSystem.canonical_error hfs,
    fun path error => FileSystem.scanFile_error, fun path => FileSystem.exists_scanFile_iff,
    fun found hrun package hmem => ⟨fun hscans => ?_, ?_⟩⟩
  · exact exists_covers hids hset hrun hmem hscans
  · rintro ⟨file, hfile, hfails⟩
    have hresolves := ((exists_run_iff hids hset).mp ⟨found, hrun⟩).1
    have hscans : ¬ Scans fs scan graph.packages targetDirectory compiled package := fun hscans =>
      (hscans file hfile).elim hfails
    obtain ⟨hnone, other, error, hother, herror, hwarning⟩ :=
      exists_warning hids hset hresolves hrun hmem hscans
    obtain ⟨reason, rfl⟩ := FileSystem.scanFile_error herror
    exact ⟨hnone, other, reason, hother, hwarning⟩

/-- A parser that is right about empty files. No others are scanned below. -/
local instance emptyFiles : Rust.Parser := ⟨fun _ => .node .sourceFile []⟩

open Nested FileSystem in
/-- Where nothing is there, the inner package leaves a warning instead of metrics. -/
theorem run_tolerates_files_nested :
    (graph.packages.map (·.id)).Nodup ∧
    ∃ found, run bare (bare.scanFile false) true none graph none = (found.warnings, .ok found) ∧
      found.metricsOf? Nested.inner.id = none ∧ ∃ file reason,
        Counts bare graph.packages none none Nested.inner file ∧
        s!"{Nested.inner.id}: {(AuditError.scan file reason).message}" ∈ found.warnings := by
  have hids : (graph.packages.map (·.id)).Nodup := by decide
  have hinner : Nested.inner ∈ graph.packages := by decide
  obtain ⟨hexists, -, -, -, hscan, hfound⟩ :=
    run_tolerates_files bare false none graph none hids (by simp)
  obtain ⟨found, hrun⟩ := hexists.mpr (by
    rintro path (⟨package, hmem, target, htarget, rfl⟩ | ⟨⟨⟩, -⟩)
    exact ⟨_, canonical_target package hmem target htarget⟩)
  have hlost := (hfound found (congrArg (·.2) hrun) Nested.inner hinner).2
  refine ⟨hids, found, hrun, hlost ⟨_, ⟨_, List.mem_cons_self, rfl,
    canonical_target Nested.inner hinner _ List.mem_cons_self⟩, fun usage husage => ?_⟩⟩
  obtain ⟨bytes, source, hstat, -⟩ := (hscan _).mp ⟨usage, husage⟩
  exact stat_bare_ne_file _ _ hstat

-- ---------------------------------------------------------------------------
-- A link that leads to itself
-- ---------------------------------------------------------------------------

namespace Looping

open FileSystem (IsPlain)

def state : FileSystem := ⟨.cons "bad.rs" (.link "bad.rs") (.cons "good.rs" (.file []) .nil), []⟩

def package (name file : String) : Package :=
  ⟨⟨name, "1", none, name⟩, .atRoot [name, "Cargo.toml"], none, none, [],
    [⟨name, .lib, .atRoot [file]⟩]⟩

def bad : Package := package "bad" "bad.rs"
def good : Package := package "good" "good.rs"

def graph : DependencyGraph := ⟨[bad, good], []⟩

theorem canonical_bad : state.canonical (.atRoot ["bad.rs"]) = .error (.loop "/bad.rs") :=
  FileSystem.canonical_self_link (by decide) (by decide)
    ⟨by decide, by decide, _, rfl, by decide, rfl⟩

theorem stat_good : state.stat (.atRoot ["good.rs"]) = .ok (.file []) :=
  FileSystem.stat_atRoot (by decide) rfl (by decide) (Node.file_ne_link [])

theorem canonical_good : state.canonical (.atRoot ["good.rs"]) = .ok (.atRoot ["good.rs"]) :=
  FileSystem.canonical_atRoot rfl (by decide) (Node.file_ne_link [])

theorem resolves_good : Resolves state [good] none none where
  targets := by
    simp only [List.forall_mem_singleton, FileSystem.Locates, good, package]
    exact ⟨_, canonical_good⟩
  directories := nofun

end Looping

open Looping in
/-- A library root that is a link to itself ends the aggregation, although partial results are
allowed and the file of the other package can be scanned. -/
theorem run_aborts_at_self_link :
    (graph.packages.map (·.id)).Nodup ∧
    (∃ usage, state.scanFile false (.atRoot ["good.rs"]) = .ok usage) ∧
    (∃ found, run state (state.scanFile false) true none ⟨[good], []⟩ none =
        (found.warnings, .ok found) ∧ ∃ metrics, found.metricsOf? good.id = some metrics) ∧
    run state (state.scanFile false) true none graph none =
      ([], .error (.fault (.unresolved (.loop "/bad.rs")))) := by
  have hscan : ∃ usage, state.scanFile false (.atRoot ["good.rs"]) = .ok usage :=
    FileSystem.exists_scanFile_iff.mpr ⟨[], [], stat_good, rfl⟩
  have hids : ([good].map (·.id)).Nodup := by decide
  obtain ⟨found, hrun⟩ : ∃ found, run state (state.scanFile false) true none ⟨[good], []⟩ none =
      (found.warnings, .ok found) := (exists_run_partial_iff hids).mpr resolves_good
  have hscans : Scans state (state.scanFile false) [good] none none good := by
    rintro file ⟨target, htarget, -, hleads⟩
    obtain rfl := List.mem_singleton.mp htarget
    obtain rfl := Except.ok.inj (canonical_good.symm.trans hleads)
    exact hscan
  obtain ⟨metrics, hmetrics, -⟩ := exists_covers hids (by simp) (congrArg (·.2) hrun)
    (List.mem_singleton_self good) hscans
  refine ⟨by decide, hscan, ⟨found, hrun, metrics, hmetrics⟩, ?_⟩
  have hfiles : entryPointFiles state bad = .error (.loop "/bad.rs") := by
    simp only [entryPointFiles, FileSystem.targetFiles, bad, package, List.foldlM_cons,
      canonical_bad]
    rfl
  simp only [run, filesBy, graph, scanPackages, hfiles]
  rfl

end Aggregation

end UnsafeAudit
