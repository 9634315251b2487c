import UnsafeAudit.Proofs.Attribution.Counted

/-!
# Files that cannot be scanned

A file that cannot be scanned costs the packages that list it their metrics, and
no other package anything. Where partial results are allowed each of them leaves
a warning about its first such file; where they are not, the first of all ends
the aggregation (`run_contains_failures`).
-/

namespace UnsafeAudit

theorem bind_pure_eq_error_iff {part : Except ε α} {g : α → β} {e : ε} :
    (part >>= fun a => pure (g a)) = .error e ↔ part = .error e := by
  cases part <;> simp [bind, Except.bind, pure, Except.pure]

namespace Aggregation

variable {fs : FileSystem} {scan other : ScanFile} {packages : List Package} {package : Package}
  {targetDirectory : Option Path} {compiled : Option (List Path)} {id : PackageId}
  {found : List SourceFile} {metrics : PackageMetrics} {e : AuditError}
  {files : Package → Except ResolveError (List SourceFile)} {filesOf : Package → List SourceFile}

-- ---------------------------------------------------------------------------
-- The files of a package, in order
-- ---------------------------------------------------------------------------

open Classical in
/-- The files that count for a package, as they are scanned: its roots in the order of its targets,
then what else it owns in path order. -/
noncomputable def countedFiles (fs : FileSystem) (packages : List Package)
    (targetDirectory : Option Path) (compiled : Option (List Path)) (package : Package) :
    List SourceFile :=
  match compiled with
  | none => (fs.declaredRoots package.targets none).filter (·.role.isEntryPoint)
  | some compiled =>
    let sources := Path.sort (compiled.filter (·.suffix = sourceSuffix))
    let others := sources.filter fun file =>
      fs.Owns packages targetDirectory file package ∧ ¬ fs.IsRoot package file
    fs.declaredRoots package.targets (some compiled) ++ others.map (⟨·, .other⟩)

theorem builtFiles_eq (h : Ownership.ofPackages fs packages targetDirectory = .ok owners)
    (hids : (packages.map (·.id)).Nodup) (hmem : package ∈ packages) (compiled : List Path) :
    builtFiles fs owners compiled package =
      countedFiles fs packages targetDirectory (some compiled) package := by
  simp only [builtFiles, countedFiles, Ownership.filesOf, List.filter_filter]
  congr 2
  refine List.filter_congr fun file hfile => ?_
  have hcompiled : file ∈ compiled := by
    rw [Path.sort, List.mem_mergeSort] at hfile
    exact (List.mem_filter.mp hfile).1
  have hroot : (fs.declaredRoots package.targets (some compiled)).any (·.path = file) = true ↔
      fs.IsRoot package file := by
    rw [any_declaredRoots]
    exact and_iff_left hcompiled
  rw [Bool.eq_iff_iff]
  simp only [Bool.and_eq_true, Bool.not_eq_true', ← Bool.not_eq_true, hroot, decide_eq_true_eq,
    owner?_eq_id_iff h hids hmem]
  exact and_comm

theorem files_eq (h : filesBy fs packages compiled targetDirectory = .ok files)
    (hids : (packages.map (·.id)).Nodup) (hmem : package ∈ packages)
    (hlocates : fs.Locates package.targets) :
    files package = .ok (countedFiles fs packages targetDirectory compiled package) := by
  cases compiled with
  | none =>
    cases h
    exact entryPointFiles_eq hlocates
  | some compiled =>
    obtain ⟨owners, howners, h⟩ := of_bind_ok h
    cases h
    rw [compiledFiles_eq hlocates, builtFiles_eq howners hids hmem]

-- ---------------------------------------------------------------------------
-- The first file that cannot be scanned
-- ---------------------------------------------------------------------------

def firstFailure? (scan : ScanFile) (files : List SourceFile) : Option AuditError :=
  files.findSome? fun file => failure? (scan file.path)

theorem scanPackage_eq_error_iff :
    scanPackage scan id found = .error e ↔ firstFailure? scan found = some e := by
  have hstep : ∀ file : SourceFile, failure? (do
      return (file.path, FileMetrics.mk file (← scan file.path)) : Except _ _) =
      failure? (scan file.path) := by
    intro file
    cases scan file.path <;> rfl
  rw [firstFailure?, ← funext hstep, ← mapM_eq_error_iff]
  exact bind_pure_eq_error_iff

theorem files_of_scanPackage_ok (h : scanPackage scan id found = .ok metrics) :
    metrics.files.map (·.2.file) = found ∧
      ∀ listed ∈ metrics.files, listed.1 = listed.2.file.path ∧
        scan listed.1 = .ok listed.2.usage := by
  obtain ⟨entries, hentries, h'⟩ := of_bind_ok h
  cases h'
  refine ⟨?_, ?_⟩
  · have hmap := map_of_mapM_ok (g := (·.2.file)) (k := fun file : SourceFile => file) hentries
      fun file entry h => (entry_ok_iff.mp h).2.1
    rwa [List.map_id'] at hmap
  · rintro ⟨path, entry⟩ hlisted
    obtain ⟨-, hpath, hscan⟩ := ((of_scanPackage_ok h).2.2 path entry).mp hlisted
    exact ⟨hpath.symm, hscan⟩

theorem scanPackage_congr (h : ∀ file ∈ found, other file.path = scan file.path) :
    scanPackage other id found = scanPackage scan id found := by
  have hentries : found.mapM (fun file => do
      return (file.path, FileMetrics.mk file (← other file.path)) : _ → Except AuditError _) =
      found.mapM fun file => do
        return (file.path, FileMetrics.mk file (← scan file.path)) := by
    induction found with
    | nil => rfl
    | cons file rest ih =>
      rw [List.mapM_cons, List.mapM_cons, h file List.mem_cons_self,
        ih fun f hf => h f (List.mem_cons_of_mem _ hf)]
  rw [scanPackage, scanPackage, hentries]

theorem scanPackage_outcome (scan : ScanFile) (id : PackageId) (found : List SourceFile) :
    (∃ e, scanPackage scan id found = .error e ∧ firstFailure? scan found = some e) ∨
      ∃ metrics, scanPackage scan id found = .ok metrics ∧ firstFailure? scan found = none := by
  cases hscan : scanPackage scan id found with
  | error e => exact .inl ⟨e, rfl, scanPackage_eq_error_iff.mp hscan⟩
  | ok metrics =>
    refine .inr ⟨metrics, rfl, Option.eq_none_iff_forall_ne_some.mpr fun e he => ?_⟩
    rw [scanPackage_eq_error_iff.mpr he] at hscan
    cases hscan

-- ---------------------------------------------------------------------------
-- One package after the other
-- ---------------------------------------------------------------------------

def warning? (scan : ScanFile) (package : Package) (found : List SourceFile) : Option String :=
  (firstFailure? scan found).map fun e => s!"{package.id}: {e.message}"

theorem scanned?_ok (hfound : files package = .ok found)
    (hscan : scanPackage scan package.id found = .ok metrics) :
    scanned? files scan package = some metrics := scanned?_eq_some_iff.mpr ⟨found, hfound, hscan⟩

theorem scanned?_error (hfound : files package = .ok found)
    (hscan : scanPackage scan package.id found = .error e) :
    scanned? files scan package = none := by
  rw [scanned?, hfound]
  simp only [hscan]
  rfl

theorem scanned?_congr (hfound : files package = .ok found)
    (h : ∀ file ∈ found, other file.path = scan file.path) :
    scanned? files other package = scanned? files scan package := by
  rw [scanned?, scanned?, hfound]
  exact congrArg Except.toOption (scanPackage_congr h)

theorem scanPackages_cons_ok (hfound : files package = .ok found)
    (hscan : scanPackage scan package.id found = .ok metrics) (allowPartial : Bool)
    (rest : List Package) :
    scanPackages files scan allowPartial (package :: rest) =
      ((scanPackages files scan allowPartial rest).1,
        (scanPackages files scan allowPartial rest).2.map (metrics :: ·)) := by
  rw [scanPackages, hfound]
  simp only [hscan]

theorem scanPackages_cons_error (hfound : files package = .ok found)
    (hscan : scanPackage scan package.id found = .error e) (allowPartial : Bool)
    (rest : List Package) :
    scanPackages files scan allowPartial (package :: rest) =
      if allowPartial then
        (s!"{package.id}: {e.message}" :: (scanPackages files scan allowPartial rest).1,
          (scanPackages files scan allowPartial rest).2)
      else ([], .error (.audit e)) := by
  rw [scanPackages, hfound]
  simp only [hscan]

/-- With partial results allowed every package is scanned, and those without metrics leave a
warning each. -/
theorem scanPackages_partial (h : ∀ package ∈ packages, files package = .ok (filesOf package)) :
    scanPackages files scan true packages =
      (packages.filterMap fun package => warning? scan package (filesOf package),
        .ok (packages.filterMap (scanned? files scan))) := by
  induction packages with
  | nil => rfl
  | cons package rest ih =>
    obtain ⟨hfound, hrest⟩ := List.forall_mem_cons.mp h
    rw [List.filterMap_cons, List.filterMap_cons, warning?]
    rcases scanPackage_outcome scan package.id (filesOf package) with
      ⟨e, hscan, hfirst⟩ | ⟨metrics, hscan, hfirst⟩
    · rw [scanPackages_cons_error hfound hscan, ih hrest, scanned?_error hfound hscan, hfirst]
      rfl
    · rw [scanPackages_cons_ok hfound hscan, ih hrest, scanned?_ok hfound hscan, hfirst]
      rfl

/-- With partial results refused the first failure of all ends the scan. -/
theorem scanPackages_strict (h : ∀ package ∈ packages, files package = .ok (filesOf package)) :
    scanPackages files scan false packages =
      match packages.findSome? fun package => firstFailure? scan (filesOf package) with
      | some e => ([], .error (.audit e))
      | none => ([], .ok (packages.filterMap (scanned? files scan))) := by
  induction packages with
  | nil => rfl
  | cons package rest ih =>
    obtain ⟨hfound, hrest⟩ := List.forall_mem_cons.mp h
    rw [List.findSome?_cons, List.filterMap_cons]
    rcases scanPackage_outcome scan package.id (filesOf package) with
      ⟨e, hscan, hfirst⟩ | ⟨metrics, hscan, hfirst⟩
    · rw [scanPackages_cons_error hfound hscan, hfirst]
      rfl
    · rw [scanPackages_cons_ok hfound hscan, ih hrest, scanned?_ok hfound hscan, hfirst]
      cases rest.findSome? fun package => firstFailure? scan (filesOf package) <;> rfl

theorem map_packageId_scanned (h : ∀ package ∈ packages, files package = .ok (filesOf package)) :
    (packages.filterMap (scanned? files scan)).map (·.packageId) =
      (packages.filter fun package => (firstFailure? scan (filesOf package)).isNone).map (·.id) := by
  induction packages with
  | nil => rfl
  | cons package rest ih =>
    obtain ⟨hfound, hrest⟩ := List.forall_mem_cons.mp h
    rw [List.filterMap_cons, List.filter_cons]
    rcases scanPackage_outcome scan package.id (filesOf package) with
      ⟨e, hscan, hfirst⟩ | ⟨metrics, hscan, hfirst⟩
    · rw [scanned?_error hfound hscan, hfirst]
      exact ih hrest
    · rw [scanned?_ok hfound hscan, hfirst]
      exact congrArg₂ List.cons (of_scanPackage_ok hscan).1 (ih hrest)

-- ---------------------------------------------------------------------------
-- A whole aggregation
-- ---------------------------------------------------------------------------

section
variable {graph : DependencyGraph}

theorem Resolves.exists_files (h : Resolves fs graph.packages targetDirectory compiled)
    (hids : (graph.packages.map (·.id)).Nodup) :
    ∃ files, filesBy fs graph.packages compiled targetDirectory = .ok files ∧
      ∀ package ∈ graph.packages,
        files package = .ok (countedFiles fs graph.packages targetDirectory compiled package) := by
  obtain ⟨files, hfiles⟩ := exists_filesBy_iff.mpr h.directories
  exact ⟨files, hfiles, fun package hmem => files_eq hfiles hids hmem (h.targets package hmem)⟩

theorem Resolves.mem_countedFiles (h : Resolves fs graph.packages targetDirectory compiled)
    (hids : (graph.packages.map (·.id)).Nodup) (hset : ∀ listed ∈ compiled, listed.Nodup)
    (hmem : package ∈ graph.packages) :
    ((countedFiles fs graph.packages targetDirectory compiled package).map (·.path)).Nodup ∧
      ∀ file, file ∈ countedFiles fs graph.packages targetDirectory compiled package ↔
        Counts fs graph.packages targetDirectory compiled package file.path ∧
          file.role = fs.roleOf package.targets file.path := by
  obtain ⟨files, hfiles, hall⟩ := h.exists_files hids
  exact of_files_ok hfiles hids hset hmem (hall package hmem)

theorem run_partial (hfiles : filesBy fs graph.packages compiled targetDirectory = .ok files)
    (hall : ∀ package ∈ graph.packages, files package = .ok (filesOf package)) :
    let warnings := graph.packages.filterMap fun p => warning? scan p (filesOf p)
    run fs scan true targetDirectory graph compiled =
      (warnings, .ok ⟨graph.packages.filterMap (scanned? files scan), warnings⟩) := by
  rw [run, hfiles]
  simp only [scanPackages_partial hall]
  rfl

theorem run_strict (hfiles : filesBy fs graph.packages compiled targetDirectory = .ok files)
    (hall : ∀ package ∈ graph.packages, files package = .ok (filesOf package)) :
    run fs scan false targetDirectory graph compiled =
      match graph.packages.findSome? fun p => firstFailure? scan (filesOf p) with
      | some e => ([], .error (.audit e))
      | none => ([], .ok ⟨graph.packages.filterMap (scanned? files scan), []⟩) := by
  rw [run, hfiles]
  simp only [scanPackages_strict hall]
  cases graph.packages.findSome? fun p => firstFailure? scan (filesOf p) <;> rfl

end

/-- A file that cannot be scanned is of no consequence for packages of which it is no file. The
files of a package are those that count for it (`countedFiles`). Where partial results are allowed,
metrics are there in graph order for the packages none of whose files fails, each with all its
files, and for every other package there is one warning, about its first file that fails; what is
there for a package depends on what its own files are scanned to, and on nothing else. Where partial
results are refused, the first failure of the first such package ends the aggregation; without one
the result is the same, and there are no warnings. -/
theorem run_contains_failures (fs : FileSystem) (scan : ScanFile) (targetDirectory : Option Path)
    (graph : DependencyGraph) (compiled : Option (List Path))
    (hids : (graph.packages.map (·.id)).Nodup) (hset : ∀ listed ∈ compiled, listed.Nodup)
    (hresolves : Resolves fs graph.packages targetDirectory compiled) :
    let filesOf := countedFiles fs graph.packages targetDirectory compiled
    (∀ package ∈ graph.packages, ((filesOf package).map (·.path)).Nodup ∧
      ∀ file, file ∈ filesOf package ↔
        Counts fs graph.packages targetDirectory compiled package file.path ∧
          file.role = fs.roleOf package.targets file.path) ∧
    ∃ found, run fs scan true targetDirectory graph compiled = (found.warnings, .ok found) ∧
      found.metrics.map (·.packageId) =
        (graph.packages.filter fun p => (firstFailure? scan (filesOf p)).isNone).map (·.id) ∧
      (∀ package ∈ graph.packages, ∀ metrics, found.metricsOf? package.id = some metrics →
        metrics.files.map (·.2.file) = filesOf package ∧
        ∀ listed ∈ metrics.files, listed.1 = listed.2.file.path ∧
          scan listed.1 = .ok listed.2.usage) ∧
      found.warnings = graph.packages.filterMap (fun p => warning? scan p (filesOf p)) ∧
      (∀ package ∈ graph.packages, ∀ other : ScanFile,
        (∀ file, Counts fs graph.packages targetDirectory compiled package file →
          other file = scan file) →
        ∀ changed, (run fs other true targetDirectory graph compiled).2 = .ok changed →
          changed.metricsOf? package.id = found.metricsOf? package.id) ∧
      run fs scan false targetDirectory graph compiled =
        match graph.packages.findSome? fun p => firstFailure? scan (filesOf p) with
        | some e => ([], .error (.audit e))
        | none => ([], .ok found) := by
  intro filesOf
  obtain ⟨files, hfiles, hall⟩ := hresolves.exists_files hids
  have hmetrics : ∀ scan package, package ∈ graph.packages → ∀ aggregation : Aggregation,
      aggregation.metrics = graph.packages.filterMap (scanned? files scan) →
      aggregation.metricsOf? package.id = scanned? files scan package :=
    fun _ _ hmem _ h => metricsOf?_eq hids h hmem
  refine ⟨fun package hmem => hresolves.mem_countedFiles hids hset hmem,
    ⟨graph.packages.filterMap (scanned? files scan),
      graph.packages.filterMap fun p => warning? scan p (filesOf p)⟩,
    ?_, map_packageId_scanned hall, ?_, rfl, ?_, ?_⟩
  · exact run_partial hfiles hall
  · intro package hmem metrics h
    rw [hmetrics scan package hmem _ rfl, scanned?_eq_some_iff] at h
    obtain ⟨found, hfound, hscan⟩ := h
    rw [hall package hmem] at hfound
    cases hfound
    exact files_of_scanPackage_ok hscan
  · intro package hmem other hagree changed hrun
    rw [run_partial hfiles hall] at hrun
    cases hrun
    rw [hmetrics other package hmem _ rfl, hmetrics scan package hmem _ rfl]
    refine scanned?_congr (hall package hmem) fun file hfile => hagree _ ?_
    exact (((hresolves.mem_countedFiles hids hset hmem).2 file).mp hfile).1
  · rw [run_strict hfiles hall]
    cases hfirst : graph.packages.findSome? fun p => firstFailure? scan (filesOf p) with
    | some e => rfl
    | none =>
      have hnone : graph.packages.filterMap (fun p => warning? scan p (filesOf p)) = [] :=
        List.filterMap_eq_nil_iff.mpr fun p hp =>
          Option.map_eq_none_iff.mpr (List.findSome?_eq_none_iff.mp hfirst p hp)
      rw [hnone]

open FileSystem (bare) in
theorem Nested.owns_helper :
    bare.Owns Nested.graph.packages (some generated) helper inner where
  not_generated := not_generated
  longest := by
    refine ⟨[outer], [], inner.root, rfl, ⟨canonical_root inner (by decide), by decide⟩, ?_, nofun⟩
    intro p hp r hr
    obtain rfl := List.mem_singleton.mp hp
    rw [hr.unique ⟨canonical_root outer (by decide), by decide⟩]
    decide

open Nested FileSystem in
/-- The file that is below both packages cannot be scanned, and the package that owns it has no
metrics. -/
theorem run_contains_failures_nested :
    let scan : ScanFile := fun file =>
      if file = helper then .error (.scan file "no Rust") else forbidding file
    let filesOf := countedFiles bare graph.packages (some generated) (some sources)
    (graph.packages.map (·.id)).Nodup ∧ sources.Nodup ∧
    Resolves bare graph.packages (some generated) (some sources) ∧
    ∃ found, run bare scan true (some generated) graph (some sources) =
        (found.warnings, .ok found) ∧
      found.metrics.map (·.packageId) =
        (graph.packages.filter fun p => (firstFailure? scan (filesOf p)).isNone).map (·.id) ∧
      found.metricsOf? inner.id = none := by
  intro scan filesOf
  have hids : (graph.packages.map (·.id)).Nodup := by decide
  have hset : sources.Nodup := by decide
  obtain ⟨hfiles, found, hrun, hids', hmetrics, -⟩ := run_contains_failures bare scan
    (some generated) graph (some sources) hids (fun listed h => by cases h; exact hset) resolves
  refine ⟨hids, hset, resolves, found, hrun, hids', ?_⟩
  refine Option.eq_none_iff_forall_ne_some.mpr fun metrics h => ?_
  obtain ⟨hlists, hscans⟩ := hmetrics inner (by decide) metrics h
  have hcounts : Counts bare graph.packages (some generated) (some sources) inner helper :=
    ⟨by decide, .inr ⟨by decide, owns_helper⟩⟩
  have hlisted := ((hfiles inner (by decide)).2 ⟨helper, bare.roleOf inner.targets helper⟩).mpr ⟨hcounts, Eq.refl _⟩
  rw [← hlists] at hlisted
  obtain ⟨listed, hmem, hfile⟩ := List.mem_map.mp hlisted
  obtain ⟨hpath, hscan⟩ := hscans listed hmem
  rw [hpath, hfile] at hscan
  simp [scan] at hscan

end Aggregation

end UnsafeAudit
