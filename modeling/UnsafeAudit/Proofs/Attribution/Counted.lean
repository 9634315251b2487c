import UnsafeAudit.Proofs.Attribution.Owners
import UnsafeAudit.Proofs.Attribution.Roots
import UnsafeAudit.Proofs.Attribution.Scanned
import UnsafeAudit.Proofs.FileSystem.Bare

/-!
# Counted files

Which files count for which package is said without the search for them: in a
build, those compiled that are a root of the package or are Rust files that it
owns, and without one its entry points (`Counts`). The metrics of a package list
just these, each once, in the role that its targets give to it
(`run_counts`).
-/

namespace UnsafeAudit.Aggregation

open FileSystem (IsRoot Owns Holds IsGenerated Locates)

/-- A file counts for a package, in a build or without one. -/
def Counts (fs : FileSystem) (packages : List Package) (targetDirectory : Option Path)
    (compiled : Option (List Path)) (package : Package) (file : Path) : Prop :=
  match compiled with
  | none => ∃ target ∈ package.targets, target.kind.role.isEntryPoint = true ∧
      fs.canonical target.srcPath = .ok file
  | some compiled => file ∈ compiled ∧ (fs.IsRoot package file ∨
      file.suffix = sourceSuffix ∧ fs.Owns packages targetDirectory file package)

/-- All paths that it takes to tell which files count have canonical paths: those of targets and,
in a build, the directories of packages and of what is generated. -/
structure Resolves (fs : FileSystem) (packages : List Package) (targetDirectory : Option Path)
    (compiled : Option (List Path)) : Prop where
  targets : ∀ package ∈ packages, fs.Locates package.targets
  directories : compiled.isSome →
    (∀ directory ∈ targetDirectory, ∃ root, fs.canonical directory = .ok root) ∧
      ∀ package ∈ packages, ∃ root, fs.canonical package.root = .ok root

variable {fs : FileSystem} {packages : List Package} {package : Package}
  {targetDirectory : Option Path} {compiled : Option (List Path)} {owners : Ownership}
  {files : Package → Except ResolveError (List SourceFile)}

-- ---------------------------------------------------------------------------
-- The files that are found
-- ---------------------------------------------------------------------------

def builtFiles (fs : FileSystem) (owners : Ownership) (compiled : List Path) (package : Package) :
    List SourceFile :=
  let roots := fs.declaredRoots package.targets (some compiled)
  let others := owners.filesOf (compiled.filter (·.suffix = sourceSuffix)) package.id
  roots ++ (others.filter fun file => !roots.any (·.path = file)).map (⟨·, .other⟩)

theorem entryPointFiles_eq (h : fs.Locates package.targets) : entryPointFiles fs package =
    .ok ((fs.declaredRoots package.targets none).filter (·.role.isEntryPoint)) := by
  rw [entryPointFiles, FileSystem.targetFiles_eq h]
  rfl

theorem compiledFiles_eq (h : fs.Locates package.targets) (owners : Ownership)
    (compiled : List Path) :
    compiledFiles fs owners compiled package = .ok (builtFiles fs owners compiled package) := by
  rw [compiledFiles, FileSystem.targetFiles_eq h]
  rfl

theorem mem_entryPoints {file : SourceFile} :
    file ∈ (fs.declaredRoots package.targets none).filter (·.role.isEntryPoint) ↔
      Counts fs packages targetDirectory none package file.path ∧
        file.role = fs.roleOf package.targets file.path := by
  rw [List.mem_filter, FileSystem.mem_declaredRoots]
  constructor
  · rintro ⟨⟨-, -, hrole⟩, hentry⟩
    rw [hrole, FileSystem.roleOf_isEntryPoint_iff] at hentry
    exact ⟨hentry, hrole⟩
  · rintro ⟨hcounts, hrole⟩
    obtain ⟨target, hmem, hentry, hleads⟩ := hcounts
    refine ⟨⟨⟨target, hmem, hleads⟩, rfl, hrole⟩, ?_⟩
    rw [hrole, FileSystem.roleOf_isEntryPoint_iff]
    exact ⟨target, hmem, hentry, hleads⟩

theorem owner?_eq_id_iff (h : Ownership.ofPackages fs packages targetDirectory = .ok owners)
    (hids : (packages.map (·.id)).Nodup) (hmem : package ∈ packages) {file : Path} :
    owners.owner? file = some package.id ↔ fs.Owns packages targetDirectory file package := by
  rw [Ownership.owner?_eq_some_iff h]
  constructor
  · rintro ⟨owner, howns, hid⟩
    obtain rfl : owner = package := List.inj_on_of_nodup_map hids howns.mem hmem hid
    exact howns
  · exact fun howns => ⟨package, howns, rfl⟩

theorem any_declaredRoots {compiled : List Path} {file : Path} :
    (fs.declaredRoots package.targets (some compiled)).any (·.path = file) = true ↔
      fs.IsRoot package file ∧ file ∈ compiled := by
  simp only [List.any_eq_true, decide_eq_true_eq, FileSystem.mem_declaredRoots]
  constructor
  · rintro ⟨_, ⟨hroot, hcompiled, -⟩, rfl⟩
    exact ⟨hroot, by simpa using hcompiled⟩
  · rintro ⟨hroot, hcompiled⟩
    exact ⟨⟨file, fs.roleOf package.targets file⟩,
      ⟨hroot, by simpa using hcompiled, rfl⟩, rfl⟩

theorem mem_builtFiles (h : Ownership.ofPackages fs packages targetDirectory = .ok owners)
    (hids : (packages.map (·.id)).Nodup) (hmem : package ∈ packages) {compiled : List Path}
    {file : SourceFile} :
    file ∈ builtFiles fs owners compiled package ↔
      Counts fs packages targetDirectory (some compiled) package file.path ∧
        file.role = fs.roleOf package.targets file.path := by
  obtain ⟨path, role⟩ := file
  have hany : (fs.declaredRoots package.targets (some compiled)).any (·.path = path) = true ↔ _ :=
    any_declaredRoots
  simp only [builtFiles, List.mem_append, FileSystem.mem_declaredRoots, List.mem_map, List.mem_filter,
    Ownership.mem_filesOf, owner?_eq_id_iff h hids hmem, Counts, SourceFile.mk.injEq]
  constructor
  · rintro (⟨hroot, hcompiled, hrole⟩ | ⟨_, ⟨⟨⟨hcompiled, hsuffix⟩, howns⟩, hnot⟩, rfl, rfl⟩)
    · exact ⟨⟨by simpa using hcompiled, .inl hroot⟩, hrole⟩
    · refine ⟨⟨hcompiled, .inr ⟨by simpa using hsuffix, howns⟩⟩, ?_⟩
      refine (FileSystem.roleOf_of_not_root fun hroot => ?_).symm
      rw [hany.mpr ⟨hroot, hcompiled⟩] at hnot
      cases hnot
  · rintro ⟨⟨hcompiled, hroot | ⟨hsuffix, howns⟩⟩, hrole⟩
    · exact .inl ⟨hroot, by simpa using hcompiled, hrole⟩
    · by_cases hroot : fs.IsRoot package path
      · exact .inl ⟨hroot, by simpa using hcompiled, hrole⟩
      · refine .inr ⟨path, ⟨⟨⟨hcompiled, by simpa using hsuffix⟩, howns⟩, ?_⟩, rfl, ?_⟩
        · rw [Bool.not_eq_true', ← Bool.not_eq_true, hany]
          exact fun h => hroot h.1
        · rw [hrole, FileSystem.roleOf_of_not_root hroot]

theorem nodup_builtFiles (owners : Ownership) {compiled : List Path} (h : compiled.Nodup) :
    ((builtFiles fs owners compiled package).map (·.path)).Nodup := by
  rw [builtFiles, List.map_append, List.map_map]
  show (List.map _ _ ++ List.map id _).Nodup
  rw [List.map_id, List.nodup_append']
  refine ⟨FileSystem.nodup_declaredRoots _ _,
    (Ownership.nodup_filesOf (h.sublist List.filter_sublist)).sublist List.filter_sublist, ?_⟩
  intro path hroot hother
  obtain ⟨file, hfile, rfl⟩ := List.mem_map.mp hroot
  have hnot := (List.mem_filter.mp hother).2
  rw [List.any_eq_true.mpr ⟨file, hfile, by simp⟩] at hnot
  cases hnot

theorem exists_filesBy_iff : (∃ files, filesBy fs packages compiled targetDirectory = .ok files) ↔
    (compiled.isSome → (∀ directory ∈ targetDirectory, ∃ root, fs.canonical directory = .ok root) ∧
      ∀ package ∈ packages, ∃ root, fs.canonical package.root = .ok root) := by
  cases compiled with
  | none => exact ⟨nofun, fun _ => ⟨_, rfl⟩⟩
  | some compiled =>
    rw [← Ownership.exists_ofPackages_iff]
    constructor
    · rintro ⟨files, h⟩ -
      obtain ⟨owners, howners, -⟩ := of_bind_ok h
      exact ⟨owners, howners⟩
    · intro h
      obtain ⟨owners, howners⟩ := h rfl
      refine ⟨compiledFiles fs owners compiled, ?_⟩
      rw [filesBy, howners]
      rfl

theorem exists_files_iff (h : filesBy fs packages compiled targetDirectory = .ok files) :
    (∃ found, files package = .ok found) ↔ fs.Locates package.targets := by
  cases compiled with
  | none =>
    cases h
    refine ⟨?_, fun h => ⟨_, entryPointFiles_eq h⟩⟩
    rintro ⟨found, hfound⟩
    obtain ⟨roots, hroots, -⟩ := of_bind_ok hfound
    exact (FileSystem.exists_targetFiles_iff package none).mp ⟨roots, hroots⟩
  | some compiled =>
    obtain ⟨owners, -, h⟩ := of_bind_ok h
    cases h
    refine ⟨?_, fun h => ⟨_, compiledFiles_eq h owners compiled⟩⟩
    rintro ⟨found, hfound⟩
    obtain ⟨roots, hroots, -⟩ := of_bind_ok hfound
    exact (FileSystem.exists_targetFiles_iff package _).mp ⟨roots, hroots⟩

theorem of_files_ok (h : filesBy fs packages compiled targetDirectory = .ok files)
    (hids : (packages.map (·.id)).Nodup) (hset : ∀ listed ∈ compiled, listed.Nodup)
    (hmem : package ∈ packages) (hfound : files package = .ok found) :
    (found.map (·.path)).Nodup ∧
      ∀ file, file ∈ found ↔ Counts fs packages targetDirectory compiled package file.path ∧
        file.role = fs.roleOf package.targets file.path := by
  have hlocates := (exists_files_iff h).mp ⟨found, hfound⟩
  cases compiled with
  | none =>
    cases h
    rw [entryPointFiles_eq hlocates] at hfound
    cases hfound
    refine ⟨?_, fun _ => mem_entryPoints⟩
    exact (FileSystem.nodup_declaredRoots _ _).sublist (List.filter_sublist.map _)
  | some compiled =>
    obtain ⟨owners, howners, h⟩ := of_bind_ok h
    cases h
    rw [compiledFiles_eq hlocates] at hfound
    cases hfound
    exact ⟨nodup_builtFiles owners (hset compiled rfl),
      fun _ => mem_builtFiles howners hids hmem⟩

-- ---------------------------------------------------------------------------
-- The files that are listed
-- ---------------------------------------------------------------------------

def Scans (fs : FileSystem) (scan : ScanFile) (packages : List Package)
    (targetDirectory : Option Path) (compiled : Option (List Path)) (package : Package) : Prop :=
  ∀ file, Counts fs packages targetDirectory compiled package file → ∃ usage, scan file = .ok usage

/-- Metrics list the files that count for a package, each once, in its role and with what scanning
it gives. -/
structure Covers (fs : FileSystem) (scan : ScanFile) (packages : List Package)
    (targetDirectory : Option Path) (compiled : Option (List Path)) (package : Package)
    (metrics : PackageMetrics) : Prop where
  nodup_keys : (metrics.files.map (·.1)).Nodup
  mem_keys : ∀ file, file ∈ metrics.files.map (·.1) ↔
    Counts fs packages targetDirectory compiled package file
  mem_files : ∀ file entry, (file, entry) ∈ metrics.files ↔
    Counts fs packages targetDirectory compiled package file ∧
      entry.file = ⟨file, fs.roleOf package.targets file⟩ ∧ scan file = .ok entry.usage

variable {scan : ScanFile} {metrics : PackageMetrics}

theorem isSome_scanned?_iff (h : filesBy fs packages compiled targetDirectory = .ok files)
    (hids : (packages.map (·.id)).Nodup) (hset : ∀ listed ∈ compiled, listed.Nodup)
    (hmem : package ∈ packages) (hlocates : fs.Locates package.targets) :
    (scanned? files scan package).isSome ↔
      Scans fs scan packages targetDirectory compiled package := by
  obtain ⟨found, hfound⟩ := (exists_files_iff h).mpr hlocates
  obtain ⟨-, hcounts⟩ := of_files_ok h hids hset hmem hfound
  have hsome : (scanned? files scan package).isSome ↔
      ∃ metrics, scanPackage scan package.id found = .ok metrics := by
    simp only [Option.isSome_iff_exists, scanned?_eq_some_iff, hfound]
    simp
  rw [hsome, exists_scanPackage_iff]
  constructor
  · intro hscan file hfile
    exact hscan ⟨file, fs.roleOf package.targets file⟩ ((hcounts _).mpr ⟨hfile, rfl⟩)
  · intro hscan file hfile
    exact hscan file.path ((hcounts file).mp hfile).1

theorem covers_of_scanned? (h : filesBy fs packages compiled targetDirectory = .ok files)
    (hids : (packages.map (·.id)).Nodup) (hset : ∀ listed ∈ compiled, listed.Nodup)
    (hmem : package ∈ packages) (hscanned : scanned? files scan package = some metrics) :
    Covers fs scan packages targetDirectory compiled package metrics := by
  obtain ⟨found, hfound, hscan⟩ := scanned?_eq_some_iff.mp hscanned
  obtain ⟨hnodup, hcounts⟩ := of_files_ok h hids hset hmem hfound
  obtain ⟨-, hkeys, hfiles⟩ := of_scanPackage_ok hscan
  constructor
  case nodup_keys => rwa [hkeys]
  case mem_keys =>
    intro file
    rw [hkeys, List.mem_map]
    constructor
    · rintro ⟨source, hsource, rfl⟩
      exact ((hcounts source).mp hsource).1
    · intro hfile
      exact ⟨⟨file, fs.roleOf package.targets file⟩, (hcounts _).mpr ⟨hfile, rfl⟩, rfl⟩
  case mem_files =>
    intro file entry
    rw [hfiles, hcounts]
    constructor
    · rintro ⟨⟨hfile, hrole⟩, rfl, hscan⟩
      exact ⟨hfile, by rw [← hrole], hscan⟩
    · rintro ⟨hfile, heq, hscan⟩
      rw [heq]
      exact ⟨⟨hfile, rfl⟩, rfl, hscan⟩

theorem run_ok_iff {graph : DependencyGraph} {aggregation : Aggregation} {allowPartial : Bool} :
    (run fs scan allowPartial targetDirectory graph compiled).2 = .ok aggregation ↔
      ∃ files, filesBy fs graph.packages compiled targetDirectory = .ok files ∧
        aggregation.warnings = (scanPackages files scan allowPartial graph.packages).1 ∧
        (scanPackages files scan allowPartial graph.packages).2 = .ok aggregation.metrics := by
  obtain ⟨metrics, warnings⟩ := aggregation
  rw [run]
  cases filesBy fs graph.packages compiled targetDirectory with
  | error e => simp
  | ok files =>
    simp only [Except.ok.injEq, exists_eq_left']
    cases (scanPackages files scan allowPartial graph.packages).2 with
    | error e => simp [Except.map]
    | ok all => simp [Except.map, and_comm, eq_comm]

/-- A Rust file of a build that is no root counts for its owner and for nobody else. -/
theorem counts_iff_eq_owner {listed : List Path} {owner : Package} {file : Path}
    (hfile : file ∈ listed) (hsuffix : file.suffix = sourceSuffix)
    (hroot : ¬ fs.IsRoot package file)
    (howns : fs.Owns packages targetDirectory file owner) :
    Counts fs packages targetDirectory (some listed) package file ↔ package = owner := by
  constructor
  · rintro ⟨-, h | ⟨-, h⟩⟩
    · exact absurd h hroot
    · exact h.unique howns
  · rintro rfl
    exact ⟨hfile, .inr ⟨hsuffix, howns⟩⟩

section
variable {graph : DependencyGraph} {aggregation : Aggregation} {allowPartial : Bool}

theorem exists_run_iff (hids : (graph.packages.map (·.id)).Nodup)
    (hset : ∀ listed ∈ compiled, listed.Nodup) :
    (∃ aggregation,
        (run fs scan allowPartial targetDirectory graph compiled).2 = .ok aggregation) ↔
      Resolves fs graph.packages targetDirectory compiled ∧
        (allowPartial = true ∨ ∀ package ∈ graph.packages,
          Scans fs scan graph.packages targetDirectory compiled package) := by
  constructor
  · rintro ⟨aggregation, hrun⟩
    obtain ⟨files, hfiles, -, hmetrics⟩ := run_ok_iff.mp hrun
    obtain ⟨hfound, hpartial, -⟩ := scanPackages_ok_iff.mp hmetrics
    have hlocates : ∀ package ∈ graph.packages, fs.Locates package.targets := fun package hmem =>
      (exists_files_iff hfiles).mp (hfound package hmem)
    refine ⟨⟨hlocates, exists_filesBy_iff.mp ⟨files, hfiles⟩⟩, hpartial.imp_right ?_⟩
    intro hsome package hmem
    exact (isSome_scanned?_iff hfiles hids hset hmem (hlocates package hmem)).mp
      (hsome package hmem)
  · rintro ⟨hresolves, hpartial⟩
    obtain ⟨files, hfiles⟩ := exists_filesBy_iff.mpr hresolves.directories
    refine ⟨⟨_, _⟩, run_ok_iff.mpr ⟨files, hfiles, rfl, scanPackages_ok_iff.mpr ⟨?_, ?_, rfl⟩⟩⟩
    · exact fun package hmem => (exists_files_iff hfiles).mpr (hresolves.targets package hmem)
    · refine hpartial.imp_right fun hscans package hmem => ?_
      exact (isSome_scanned?_iff hfiles hids hset hmem (hresolves.targets package hmem)).mpr
        (hscans package hmem)

theorem metricsOf?_eq (hids : (graph.packages.map (·.id)).Nodup)
    (hmetrics : aggregation.metrics = graph.packages.filterMap (scanned? files scan))
    (hmem : package ∈ graph.packages) :
    aggregation.metricsOf? package.id = scanned? files scan package := by
  rw [metricsOf?, hmetrics]
  refine find?_filterMap (fun p m h => ?_) hids hmem
  obtain ⟨found, -, hscan⟩ := scanned?_eq_some_iff.mp h
  exact (of_scanPackage_ok hscan).1

end

/-- Which files count for which package. The aggregation over a graph succeeds exactly if all
paths that it takes have canonical paths and, unless partial results are allowed, all files that
count can be scanned. It then has metrics for the packages whose files can be scanned, and these
list the files that count for them. A compiled Rust file that is nobody's root, lies below the
directory of some package and is not generated counts for exactly one. -/
theorem run_counts (fs : FileSystem) (scan : ScanFile) (allowPartial : Bool)
    (targetDirectory : Option Path) (graph : DependencyGraph) (compiled : Option (List Path))
    (hids : (graph.packages.map (·.id)).Nodup) (hset : ∀ listed ∈ compiled, listed.Nodup) :
    ((∃ aggregation,
        (run fs scan allowPartial targetDirectory graph compiled).2 = .ok aggregation) ↔
      Resolves fs graph.packages targetDirectory compiled ∧
        (allowPartial = true ∨ ∀ package ∈ graph.packages,
          Scans fs scan graph.packages targetDirectory compiled package)) ∧
    ∀ aggregation, (run fs scan allowPartial targetDirectory graph compiled).2 = .ok aggregation →
      (∀ package ∈ graph.packages,
        ((∃ metrics, aggregation.metricsOf? package.id = some metrics) ↔
          Scans fs scan graph.packages targetDirectory compiled package) ∧
        ∀ metrics, aggregation.metricsOf? package.id = some metrics →
          Covers fs scan graph.packages targetDirectory compiled package metrics) ∧
      ∀ listed, compiled = some listed → ∀ file ∈ listed, file.suffix = sourceSuffix →
        (∀ package ∈ graph.packages, ¬ fs.IsRoot package file) →
        (∃ package ∈ graph.packages, ∃ root, fs.Holds package file root) →
        ¬ fs.IsGenerated targetDirectory file →
        ∃ owner ∈ graph.packages,
          Counts fs graph.packages targetDirectory compiled owner file ∧
          ∀ package ∈ graph.packages, ∀ metrics,
            aggregation.metricsOf? package.id = some metrics →
              (file ∈ metrics.files.map (·.1) ↔ package = owner) := by
  refine ⟨exists_run_iff hids hset, fun aggregation hrun => ?_⟩
  obtain ⟨files, hfiles, -, hmetrics⟩ := run_ok_iff.mp hrun
  obtain ⟨hfound, -, hall⟩ := scanPackages_ok_iff.mp hmetrics
  have hcovers : ∀ package ∈ graph.packages, ∀ metrics,
      aggregation.metricsOf? package.id = some metrics →
        Covers fs scan graph.packages targetDirectory compiled package metrics :=
    fun package hmem metrics h =>
      covers_of_scanned? hfiles hids hset hmem ((metricsOf?_eq hids hall hmem).symm.trans h)
  refine ⟨fun package hmem => ⟨?_, hcovers package hmem⟩, ?_⟩
  · have hlocates := (exists_files_iff hfiles).mp (hfound package hmem)
    rw [metricsOf?_eq hids hall hmem, ← Option.isSome_iff_exists,
      isSome_scanned?_iff hfiles hids hset hmem hlocates]
  · rintro listed rfl file hfile hsuffix hroots ⟨holder, hholder, root, hholds⟩ hnot
    obtain ⟨owners, howners, -⟩ := of_bind_ok hfiles
    obtain ⟨owner, howns, -⟩ := Ownership.exists_owns howners hnot hholder hholds
    refine ⟨owner, howns.mem, ⟨hfile, .inr ⟨hsuffix, howns⟩⟩, fun package hmem metrics h => ?_⟩
    rw [(hcovers package hmem metrics h).mem_keys]
    exact counts_iff_eq_owner hfile hsuffix (hroots package hmem) howns

-- ---------------------------------------------------------------------------
-- A package inside of another
-- ---------------------------------------------------------------------------

namespace Nested

open FileSystem (bare canonical_bare)

/-- Two targets have the same root, and the first is no entry point. -/
def outer : Package :=
  ⟨⟨"outer", "1", none, "outer"⟩, .atRoot ["w", "Cargo.toml"], none, none, [],
    [⟨"checks", .test, .atRoot ["w", "lib.rs"]⟩, ⟨"outer", .lib, .atRoot ["w", "lib.rs"]⟩]⟩

def inner : Package :=
  ⟨⟨"inner", "1", none, "inner"⟩, .atRoot ["w", "inner", "Cargo.toml"], none, none, [],
    [⟨"inner", .bin, .atRoot ["w", "inner", "main.rs"]⟩]⟩

def graph : DependencyGraph := ⟨[outer, inner], []⟩

def generated : Path := .atRoot ["w", "target"]

def helper : Path := .atRoot ["w", "inner", "helper.rs"]

def sources : List Path :=
  [.atRoot ["w", "lib.rs"], helper, .atRoot ["w", "inner", "main.rs"],
    .atRoot ["w", "target", "out.rs"]]

def forbidding : ScanFile := fun _ => .ok ⟨.zero, true⟩

theorem canonical_target : ∀ package ∈ graph.packages, ∀ target ∈ package.targets,
    bare.canonical target.srcPath = .ok target.srcPath := by
  simp only [graph, outer, inner, List.forall_mem_cons, List.not_mem_nil, false_imp_iff,
    implies_true, and_true]
  exact ⟨⟨canonical_bare (by decide), canonical_bare (by decide)⟩, canonical_bare (by decide)⟩

theorem canonical_root : ∀ package ∈ graph.packages,
    bare.canonical package.root = .ok package.root := by
  have houter : bare.canonical outer.root = .ok outer.root := canonical_bare (by decide)
  have hinner : bare.canonical inner.root = .ok inner.root := canonical_bare (by decide)
  simp only [graph, List.forall_mem_cons, houter, hinner, List.not_mem_nil, false_imp_iff,
    implies_true, and_true]

theorem canonical_generated : bare.canonical generated = .ok generated :=
  canonical_bare (by decide)

theorem resolves : Resolves bare graph.packages (some generated) (some sources) where
  targets package hp target ht := ⟨_, canonical_target package hp target ht⟩
  directories _ := by
    refine ⟨fun directory h => ?_, fun package hp => ⟨_, canonical_root package hp⟩⟩
    cases h
    exact ⟨_, canonical_generated⟩

theorem not_root : ∀ package ∈ graph.packages, ¬ bare.IsRoot package helper := by
  rintro package hp ⟨target, ht, h⟩
  rw [canonical_target package hp target ht] at h
  have hne : ∀ package ∈ graph.packages, ∀ target ∈ package.targets, target.srcPath ≠ helper := by
    decide
  exact hne package hp target ht (Except.ok.inj h)

theorem not_generated : ¬ bare.IsGenerated (some generated) helper := by
  rintro ⟨directory, h, root, hroot, hbelow⟩
  cases h
  rw [canonical_generated] at hroot
  cases hroot
  revert hbelow
  decide

end Nested

open Nested FileSystem in
/-- Both packages have metrics, and only one of them lists the file that is below both. -/
theorem run_counts_nested :
    (graph.packages.map (·.id)).Nodup ∧ sources.Nodup ∧
    ∃ aggregation,
      (run bare forbidding false (some generated) graph (some sources)).2 = .ok aggregation ∧
      (∀ package ∈ graph.packages, ∃ metrics, aggregation.metricsOf? package.id = some metrics ∧
        Covers bare forbidding graph.packages (some generated) (some sources) package metrics) ∧
      ∃ owner ∈ graph.packages, ∀ package ∈ graph.packages, ∀ metrics,
        aggregation.metricsOf? package.id = some metrics →
          (helper ∈ metrics.files.map (·.1) ↔ package = owner) := by
  have hids : (graph.packages.map (·.id)).Nodup := by decide
  have hset : sources.Nodup := by decide
  obtain ⟨hok, hall⟩ := run_counts bare forbidding false (some generated) graph (some sources) hids
    fun listed h => by cases h; exact hset
  obtain ⟨aggregation, hrun⟩ := hok.mpr ⟨resolves, .inr fun _ _ _ _ => ⟨_, rfl⟩⟩
  obtain ⟨hmetrics, hcounts⟩ := hall aggregation hrun
  refine ⟨hids, hset, aggregation, hrun, fun package hp => ?_, ?_⟩
  · obtain ⟨metrics, hm⟩ := (hmetrics package hp).1.mpr fun _ _ => ⟨_, rfl⟩
    exact ⟨metrics, hm, (hmetrics package hp).2 metrics hm⟩
  · have hholds : bare.Holds inner helper inner.root :=
      ⟨canonical_root inner (by decide), by decide⟩
    obtain ⟨owner, hmem, -, h⟩ := hcounts sources rfl helper (by decide) (by decide) not_root
      ⟨inner, by decide, _, hholds⟩ not_generated
    exact ⟨owner, hmem, h⟩

end UnsafeAudit.Aggregation
