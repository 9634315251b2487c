import UnsafeAudit.Audit.Basic
import UnsafeAudit.Proofs.Attribution.Shown
import UnsafeAudit.Proofs.FileSystem.Bare
import UnsafeAudit.Proofs.Metadata.Loaded
import UnsafeAudit.Proofs.Path.Order

/-!
# Listed entry points

The listing of compiled files gives a file the role that the last of its packages
gives to it, while the metrics of each package keep the role that this package
gives. So the listing can hide an entry point, and what it says depends on the
order of packages (`listing_hides_entryPoint`). It shows entry points only, and it
shows all of them if the packages that share a file agree about it
(`listing_entryPoints`).
-/

namespace UnsafeAudit.Audit

open Aggregation (Covers Resolves)

/-- A package has a target with this compiled file, and the file is an entry point of it. -/
def MakesEntryPoint (fs : FileSystem) (compiled : List Path) (package : Package) (file : Path) :
    Prop :=
  ∃ roots, fs.targetFiles package (some compiled) = .ok roots ∧
    ∃ root ∈ roots, root.path = file ∧ root.role.isEntryPoint = true

/-- The packages that have a target with this file all make it an entry point, or none does. -/
def Agree (fs : FileSystem) (compiled : List Path) (packages : List Package) (file : Path) : Prop :=
  ∀ p ∈ packages, ∀ q ∈ packages, fs.IsRoot p file → fs.IsRoot q file →
    MakesEntryPoint fs compiled p file → MakesEntryPoint fs compiled q file

section

variable {fs : FileSystem} {metadata : Metadata} {graph : DependencyGraph} {compiled : List Path}
  {packages : List Package} {package : Package} {file : Path} {files : List CompiledFile}
  {front back : List SourceFile}

-- ---------------------------------------------------------------------------
-- The role of one file
-- ---------------------------------------------------------------------------

theorem makesEntryPoint_iff (h : fs.Locates package.targets) :
    MakesEntryPoint fs compiled package file ↔
      file ∈ compiled ∧ (fs.roleOf package.targets file).isEntryPoint = true := by
  rw [MakesEntryPoint, FileSystem.targetFiles_eq h]
  constructor
  · rintro ⟨_, ⟨⟩, root, hroot, rfl, hentry⟩
    obtain ⟨-, hkept, hrole⟩ := FileSystem.mem_declaredRoots.mp hroot
    exact ⟨by simpa using hkept, hrole ▸ hentry⟩
  · rintro ⟨hfile, hentry⟩
    obtain ⟨target, hmem, -, hleads⟩ := FileSystem.roleOf_isEntryPoint_iff.mp hentry
    exact ⟨_, rfl, ⟨file, fs.roleOf package.targets file⟩,
      FileSystem.mem_declaredRoots.mpr ⟨⟨target, hmem, hleads⟩, by simpa using hfile, rfl⟩,
      rfl, hentry⟩

theorem MakesEntryPoint.isRoot (hmakes : MakesEntryPoint fs compiled package file) :
    fs.IsRoot package file := by
  obtain ⟨roots, hroots, hentry⟩ := id hmakes
  obtain ⟨-, hentry⟩ :=
    (makesEntryPoint_iff ((FileSystem.exists_targetFiles_iff package _).mp ⟨roots, hroots⟩)).mp hmakes
  obtain ⟨target, hmem, -, hleads⟩ := FileSystem.roleOf_isEntryPoint_iff.mp hentry
  exact ⟨target, hmem, hleads⟩

theorem roleOf_append_of_any (h : back.any (·.path = file) = true) :
    roleOf (front ++ back) file = roleOf back file := by
  have hsome : (back.reverse.find? (·.path = file)).isSome := by simpa using h
  obtain ⟨root, hroot⟩ := Option.isSome_iff_exists.mp hsome
  rw [roleOf, roleOf, List.reverse_append, List.find?_append, hroot]
  rfl

theorem roleOf_append_of_not_any (h : back.any (·.path = file) = false) :
    roleOf (front ++ back) file = roleOf front file := by
  have hnone : back.reverse.find? (·.path = file) = none := by
    simpa [List.find?_eq_none] using h
  rw [roleOf, List.reverse_append, List.find?_append, hnone, Option.none_or]
  rfl

theorem roleOf_declaredRoots
    (h : (fs.declaredRoots package.targets (some compiled)).any (·.path = file) = true) :
    roleOf (fs.declaredRoots package.targets (some compiled)) file =
      fs.roleOf package.targets file := by
  have hsome : ((fs.declaredRoots package.targets (some compiled)).reverse.find?
      (·.path = file)).isSome := by simpa using h
  obtain ⟨root, hroot⟩ := Option.isSome_iff_exists.mp hsome
  have hpath : root.path = file := by simpa using List.find?_some hroot
  have hmem := List.mem_reverse.mp (List.mem_of_find?_eq_some hroot)
  rw [roleOf, hroot, ← hpath, ← (FileSystem.mem_declaredRoots.mp hmem).2.2]
  rfl

def rootsOf (fs : FileSystem) (packages : List Package) (compiled : List Path) : List SourceFile :=
  (packages.map fun package => fs.declaredRoots package.targets (some compiled)).flatten

theorem rootsOf_concat (packages : List Package) (package : Package) :
    rootsOf fs (packages ++ [package]) compiled =
      rootsOf fs packages compiled ++ fs.declaredRoots package.targets (some compiled) := by
  simp [rootsOf]

theorem exists_split_concat_iff {p q : α → Prop} {l : List α} {x : α} :
    (∃ before a after, l ++ [x] = before ++ a :: after ∧ p a ∧ ∀ b ∈ after, q b) ↔
      p x ∨ q x ∧ ∃ before a after, l = before ++ a :: after ∧ p a ∧ ∀ b ∈ after, q b := by
  constructor
  · rintro ⟨before, a, after, hsplit, ha, hafter⟩
    cases after using List.reverseRecOn with
    | nil =>
      obtain ⟨-, hlast⟩ := List.append_inj' hsplit rfl
      cases hlast
      exact .inl ha
    | append_singleton after b =>
      rw [← List.cons_append, ← List.append_assoc] at hsplit
      obtain ⟨hl, hlast⟩ := List.append_inj' hsplit rfl
      cases hlast
      exact .inr ⟨hafter x (by simp), before, a, after, hl, ha, fun b hb => hafter b (by simp [hb])⟩
  · rintro (hx | ⟨hx, before, a, after, rfl, ha, hafter⟩)
    · exact ⟨l, x, [], rfl, hx, nofun⟩
    · refine ⟨before, a, after ++ [x], by simp, ha, fun b hb => ?_⟩
      rcases List.mem_append.mp hb with hb | hb
      · exact hafter b hb
      · rwa [List.mem_singleton.mp hb]

/-- The last package that has a file as a root decides about its role. -/
theorem isEntryPoint_roleOf_iff (hfile : file ∈ compiled)
    (hlocates : ∀ package ∈ packages, fs.Locates package.targets) :
    (roleOf (rootsOf fs packages compiled) file).isEntryPoint = true ↔
      ∃ before package after, packages = before ++ package :: after ∧
        MakesEntryPoint fs compiled package file ∧ ∀ other ∈ after, ¬ fs.IsRoot other file := by
  induction packages using List.reverseRecOn with
  | nil => simp [rootsOf, roleOf, FileRole.isEntryPoint]
  | append_singleton rest last ih =>
    have ih := ih fun package hmem => hlocates package (by simp [hmem])
    have hmakes : MakesEntryPoint fs compiled last file ↔ _ :=
      makesEntryPoint_iff (hlocates last (by simp))
    rw [rootsOf_concat, exists_split_concat_iff, ← ih]
    by_cases hroot : fs.IsRoot last file
    · have hany := Aggregation.any_declaredRoots.mpr ⟨hroot, hfile⟩
      rw [roleOf_append_of_any hany, roleOf_declaredRoots hany, hmakes]
      simp [hfile, hroot]
    · have hnone : (fs.declaredRoots last.targets (some compiled)).any (·.path = file) = false := by
        rw [← Bool.not_eq_true, Aggregation.any_declaredRoots]
        exact fun h => hroot h.1
      rw [roleOf_append_of_not_any hnone]
      simp [hroot, mt MakesEntryPoint.isRoot hroot]

theorem exists_last_iff_of_agree (h : Agree fs compiled packages file) :
    (∃ before package after, packages = before ++ package :: after ∧
      MakesEntryPoint fs compiled package file ∧ ∀ other ∈ after, ¬ fs.IsRoot other file) ↔
    ∃ package ∈ packages, MakesEntryPoint fs compiled package file := by
  induction packages using List.reverseRecOn with
  | nil => simp
  | append_singleton rest last ih =>
    have hrest : Agree fs compiled rest file := fun p hp q hq => h p (by simp [hp]) q (by simp [hq])
    have hlast : ∀ p ∈ rest, fs.IsRoot last file → MakesEntryPoint fs compiled p file →
        MakesEntryPoint fs compiled last file := fun p hp hroot hmakes =>
      h p (by simp [hp]) last (by simp) hmakes.isRoot hroot hmakes
    rw [exists_split_concat_iff, ih hrest]
    constructor
    · rintro (hmakes | ⟨-, package, hmem, hmakes⟩)
      · exact ⟨last, by simp, hmakes⟩
      · exact ⟨package, by simp [hmem], hmakes⟩
    · rintro ⟨package, hmem, hmakes⟩
      rcases List.mem_append.mp hmem with hmem | hmem
      · by_cases hroot : fs.IsRoot last file
        · exact .inl (hlast package hmem hroot hmakes)
        · exact .inr ⟨hroot, package, hmem, hmakes⟩
      · rw [List.mem_singleton.mp hmem] at hmakes
        exact .inl hmakes

theorem Agree.perm (h : Agree fs compiled packages file) (hp : packages.Perm others) :
    Agree fs compiled others file :=
  fun p hmem q hmem' => h p (hp.mem_iff.mpr hmem) q (hp.mem_iff.mpr hmem')

-- ---------------------------------------------------------------------------
-- The listing
-- ---------------------------------------------------------------------------

theorem mapM_targetFiles_eq (h : ∀ package ∈ packages, fs.Locates package.targets) :
    (packages.mapM fun package => fs.targetFiles package (some compiled)) =
      .ok (packages.map fun package => fs.declaredRoots package.targets (some compiled)) :=
  mapM_ok fun package hmem => FileSystem.targetFiles_eq (h package hmem) _

theorem listing_ok_iff : listing fs metadata graph compiled = .ok files ↔
    (∀ package ∈ graph.packages, fs.Locates package.targets) ∧ ∃ owners,
      Ownership.ofPackages fs graph.packages (some metadata.targetDirectory) = .ok owners ∧
      files = (Path.sort compiled).map fun file =>
        ⟨file, roleOf (rootsOf fs graph.packages compiled) file, owners.owner? file⟩ := by
  constructor
  · intro h
    obtain ⟨roots, hroots, h⟩ := of_bind_ok h
    obtain ⟨owners, howners, h⟩ := of_bind_ok h
    have hlocates : ∀ package ∈ graph.packages, fs.Locates package.targets := fun package hmem =>
      (FileSystem.exists_targetFiles_iff package _).mp
        (exists_mapM_ok_iff.mp ⟨roots, hroots⟩ package hmem)
    rw [mapM_targetFiles_eq hlocates] at hroots
    cases hroots
    cases h
    exact ⟨hlocates, owners, howners, rfl⟩
  · rintro ⟨hlocates, owners, howners, rfl⟩
    rw [listing, mapM_targetFiles_eq hlocates, howners]
    rfl

theorem exists_listing_iff : (∃ files, listing fs metadata graph compiled = .ok files) ↔
    Resolves fs graph.packages (some metadata.targetDirectory) (some compiled) := by
  simp only [listing_ok_iff]
  constructor
  · rintro ⟨_, hlocates, owners, howners, -⟩
    exact ⟨hlocates, fun _ => Ownership.exists_ofPackages_iff.mp ⟨owners, howners⟩⟩
  · rintro ⟨hlocates, hdirectories⟩
    obtain ⟨owners, howners⟩ := Ownership.exists_ofPackages_iff.mpr (hdirectories rfl)
    exact ⟨_, hlocates, owners, howners, rfl⟩

theorem map_path_of_listing (h : listing fs metadata graph compiled = .ok files) :
    files.map (·.path) = Path.sort compiled := by
  obtain ⟨-, owners, -, rfl⟩ := listing_ok_iff.mp h
  simp [Function.comp_def]

theorem exists_listed (h : listing fs metadata graph compiled = .ok files)
    (hfile : file ∈ compiled) : ∃ listed ∈ files, listed.path = file := by
  have hmem : file ∈ files.map (·.path) := map_path_of_listing h ▸ Path.mem_sort.mpr hfile
  exact List.mem_map.mp hmem

theorem isEntryPoint_listed_iff (h : listing fs metadata graph compiled = .ok files)
    {listed : CompiledFile} (hlisted : listed ∈ files) : listed.role.isEntryPoint = true ↔
      ∃ before package after, graph.packages = before ++ package :: after ∧
        MakesEntryPoint fs compiled package listed.path ∧
        ∀ other ∈ after, ¬ fs.IsRoot other listed.path := by
  obtain ⟨hlocates, owners, -, rfl⟩ := listing_ok_iff.mp h
  obtain ⟨file, hfile, rfl⟩ := List.mem_map.mp hlisted
  exact isEntryPoint_roleOf_iff (Path.mem_sort.mp hfile) hlocates

-- ---------------------------------------------------------------------------
-- Entry points of metrics
-- ---------------------------------------------------------------------------

theorem mem_entryPoints_iff {scan : ScanFile} {targetDirectory : Option Path}
    {metrics : PackageMetrics} (hlocates : fs.Locates package.targets)
    (h : Covers fs scan packages targetDirectory (some compiled) package metrics) :
    file ∈ metrics.entryPoints.map (·.file.path) ↔ MakesEntryPoint fs compiled package file := by
  rw [makesEntryPoint_iff hlocates, List.mem_map]
  constructor
  · rintro ⟨entry, hentry, rfl⟩
    obtain ⟨hpoint, hcompiled, hrole, -⟩ := h.mem_entryPoints.mp hentry
    exact ⟨hcompiled compiled rfl, hrole ▸ hpoint⟩
  · rintro ⟨hfile, hpoint⟩
    have hcounts : Aggregation.Counts fs packages targetDirectory (some compiled) package file :=
      (Aggregation.counts_entryPoint_iff hpoint).mpr (by rintro _ ⟨⟩; exact hfile)
    obtain ⟨⟨_, entry⟩, hentry, rfl⟩ := List.mem_map.mp ((h.mem_keys file).mpr hcounts)
    obtain ⟨-, hsource, hscan⟩ := (h.mem_files _ entry).mp hentry
    refine ⟨entry, h.mem_entryPoints.mpr ⟨?_, ?_, ?_, ?_⟩, ?_⟩ <;> rw [hsource]
    · exact hpoint
    · rintro _ ⟨⟩
      exact hfile
    · exact hscan

/-- The files of a build are listed if all paths lead somewhere. Whether a file is listed as an entry
point is told by the last package in the order of the graph that has it as a root. If the packages
that have it agree, it is one exactly if it is an entry point of some package, as the metrics of that
package count it, and any order of the packages tells the same. -/
theorem listing_entryPoints (metadata : Metadata) (root : PackageId) (config : GraphConfig)
    (graph : DependencyGraph) (fs : FileSystem) (compiled : List Path)
    (hgraph : metadata.buildGraph config root = .ok graph) (hset : compiled.Nodup) :
    ((∃ files, listing fs metadata graph compiled = .ok files) ↔
      Resolves fs graph.packages (some metadata.targetDirectory) (some compiled)) ∧
    (∀ files, listing fs metadata graph compiled = .ok files →
      files.map (·.path) = Path.sort compiled ∧
      ∀ listed ∈ files,
        (listed.role.isEntryPoint = true ↔
          ∃ before package after, graph.packages = before ++ package :: after ∧
            MakesEntryPoint fs compiled package listed.path ∧
            ∀ other ∈ after, ¬ fs.IsRoot other listed.path) ∧
        (Agree fs compiled graph.packages listed.path →
          (listed.role.isEntryPoint = true ↔
            ∃ package ∈ graph.packages, MakesEntryPoint fs compiled package listed.path) ∧
          ∀ reordered files', reordered.packages.Perm graph.packages →
            listing fs metadata reordered compiled = .ok files' →
            ∀ listed' ∈ files', listed'.path = listed.path →
              (listed'.role.isEntryPoint = true ↔ listed.role.isEntryPoint = true))) ∧
    ∀ scan allowPartial aggregation,
      (Aggregation.run fs scan allowPartial (some metadata.targetDirectory) graph
        (some compiled)).2 = .ok aggregation →
      ∀ package ∈ graph.packages, ∀ metrics, aggregation.metricsOf? package.id = some metrics →
        ∀ file, file ∈ metrics.entryPoints.map (·.file.path) ↔
          MakesEntryPoint fs compiled package file := by
  refine ⟨exists_listing_iff, fun files h => ⟨map_path_of_listing h, fun listed hlisted => ?_⟩, ?_⟩
  · have hlast := isEntryPoint_listed_iff h hlisted
    refine ⟨hlast, fun hagree => ?_⟩
    have hsome := hlast.trans (exists_last_iff_of_agree hagree)
    refine ⟨hsome, fun reordered files' hperm h' listed' hlisted' hpath => ?_⟩
    rw [isEntryPoint_listed_iff h' hlisted', hpath,
      exists_last_iff_of_agree (hagree.perm hperm.symm), hsome]
    simp only [hperm.mem_iff]
  · intro scan allowPartial aggregation hrun package hmem metrics hmetrics file
    have hids := (Metadata.sound_of_buildGraph_ok hgraph).nodup_ids
    obtain ⟨files, hfiles, -, hscanned⟩ := Aggregation.run_ok_iff.mp hrun
    obtain ⟨hfound, -, hall⟩ := Aggregation.scanPackages_ok_iff.mp hscanned
    have hcovers := Aggregation.covers_of_scanned? hfiles hids (by rintro _ ⟨⟩; exact hset) hmem
      ((Aggregation.metricsOf?_eq hids hall hmem).symm.trans hmetrics)
    exact mem_entryPoints_iff ((Aggregation.exists_files_iff hfiles).mp (hfound package hmem)) hcovers

end

-- ---------------------------------------------------------------------------
-- A file that two packages share
-- ---------------------------------------------------------------------------

namespace Shared

open FileSystem (bare canonical_bare)
open Declared (WellTyped Sample.node Sample.dependency)

def describe (id : String) (targets : List (String × String)) : Json := .obj [
  ("id", .str id), ("name", .str id), ("version", .str "1"),
  ("manifest_path", .str ("/" ++ id ++ "/Cargo.toml")),
  ("targets", .arr (targets.map fun (kind, file) =>
    .obj [("name", .str id), ("kind", .arr [.str kind]), ("src_path", .str file)]))]

/-- The library of `app` is a test of `probe`, which `app` depends on. -/
def document : Json := .obj [
  ("target_directory", .str "/target"),
  ("packages", .arr [describe "app" [("lib", "/shared.rs"), ("bin", "/main.rs")],
    describe "probe" [("test", "/shared.rs")]]),
  ("resolve", .obj [("nodes", .arr [
    Sample.node "app" [Sample.dependency "probe" .null], Sample.node "probe" []])])]

def shared : Path := .atRoot ["shared.rs"]
def main : Path := .atRoot ["main.rs"]
def sources : List Path := [shared, main]

def holding (name : String) (targets : List Target) : Package :=
  ⟨⟨name, "1", none, name⟩, .atRoot [name, "Cargo.toml"], none, none, [], targets⟩

def app : Package := holding "app" [⟨"app", .lib, shared⟩, ⟨"app", .bin, main⟩]
def probe : Package := holding "probe" [⟨"probe", .test, shared⟩]

def both : DependencyGraph := ⟨[app, probe], [⟨app.id, probe.id, .normal⟩]⟩
def swapped : DependencyGraph := ⟨[probe, app], [⟨app.id, probe.id, .normal⟩]⟩

theorem wellTyped : WellTyped document := by decide

theorem buildGraph_both : (Declared.metadata document).buildGraph .default app.id = .ok both := by
  rfl

theorem canonical_target : ∀ package ∈ both.packages, ∀ target ∈ package.targets,
    bare.canonical target.srcPath = .ok target.srcPath := by
  simp only [both, app, probe, holding, List.forall_mem_cons, List.not_mem_nil, false_imp_iff,
    implies_true, and_true]
  exact ⟨⟨canonical_bare (by decide), canonical_bare (by decide)⟩, canonical_bare (by decide)⟩

theorem canonical_root : ∀ package ∈ both.packages,
    bare.canonical package.root = .ok package.root := by
  have happ : bare.canonical app.root = .ok app.root := canonical_bare (by decide)
  have hprobe : bare.canonical probe.root = .ok probe.root := canonical_bare (by decide)
  simp only [both, List.forall_mem_cons, happ, hprobe, List.not_mem_nil, false_imp_iff,
    implies_true, and_true]

theorem resolves {packages : List Package} (h : packages ⊆ both.packages) :
    Resolves bare packages (some (Declared.targetDirectory document)) (some sources) where
  targets package hp target ht := ⟨_, canonical_target package (h hp) target ht⟩
  directories _ := by
    have htarget : bare.canonical (Declared.targetDirectory document) =
      .ok (Declared.targetDirectory document) := canonical_bare (by decide)
    exact ⟨by rintro _ ⟨⟩; exact ⟨_, htarget⟩, fun package hp => ⟨_, canonical_root package (h hp)⟩⟩

theorem exists_listing (graph : DependencyGraph) (h : graph.packages ⊆ both.packages) :
    ∃ files, listing bare (Declared.metadata document) graph sources = .ok files :=
  exists_listing_iff.mpr (resolves h)

theorem isRoot_iff {package : Package} {file : Path} (h : package ∈ both.packages) :
    bare.IsRoot package file ↔ ∃ target ∈ package.targets, target.srcPath = file := by
  refine exists_congr fun target => and_congr_right fun ht => ?_
  rw [canonical_target package h target ht]
  exact ⟨Except.ok.inj, congrArg Except.ok⟩

theorem makesEntryPoint_iff {package : Package} {file : Path} (h : package ∈ both.packages) :
    MakesEntryPoint bare sources package file ↔ file ∈ sources ∧
      ∃ target ∈ package.targets, target.kind.role.isEntryPoint = true ∧ target.srcPath = file := by
  rw [Audit.makesEntryPoint_iff fun target ht => ⟨_, canonical_target package h target ht⟩,
    FileSystem.roleOf_isEntryPoint_iff]
  refine and_congr_right fun _ => exists_congr fun target => and_congr_right fun ht => ?_
  rw [canonical_target package h target ht]
  exact and_congr_right fun _ => ⟨Except.ok.inj, congrArg Except.ok⟩

theorem not_entryPoint_both (h : listing bare (Declared.metadata document) both sources = .ok files)
    (hlisted : listed ∈ files) (hpath : listed.path = shared) : listed.role.isEntryPoint = false := by
  have hroot : bare.IsRoot probe shared := (isRoot_iff (by decide)).mpr (by decide)
  have hmakes : ¬ MakesEntryPoint bare sources probe shared := by
    rw [makesEntryPoint_iff (by decide)]
    decide
  rw [← Bool.not_eq_true, isEntryPoint_listed_iff h hlisted, hpath,
    show both.packages = [app] ++ [probe] from rfl, exists_split_concat_iff]
  exact fun hlast => hlast.elim hmakes fun hlast => hlast.1 hroot

theorem entryPoint_swapped
    (h : listing bare (Declared.metadata document) swapped sources = .ok files)
    (hlisted : listed ∈ files) (hpath : listed.path = shared) : listed.role.isEntryPoint = true := by
  rw [isEntryPoint_listed_iff h hlisted, hpath,
    show swapped.packages = [probe] ++ [app] from rfl, exists_split_concat_iff]
  exact .inl ((makesEntryPoint_iff (by decide)).mpr (by decide))

theorem agree_main : Agree bare sources both.packages main := by
  intro p hp q hq hpmain hqmain hmakes
  rw [isRoot_iff hp] at hpmain
  rw [isRoot_iff hq] at hqmain
  have hown : ∀ package ∈ both.packages,
      (∃ target ∈ package.targets, target.srcPath = main) → package = app := by decide
  rwa [hown q hq hqmain, ← hown p hp hpmain]

end Shared

open Shared FileSystem in
/-- The library of one package is listed without its role if a later package tests it, and with it
if the packages come the other way round. -/
theorem listing_hides_entryPoint :
    ∃ metadata, Metadata.ofJson document = .ok metadata ∧
      metadata.buildGraph .default app.id = .ok both ∧ swapped.packages.Perm both.packages ∧
      app ∈ both.packages ∧ MakesEntryPoint bare sources app shared ∧
      (∃ files, listing bare metadata both sources = .ok files ∧
        ∃ listed ∈ files, listed.path = shared ∧ listed.role.isEntryPoint = false) ∧
      ∃ files, listing bare metadata swapped sources = .ok files ∧
        ∃ listed ∈ files, listed.path = shared ∧ listed.role.isEntryPoint = true := by
  obtain ⟨files, hfiles⟩ := exists_listing both (by decide)
  obtain ⟨files', hfiles'⟩ := exists_listing swapped (by decide)
  have hshared : shared ∈ sources := by decide
  obtain ⟨listed, hlisted, hpath⟩ := exists_listed hfiles hshared
  obtain ⟨listed', hlisted', hpath'⟩ := exists_listed hfiles' hshared
  exact ⟨_, Metadata.ofJson_eq wellTyped, buildGraph_both, .swap app probe [], by decide,
    (Shared.makesEntryPoint_iff (by decide)).mpr (by decide),
    ⟨files, hfiles, listed, hlisted, hpath, not_entryPoint_both hfiles hlisted hpath⟩,
    files', hfiles', listed', hlisted', hpath', entryPoint_swapped hfiles' hlisted' hpath'⟩

open Shared FileSystem in
/-- What `app` alone has is listed as an entry point in either order of the packages, and the
metrics of `app` count the shared file too. -/
theorem listing_entryPoints_shared :
    (Declared.metadata document).buildGraph .default app.id = .ok both ∧ sources.Nodup ∧
      Agree bare sources both.packages main ∧
      ∃ files files', listing bare (Declared.metadata document) both sources = .ok files ∧
        listing bare (Declared.metadata document) swapped sources = .ok files' ∧
        (∀ listed ∈ files, listed.path = main → listed.role.isEntryPoint = true) ∧
        (∀ listed ∈ files', listed.path = main → listed.role.isEntryPoint = true) ∧
        ∀ aggregation, (Aggregation.run bare (fun _ => .ok ⟨.zero, true⟩) false
            (some (Declared.targetDirectory document)) both (some sources)).2 = .ok aggregation →
          ∀ metrics, aggregation.metricsOf? app.id = some metrics →
            shared ∈ metrics.entryPoints.map (·.file.path) := by
  have hset : sources.Nodup := by decide
  obtain ⟨hexists, hlisting, hmetrics⟩ := listing_entryPoints (Declared.metadata document) app.id
    .default both bare sources buildGraph_both hset
  obtain ⟨files, hfiles⟩ := hexists.mpr (resolves (by decide))
  obtain ⟨files', hfiles'⟩ := exists_listing swapped (by decide)
  have happ : app ∈ both.packages := by decide
  have hmakes : ∀ file ∈ sources, MakesEntryPoint bare sources app file := fun file hfile =>
    (Shared.makesEntryPoint_iff happ).mpr ⟨hfile, by revert file; decide⟩
  have hmain : main ∈ sources := by decide
  have hfirst : ∀ listed ∈ files, listed.path = main → listed.role.isEntryPoint = true := by
    intro listed hlisted hpath
    have hagree := ((hlisting files hfiles).2 listed hlisted).2 (hpath ▸ agree_main)
    exact hagree.1.mpr ⟨app, happ, hpath ▸ hmakes main hmain⟩
  refine ⟨buildGraph_both, hset, agree_main, files, files', hfiles, hfiles', hfirst,
    fun listed' hlisted' hpath' => ?_, fun aggregation hrun metrics h => ?_⟩
  · obtain ⟨listed, hlisted, hpath⟩ := exists_listed hfiles hmain
    have hagree := ((hlisting files hfiles).2 listed hlisted).2 (hpath ▸ agree_main)
    exact (hagree.2 swapped files' (.swap app probe []) hfiles' listed' hlisted'
      (hpath'.trans hpath.symm)).mpr (hfirst listed hlisted hpath)
  · exact (hmetrics _ false aggregation hrun app happ metrics h shared).mpr
      (hmakes shared (by decide))

end UnsafeAudit.Audit
