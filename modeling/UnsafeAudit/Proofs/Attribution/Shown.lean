import UnsafeAudit.Proofs.Attribution.Modes
import UnsafeAudit.Proofs.Metadata.Closure
import UnsafeAudit.Proofs.Metadata.Loading

/-!
# Verdicts and the packages that are shown

Which files a package owns is told from the packages of the graph alone. A
package that the graph leaves out owns nothing, and what was compiled below its
directory goes to the package around it. So a verdict depends on what is shown
(`verdict_depends_on_shown`), but only through packages inside of one another's
directories: whether unsafe code is forbidden never changes, a verdict stays if
both graphs have the same packages inside, and showing more packages can only
take unsafe code away (`run_shown_packages`).
-/

namespace UnsafeAudit

namespace FileSystem

variable {fs : FileSystem} {few many : List Package} {package other : Package}
  {targetDirectory : Option Path} {file root inner : Path}

/-- The directory of a package lies at or below that of another. -/
def Encloses (fs : FileSystem) (outer inner : Package) : Prop :=
  ∃ root, fs.canonical outer.root = .ok root ∧
    ∃ below, fs.canonical inner.root = .ok below ∧ below.isBelow root = true

theorem Holds.encloses (h : fs.Holds package file root) (h' : fs.Holds other file inner)
    (hlen : root.components.length ≤ inner.components.length) : fs.Encloses package other :=
  ⟨root, h.1, inner, h'.1, isBelow_of_length_le h.2 h'.2 hlen⟩

theorem owns_of_longest (hmem : package ∈ many) (hnot : ¬ fs.IsGenerated targetDirectory file)
    (hholds : fs.Holds package file root)
    (hlongest : ∀ other ∈ many, other ≠ package → ∀ inner, fs.Holds other file inner →
      inner.components.length < root.components.length) :
    fs.Owns many targetDirectory file package := by
  obtain ⟨before, after, rfl, hnew⟩ := List.eq_append_cons_of_mem hmem
  refine ⟨hnot, before, after, root, rfl, hholds, fun other hother => ?_, ?_⟩
  · have hne : other ≠ package := fun h => hnew (h ▸ hother)
    exact hlongest other (by simp [hother]) hne
  · intro other hother inner hinner
    by_cases heq : other = package
    · subst heq
      exact Nat.le_of_eq (congrArg (·.components.length) (hinner.unique hholds))
    · exact Nat.le_of_lt (hlongest other (by simp [hother]) heq inner hinner)

/-- A package that owns a file among some packages owns it among others as well, if those of them
that have their directory at or below its own and hold the file were there already, and have it
strictly below. -/
theorem Owns.transfer (h : fs.Owns few targetDirectory file package) (hmem : package ∈ many)
    (hothers : ∀ other ∈ many, other ≠ package → fs.Encloses package other →
      (∃ inner, fs.Holds other file inner) → other ∈ few ∧ ¬ fs.Encloses other package) :
    fs.Owns many targetDirectory file package := by
  obtain ⟨root, hholds, hlongest⟩ := h.exists_longest
  refine owns_of_longest hmem h.not_generated hholds fun other hother hne inner hinner => ?_
  -- a directory that is no shorter lies below the owner's, and there it would have been before
  by_contra hlen
  obtain ⟨hfew, hnot⟩ :=
    hothers other hother hne (hholds.encloses hinner (Nat.le_of_not_lt hlen)) ⟨inner, hinner⟩
  exact hnot (hinner.encloses hholds (hlongest other hfew inner hinner))

end FileSystem

namespace Aggregation

section

variable {fs : FileSystem} {scan : ScanFile} {packages few many : List Package}
  {package other : Package} {targetDirectory : Option Path} {compiled : Option (List Path)}
  {file : Path} {metrics fewer more : PackageMetrics} {entry : FileMetrics}

/-- Another package has its directory at or below that of `package`, and a Rust file was compiled
there that is no root of `package`. -/
def Disputes (fs : FileSystem) (compiled : Option (List Path)) (other package : Package) : Prop :=
  fs.Encloses package other ∧ ∃ listed ∈ compiled, ∃ file ∈ listed, file.suffix = sourceSuffix ∧
    ¬ fs.IsRoot package file ∧ ∃ root, fs.Holds other file root

/-- Files count alike among some packages and among others, if those of the others that dispute a
file were there already, and have their directories strictly below. -/
theorem Counts.transfer (h : Counts fs few targetDirectory compiled package file)
    (hmem : package ∈ many)
    (hothers : ∀ other ∈ many, other ≠ package → Disputes fs compiled other package →
      other ∈ few ∧ ¬ fs.Encloses other package) :
    Counts fs many targetDirectory compiled package file := by
  cases compiled with
  | none => exact h
  | some listed =>
    obtain ⟨hlisted, hroot | ⟨hsuffix, howns⟩⟩ := h
    · exact ⟨hlisted, .inl hroot⟩
    · by_cases hroot : fs.IsRoot package file
      · exact ⟨hlisted, .inl hroot⟩
      · refine ⟨hlisted, .inr ⟨hsuffix, howns.transfer hmem fun other hother hne hencl hholds => ?_⟩⟩
        exact hothers other hother hne ⟨hencl, listed, rfl, file, hlisted, hsuffix, hroot, hholds⟩

theorem counts_entryPoint_iff (hrole : (fs.roleOf package.targets file).isEntryPoint = true) :
    Counts fs packages targetDirectory compiled package file ↔ ∀ listed ∈ compiled, file ∈ listed := by
  obtain ⟨target, hmem, hentry, hleads⟩ := FileSystem.roleOf_isEntryPoint_iff.mp hrole
  cases compiled with
  | none => exact ⟨fun _ => nofun, fun _ => ⟨target, hmem, hentry, hleads⟩⟩
  | some listed =>
    refine ⟨fun h files hfiles => ?_, fun h => ⟨h listed rfl, .inl ⟨target, hmem, hleads⟩⟩⟩
    cases hfiles
    exact h.1

theorem Covers.mem_entryPoints
    (h : Covers fs scan packages targetDirectory compiled package metrics) :
    entry ∈ metrics.entryPoints ↔ entry.file.role.isEntryPoint = true ∧
      (∀ listed ∈ compiled, entry.file.path ∈ listed) ∧
      entry.file.role = fs.roleOf package.targets entry.file.path ∧
      scan entry.file.path = .ok entry.usage := by
  simp only [PackageMetrics.entryPoints, FileMetrics.isEntryPoint, List.mem_filter, List.mem_map]
  constructor
  · rintro ⟨⟨⟨file, listed⟩, hlisted, rfl⟩, hentry⟩
    obtain ⟨hcounts, hfile, hscan⟩ := (h.mem_files file listed).mp hlisted
    rw [hfile] at hentry ⊢
    exact ⟨hentry, (counts_entryPoint_iff hentry).mp hcounts, rfl, hscan⟩
  · rintro ⟨hentry, hcompiled, hrole, hscan⟩
    refine ⟨⟨(entry.file.path, entry), (h.mem_files _ _).mpr ⟨?_, ?_, hscan⟩, rfl⟩, hentry⟩
    · exact (counts_entryPoint_iff (hrole ▸ hentry)).mpr hcompiled
    · rw [← hrole]

theorem Covers.within_of_disputes
    (hfewer : Covers fs scan few targetDirectory compiled package fewer)
    (hmore : Covers fs scan many targetDirectory compiled package more) (hmem : package ∈ many)
    (hothers : ∀ other ∈ many, other ≠ package → Disputes fs compiled other package →
      other ∈ few ∧ ¬ fs.Encloses other package) : fewer.Within more := by
  refine hfewer.within hmore (fun file h => h.transfer hmem hothers) fun file hrole h => ?_
  exact (counts_entryPoint_iff hrole).mpr ((counts_entryPoint_iff hrole).mp h)

end

/-- How the verdict of a package in two graphs of one root is related. Unsafe code is forbidden in
both or in neither. If the packages that dispute a file of it are in both graphs, with their
directories strictly below its own, the verdicts are equal. If one graph includes all kinds of
dependencies of the other it has all its packages, and where no package disputes a file from the
same directory, the verdict stays or unsafe code is no longer counted for it. Both verdicts are
there if partial results are allowed and all paths lead somewhere. -/
theorem run_shown_packages (metadata : Metadata) (root : PackageId) (fewer more : GraphConfig)
    (few many : DependencyGraph) (fs : FileSystem) (scan : ScanFile)
    (targetDirectory : Option Path) (compiled : Option (List Path)) (package : Package)
    (hforward : fewer.invert = false) (hforward' : more.invert = false)
    (hfew : metadata.buildGraph fewer root = .ok few)
    (hmany : metadata.buildGraph more root = .ok many)
    (hset : ∀ listed ∈ compiled, listed.Nodup)
    (hmem : package ∈ few.packages) (hmem' : many.contains package.id)
    (hscans : Scans fs scan few.packages targetDirectory compiled package)
    (hscans' : Scans fs scan many.packages targetDirectory compiled package) :
    (Resolves fs few.packages targetDirectory compiled →
      Resolves fs many.packages targetDirectory compiled →
      (∃ first, (run fs scan true targetDirectory few compiled).2 = .ok first) ∧
        ∃ second, (run fs scan true targetDirectory many compiled).2 = .ok second) ∧
    ((∀ kind, fewer.includes kind → more.includes kind) → few.packages ⊆ many.packages) ∧
    ∀ allowPartial allowPartial' first second,
      (run fs scan allowPartial targetDirectory few compiled).2 = .ok first →
      (run fs scan allowPartial' targetDirectory many compiled).2 = .ok second →
      (first.verdictOf package.id = .forbidsUnsafeEverywhere ↔
        second.verdictOf package.id = .forbidsUnsafeEverywhere) ∧
      ((∀ other, other ∈ few.packages ∨ other ∈ many.packages → other ≠ package →
          Disputes fs compiled other package →
          other ∈ few.packages ∧ other ∈ many.packages ∧ ¬ fs.Encloses other package) →
        first.verdictOf package.id = second.verdictOf package.id) ∧
      ((∀ kind, fewer.includes kind → more.includes kind) →
        (∀ other ∈ many.packages, other ≠ package → Disputes fs compiled other package →
          ¬ fs.Encloses other package) →
        first.verdictOf package.id = second.verdictOf package.id ∨
          first.verdictOf package.id = .unsafeDetected ∧
            second.verdictOf package.id = .noneDetectedButNotForbidden) := by
  have hdrawn := Metadata.drawn_of_buildGraph_ok hforward hfew
  have hdrawn' := Metadata.drawn_of_buildGraph_ok hforward' hmany
  -- the second graph has the same package under the identity, not only one of the same name
  obtain ⟨shown, hshown, hid⟩ := List.mem_map.mp (DependencyGraph.contains_iff.mp hmem')
  obtain rfl : shown = package := hdrawn'.eq_of_id_eq hdrawn hshown hmem hid
  refine ⟨fun hresolves hresolves' => ⟨?_, ?_⟩, hdrawn.subset hdrawn', ?_⟩
  · exact (exists_run_iff hdrawn.nodup_ids hset).mpr ⟨hresolves, .inl rfl⟩
  · exact (exists_run_iff hdrawn'.nodup_ids hset).mpr ⟨hresolves', .inl rfl⟩
  intro allowPartial allowPartial' first second hfirst hsecond
  obtain ⟨own, hown, hcovers⟩ := exists_covers hdrawn.nodup_ids hset hfirst hmem hscans
  obtain ⟨own', hown', hcovers'⟩ := exists_covers hdrawn'.nodup_ids hset hsecond hshown hscans'
  rw [verdictOf, verdictOf, hown, hown']
  refine ⟨?_, fun hothers => ?_, fun hkinds hothers => ?_⟩
  · refine PackageMetrics.forbids_iff_of_entryPoints fun entry => ?_
    rw [hcovers.mem_entryPoints, hcovers'.mem_entryPoints]
  · refine PackageMetrics.Within.verdict_eq (hcovers'.within_of_disputes hcovers hmem ?_)
      (hcovers.within_of_disputes hcovers' hshown ?_)
    · intro other hother hne hdisputes
      exact (hothers other (.inl hother) hne hdisputes).2
    · intro other hother hne hdisputes
      obtain ⟨hleft, -, hnot⟩ := hothers other (.inr hother) hne hdisputes
      exact ⟨hleft, hnot⟩
  · have hsub := hdrawn.subset hdrawn' hkinds
    refine PackageMetrics.Within.eq_or_unsafe (hcovers'.within_of_disputes hcovers hmem ?_)
    intro other hother hne hdisputes
    exact ⟨hsub hother, hothers other (hsub hother) hne hdisputes⟩

-- ---------------------------------------------------------------------------
-- A package inside of another that is not always shown
-- ---------------------------------------------------------------------------

namespace Generator

open FileSystem (bare canonical_bare)
open Declared (metadata WellTyped Sample.node Sample.dependency)

def describe (id directory : String) : Json := .obj [
  ("id", .str id), ("name", .str id), ("version", .str "1"),
  ("manifest_path", .str (directory ++ "/Cargo.toml")),
  ("targets", .arr [.obj [("name", .str id), ("kind", .arr [.str "lib"]),
    ("src_path", .str (directory ++ "/lib.rs"))]])]

/-- To build the package `app` takes another one, which is kept below its directory. -/
def document : Json := .obj [
  ("packages", .arr [describe "app" "/app", describe "gen" "/app/gen"]),
  ("resolve", .obj [("nodes", .arr [
    Sample.node "app" [Sample.dependency "gen" (.str "build")], Sample.node "gen" []])])]

def package (name : String) (directory : List String) : Package :=
  ⟨⟨name, "1", none, name⟩, .atRoot (directory ++ ["Cargo.toml"]), none, none, [],
    [⟨name, .lib, .atRoot (directory ++ ["lib.rs"])⟩]⟩

def app : Package := package "app" ["app"]
def gen : Package := package "gen" ["app", "gen"]

def withBuildDeps : GraphConfig := ⟨true, false, false, false⟩

def alone : DependencyGraph := ⟨[app], []⟩
def shown : DependencyGraph := ⟨[app, gen], [⟨app.id, gen.id, .build⟩]⟩

def appCode : Path := .atRoot ["app", "lib.rs"]
def genCode : Path := .atRoot ["app", "gen", "lib.rs"]
def sources : List Path := [appCode, genCode]

def scan : ScanFile := fun file => .ok ⟨⟨if file = genCode then 1 else 0, 0, 0, 0, 0⟩, false⟩

theorem wellTyped : WellTyped document := by decide

theorem buildGraph_alone : (metadata document).buildGraph .default app.id = .ok alone := by rfl

theorem buildGraph_shown : (metadata document).buildGraph withBuildDeps app.id = .ok shown := by rfl

theorem canonical_target : ∀ package ∈ shown.packages, ∀ target ∈ package.targets,
    bare.canonical target.srcPath = .ok target.srcPath := by
  simp only [shown, app, gen, package, List.forall_mem_cons, List.not_mem_nil, false_imp_iff,
    implies_true, and_true]
  exact ⟨canonical_bare (by decide), canonical_bare (by decide)⟩

theorem canonical_root : ∀ package ∈ shown.packages,
    bare.canonical package.root = .ok package.root := by
  have happ : bare.canonical app.root = .ok app.root := canonical_bare (by decide)
  have hgen : bare.canonical gen.root = .ok gen.root := canonical_bare (by decide)
  simp only [shown, List.forall_mem_cons, happ, hgen, List.not_mem_nil, false_imp_iff,
    implies_true, and_true]

theorem resolves {packages : List Package} (h : packages ⊆ shown.packages) :
    Resolves bare packages none (some sources) where
  targets package hp target ht := ⟨_, canonical_target package (h hp) target ht⟩
  directories _ := ⟨nofun, fun package hp => ⟨_, canonical_root package (h hp)⟩⟩

theorem scans {packages : List Package} : Scans bare scan packages none (some sources) p :=
  fun _ _ => ⟨_, rfl⟩

theorem not_root : ¬ bare.IsRoot app genCode := by
  rintro ⟨target, ht, h⟩
  rw [canonical_target app (by decide) target ht] at h
  have hne : ∀ target ∈ app.targets, target.srcPath ≠ genCode := by decide
  exact hne target ht (Except.ok.inj h)

theorem owns_alone : bare.Owns alone.packages none genCode app := by
  refine FileSystem.owns_of_longest (by decide) (by rintro ⟨_, ⟨⟩, -⟩)
    ⟨canonical_root app (by decide), by decide⟩ ?_
  intro other hother hne
  exact absurd (List.mem_singleton.mp hother) hne

theorem owns_shown : bare.Owns shown.packages none genCode gen := by
  refine FileSystem.owns_of_longest (by decide) (by rintro ⟨_, ⟨⟩, -⟩)
    ⟨canonical_root gen (by decide), by decide⟩ ?_
  intro other hother hne inner hinner
  obtain rfl : other = app := by simpa [shown, hne] using hother
  rw [hinner.unique ⟨canonical_root app (by decide), by decide⟩]
  decide

theorem exists_entryPoint {packages : List Package} {metrics : PackageMetrics}
    (h : Covers bare scan packages none (some sources) app metrics) :
    ∃ entry ∈ metrics.entryPoints, entry.usage.forbidsUnsafe = false := by
  refine ⟨⟨⟨appCode, bare.roleOf app.targets appCode⟩, ⟨⟨0, 0, 0, 0, 0⟩, false⟩⟩,
    h.mem_entryPoints.mpr ⟨?_, ?_, rfl, rfl⟩, rfl⟩
  · have hlib : ∃ target ∈ app.targets, target.kind.role.isEntryPoint = true ∧
        target.srcPath = appCode := by decide
    obtain ⟨target, ht, hrole, hpath⟩ := hlib
    have hleads := canonical_target app (by decide) target ht
    rw [hpath] at hleads
    exact FileSystem.roleOf_isEntryPoint_iff.mpr ⟨target, ht, hrole, hpath ▸ hleads⟩
  · rintro _ ⟨⟩
    decide

end Generator

open Generator FileSystem in
/-- While its build dependency is left out `app` has unsafe code; with it shown, it has none. -/
theorem verdict_depends_on_shown :
    ∃ metadata, Metadata.ofJson document = .ok metadata ∧
      metadata.buildGraph .default app.id = .ok alone ∧
      metadata.buildGraph withBuildDeps app.id = .ok shown ∧
      app ∈ alone.packages ∧ app ∈ shown.packages ∧
      (∀ file, ∃ usage, scan file = .ok usage) ∧
      ∃ first second,
        (run bare scan false none alone (some sources)).2 = .ok first ∧
        (run bare scan false none shown (some sources)).2 = .ok second ∧
        first.verdictOf app.id = .unsafeDetected ∧
        second.verdictOf app.id = .noneDetectedButNotForbidden := by
  have hset : ∀ listed ∈ some sources, listed.Nodup := by rintro _ ⟨⟩; decide
  have hids : (alone.packages.map (·.id)).Nodup := by decide
  have hids' : (shown.packages.map (·.id)).Nodup := by decide
  obtain ⟨first, hfirst⟩ : ∃ first,
      (run bare scan false none alone (some sources)).2 = .ok first :=
    (exists_run_iff hids hset).mpr ⟨resolves (by decide), .inr fun _ _ => scans⟩
  obtain ⟨second, hsecond⟩ : ∃ second,
      (run bare scan false none shown (some sources)).2 = .ok second :=
    (exists_run_iff hids' hset).mpr ⟨resolves (by decide), .inr fun _ _ => scans⟩
  have hmem : app ∈ alone.packages := by decide
  have hmem' : app ∈ shown.packages := by decide
  obtain ⟨own, hown, hcovers⟩ := exists_covers hids hset hfirst hmem scans
  obtain ⟨own', hown', hcovers'⟩ := exists_covers hids' hset hsecond hmem' scans
  refine ⟨_, Metadata.ofJson_eq wellTyped, buildGraph_alone, buildGraph_shown, hmem, hmem',
    fun _ => ⟨_, rfl⟩, first, second, hfirst, hsecond, ?_, ?_⟩
  · rw [verdictOf, hown, Verdict.ofMetrics_eq_unsafe_iff]
    have hcounts : Counts bare alone.packages none (some sources) app genCode :=
      ⟨by decide, .inr ⟨by decide, owns_alone⟩⟩
    have hlisted := (hcovers.mem_files genCode
      ⟨⟨genCode, bare.roleOf app.targets genCode⟩, ⟨⟨1, 0, 0, 0, 0⟩, false⟩⟩).mpr
        ⟨hcounts, rfl, rfl⟩
    exact ⟨exists_entryPoint hcovers, _, hlisted, rfl⟩
  · rw [verdictOf, hown']
    obtain ⟨entry, hentry, hallows⟩ := exists_entryPoint hcovers'
    refine Verdict.eq_none_of_ne (fun hforbids => ?_) fun hunsafe => ?_
    · rw [(Verdict.ofMetrics_eq_forbids_iff.mp hforbids).2 entry hentry] at hallows
      cases hallows
    · obtain ⟨-, ⟨file, listed⟩, hlisted, hcode⟩ := Verdict.ofMetrics_eq_unsafe_iff.mp hunsafe
      obtain ⟨hcounts, -, hscan⟩ := (hcovers'.mem_files file listed).mp hlisted
      have hfile : file = genCode := by
        by_contra hne
        rw [scan, if_neg hne] at hscan
        rw [← Except.ok.inj hscan] at hcode
        cases hcode
      subst hfile
      obtain ⟨-, hroot | ⟨-, howns⟩⟩ := hcounts
      · exact not_root hroot
      · exact absurd (howns.unique owns_shown) (by decide)

open Generator FileSystem in
/-- The unsafe code of what is left out counts for `app` until it is shown. -/
theorem run_shown_packages_generator :
    GraphConfig.default.invert = false ∧ withBuildDeps.invert = false ∧
    ∃ metadata, Metadata.ofJson document = .ok metadata ∧
      metadata.buildGraph .default app.id = .ok alone ∧
      metadata.buildGraph withBuildDeps app.id = .ok shown ∧
      sources.Nodup ∧ app ∈ alone.packages ∧ shown.contains app.id ∧
      Scans bare scan alone.packages none (some sources) app ∧
      Scans bare scan shown.packages none (some sources) app ∧
      ∃ first second,
        (run bare scan true none alone (some sources)).2 = .ok first ∧
        (run bare scan true none shown (some sources)).2 = .ok second ∧
        (first.verdictOf app.id = second.verdictOf app.id ∨
          first.verdictOf app.id = .unsafeDetected ∧
            second.verdictOf app.id = .noneDetectedButNotForbidden) := by
  have hset : ∀ listed ∈ some sources, listed.Nodup := by rintro _ ⟨⟩; decide
  obtain ⟨hexist, -, hverdicts⟩ := run_shown_packages (Declared.metadata document) app.id .default
    withBuildDeps alone shown bare scan none (some sources) app rfl rfl buildGraph_alone
    buildGraph_shown hset (by decide) (by decide) scans scans
  obtain ⟨⟨first, hfirst⟩, second, hsecond⟩ := hexist (resolves (by decide)) (resolves (by decide))
  obtain ⟨-, -, hmore⟩ := hverdicts true true first second hfirst hsecond
  refine ⟨rfl, rfl, _, Metadata.ofJson_eq wellTyped, buildGraph_alone, buildGraph_shown, by decide,
    by decide, by decide, scans, scans, first, second, hfirst, hsecond, hmore ?_ ?_⟩
  · rintro (_ | _ | _ | _ | _) <;> decide
  rintro other hother hne - ⟨root, hroot, below, hbelow, hlies⟩
  obtain rfl : other = gen := by simpa [shown, hne] using hother
  rw [canonical_root gen (by decide)] at hroot
  rw [canonical_root app (by decide)] at hbelow
  cases hroot
  cases hbelow
  revert hlies
  decide

end Aggregation

end UnsafeAudit
