import UnsafeAudit.Proofs.Attribution.Roots
import UnsafeAudit.Proofs.Attribution.Spelling
import UnsafeAudit.Proofs.FileSystem.Resolvable

/-!
# Entry points come before other roots

Several targets of a package may share a root file, and each may spell its path
in its own way. The file is listed once, where the first of these targets
stands, and as an entry point if any of them makes it one (`ListsRoots`). So
neither the order of the targets nor the files of a build change what is an
entry point (`targetFiles_precedence`).
-/

namespace UnsafeAudit

def TargetKind.entryKinds : List TargetKind := [.lib, .bin, .customBuild]

theorem TargetKind.isEntryPoint_role_iff {kind : TargetKind} :
    kind.role.isEntryPoint = true ↔ kind ∈ entryKinds := by
  cases kind <;> decide

namespace FileSystem

open TargetKind (entryKinds)

variable {fs : FileSystem} {package : Package} {targets : List Target} {target : Target}
  {before after : List Target} {file other : Path} {compiled : Option (List Path)}
  {files : List SourceFile}

/-- A target leads to a file before any leads to the other one. -/
def DeclaredBefore (fs : FileSystem) (targets : List Target) (file other : Path) : Prop :=
  ∃ front target back, targets = front ++ target :: back ∧ fs.canonical target.srcPath = .ok file ∧
    ∀ t ∈ front ++ [target], fs.canonical t.srcPath ≠ .ok other

/-- The roots of targets are listed: each canonical source path once, of those that a build compiled
if there was one, in the order in which the targets come to it. It is an entry point if a target of
such a kind leads to it, in the role of the first one that does. -/
structure ListsRoots (fs : FileSystem) (targets : List Target) (compiled : Option (List Path))
    (files : List SourceFile) : Prop where
  mem_iff : ∀ path, path ∈ files.map (·.path) ↔
    (∃ target ∈ targets, fs.canonical target.srcPath = .ok path) ∧ ∀ listed ∈ compiled, path ∈ listed
  nodup : (files.map (·.path)).Nodup
  ordered : (files.map (·.path)).Pairwise (fs.DeclaredBefore targets)
  entry_iff : ∀ file ∈ files, file.role.isEntryPoint = true ↔
    ∃ target ∈ targets, target.kind ∈ entryKinds ∧ fs.canonical target.srcPath = .ok file.path
  role : ∀ file ∈ files, ∀ before target after, targets = before ++ target :: after →
    fs.canonical target.srcPath = .ok file.path → target.kind ∈ entryKinds →
    (∀ t ∈ before, fs.canonical t.srcPath = .ok file.path → t.kind ∉ entryKinds) →
    file.role = target.kind.role

-- ---------------------------------------------------------------------------
-- Order and roles
-- ---------------------------------------------------------------------------

theorem declaredBefore_of_rootPaths {front back : List Path}
    (h : fs.rootPaths targets = front ++ file :: back) (hother : other ∉ front ++ [file]) :
    fs.DeclaredBefore targets file other := by
  obtain ⟨first, rest, rfl, hfront, hrest⟩ := List.filterMap_eq_append_iff.mp h
  obtain ⟨skipped, target, last, rfl, hskipped, hfile, -⟩ := List.filterMap_eq_cons_iff.mp hrest
  refine ⟨first ++ skipped, target, last, by simp, ?_, fun t ht hleads => hother ?_⟩
  · exact leadsTo_iff.mp (decide_eq_true hfile)
  · have hfound : (fs.canonical t.srcPath).toOption = some other := by rw [hleads]; rfl
    simp only [List.mem_append, List.mem_singleton] at ht ⊢
    rcases ht with (ht | ht) | rfl
    · exact .inl (hfront ▸ List.mem_filterMap.mpr ⟨t, ht, hfound⟩)
    · cases (hskipped t ht).symm.trans hfound
    · exact .inr (Option.some.inj (hfound.symm.trans hfile))

theorem pairwise_declaredRoots (targets : List Target) (compiled : Option (List Path)) :
    ((fs.declaredRoots targets compiled).map (·.path)).Pairwise (fs.DeclaredBefore targets) := by
  have hpaths : (fs.declaredRoots targets compiled).map (·.path) =
      (fs.rootPaths targets).eraseDups.filter fun path => compiled.all (·.contains path) := by
    rw [declaredRoots, List.map_map, filter_eraseDups]
    exact List.map_id _
  rw [hpaths]
  refine (List.Pairwise.filter _ (pairwise_eraseDups _)).imp ?_
  rintro file other ⟨front, back, hroots, hother⟩
  exact declaredBefore_of_rootPaths hroots hother

theorem roleOf_eq_of_first (hleads : fs.canonical target.srcPath = .ok file)
    (hentry : target.kind.role.isEntryPoint = true)
    (hfirst : ∀ t ∈ before, fs.canonical t.srcPath = .ok file → t.kind.role.isEntryPoint = false) :
    fs.roleOf (before ++ target :: after) file = target.kind.role := by
  have hnone : (before.find? fun t => t.kind.role.isEntryPoint && fs.leadsTo t file) = none := by
    refine List.find?_eq_none.mpr fun t ht => ?_
    rw [Bool.and_eq_true, leadsTo_iff]
    rintro ⟨hkind, hleads⟩
    rw [hfirst t ht hleads] at hkind
    cases hkind
  rw [roleOf, List.find?_append, hnone, Option.none_or, List.find?_cons_of_pos]
  rw [hentry, leadsTo_iff.mpr hleads]
  rfl

theorem listsRoots_declaredRoots (package : Package) (compiled : Option (List Path)) :
    fs.ListsRoots package.targets compiled (fs.declaredRoots package.targets compiled) where
  mem_iff path := by
    simp only [List.mem_map, mem_declaredRoots, IsRoot, Option.all_eq_true, List.contains_iff_mem]
    constructor
    · rintro ⟨file, ⟨hroot, hkept, -⟩, rfl⟩
      exact ⟨hroot, hkept⟩
    · rintro ⟨hroot, hkept⟩
      exact ⟨⟨path, fs.roleOf package.targets path⟩, ⟨hroot, hkept, rfl⟩, rfl⟩
  nodup := nodup_declaredRoots _ _
  ordered := pairwise_declaredRoots _ _
  entry_iff file hfile := by
    rw [(mem_declaredRoots.mp hfile).2.2, roleOf_isEntryPoint_iff]
    simp only [TargetKind.isEntryPoint_role_iff]
  role file hfile before target after htargets hleads hkind hfirst := by
    rw [(mem_declaredRoots.mp hfile).2.2, htargets]
    refine roleOf_eq_of_first hleads (TargetKind.isEntryPoint_role_iff.mpr hkind) fun t ht hleads => ?_
    rw [Bool.eq_false_iff]
    exact fun hentry => hfirst t ht hleads (TargetKind.isEntryPoint_role_iff.mp hentry)

theorem targetFiles_ok_iff : fs.targetFiles package compiled = .ok files ↔
    fs.Locates package.targets ∧ files = fs.declaredRoots package.targets compiled := by
  constructor
  · intro h
    have hlocates := (exists_targetFiles_iff package compiled).mp ⟨files, h⟩
    rw [targetFiles_eq hlocates] at h
    exact ⟨hlocates, (Except.ok.inj h).symm⟩
  · rintro ⟨hlocates, rfl⟩
    exact targetFiles_eq hlocates compiled

-- ---------------------------------------------------------------------------
-- The files of a build
-- ---------------------------------------------------------------------------

/-- A search for roots fails at the first target that leads nowhere, whatever the build compiled. -/
theorem targetFiles_eq_map (package : Package) (compiled : Option (List Path)) :
    fs.targetFiles package compiled =
      (package.targets.mapM fun target => fs.canonical target.srcPath).map
        fun _ => fs.declaredRoots package.targets compiled := by
  cases hpaths : package.targets.mapM fun target => fs.canonical target.srcPath with
  | ok paths => exact targetFiles_eq (exists_mapM_ok_iff.mp ⟨paths, hpaths⟩) compiled
  | error e =>
    rw [targetFiles]
    generalize package.targets = targets, ([] : List SourceFile) = found at hpaths ⊢
    induction targets generalizing found with
    | nil => cases hpaths
    | cons target rest ih =>
      rw [List.mapM_cons] at hpaths
      rw [List.foldlM_cons]
      rcases bind_eq_error_iff.mp hpaths with hpath | ⟨path, hpath, hrest⟩
      · rw [hpath]
        rfl
      · rcases bind_eq_error_iff.mp hrest with hrest | ⟨paths, -, ⟨⟩⟩
        rw [hpath]
        show (if _ then _ else _) >>= _ = _
        split <;> exact ih _ hrest

theorem declaredRoots_some (targets : List Target) (listed : List Path) :
    fs.declaredRoots targets (some listed) =
      (fs.declaredRoots targets none).filter fun file => listed.contains file.path := by
  rw [declaredRoots, declaredRoots, List.filter_map]
  congr 1
  simp only [Option.all_none, List.filter_true, ← filter_eraseDups]
  rfl

theorem targetFiles_some (package : Package) (listed : List Path) :
    fs.targetFiles package (some listed) =
      (fs.targetFiles package none).map (·.filter fun file => listed.contains file.path) := by
  rw [targetFiles_eq_map, targetFiles_eq_map, declaredRoots_some]
  cases package.targets.mapM fun target => fs.canonical target.srcPath <;> rfl

-- ---------------------------------------------------------------------------
-- The order of targets
-- ---------------------------------------------------------------------------

def ListsEntry (files : List SourceFile) (path : Path) : Prop :=
  ∃ file ∈ files, file.path = path ∧ file.role.isEntryPoint = true

theorem ListsRoots.listsEntry_iff (h : fs.ListsRoots targets compiled files) {path : Path} :
    ListsEntry files path ↔ path ∈ files.map (·.path) ∧
      ∃ target ∈ targets, target.kind ∈ entryKinds ∧ fs.canonical target.srcPath = .ok path := by
  constructor
  · rintro ⟨file, hfile, rfl, hentry⟩
    exact ⟨List.mem_map_of_mem hfile, (h.entry_iff file hfile).mp hentry⟩
  · rintro ⟨hpath, hentry⟩
    obtain ⟨file, hfile, rfl⟩ := List.mem_map.mp hpath
    exact ⟨file, hfile, rfl, (h.entry_iff file hfile).mpr hentry⟩

theorem ListsRoots.perm {targets' : List Target} {files' : List SourceFile}
    (h : fs.ListsRoots targets compiled files) (h' : fs.ListsRoots targets' compiled files')
    (hperm : targets.Perm targets') (path : Path) :
    (path ∈ files'.map (·.path) ↔ path ∈ files.map (·.path)) ∧
      (ListsEntry files' path ↔ ListsEntry files path) := by
  have hmem : path ∈ files'.map (·.path) ↔ path ∈ files.map (·.path) := by
    rw [h.mem_iff, h'.mem_iff]
    simp only [hperm.mem_iff]
  refine ⟨hmem, ?_⟩
  rw [h.listsEntry_iff, h'.listsEntry_iff, hmem]
  simp only [hperm.mem_iff]

theorem exists_targetFiles_of_perm {targets' : List Target}
    (h : fs.targetFiles package compiled = .ok files) (hperm : package.targets.Perm targets') :
    ∃ files', fs.targetFiles { package with targets := targets' } compiled = .ok files' ∧
      ∀ path, (path ∈ files'.map (·.path) ↔ path ∈ files.map (·.path)) ∧
        (ListsEntry files' path ↔ ListsEntry files path) := by
  obtain ⟨hlocates, rfl⟩ := targetFiles_ok_iff.mp h
  have hlocates' : fs.Locates targets' := fun target ht => hlocates target (hperm.mem_iff.mpr ht)
  exact ⟨_, targetFiles_ok_iff.mpr ⟨hlocates', rfl⟩,
    (listsRoots_declaredRoots package compiled).perm (listsRoots_declaredRoots _ compiled) hperm⟩

-- ---------------------------------------------------------------------------
-- Main statement
-- ---------------------------------------------------------------------------

theorem locates_iff (hfs : fs.WellFormed) (hclean : fs.CleanLinks)
    (hloops : ∀ target ∈ targets, ¬ fs.ComesBack target.srcPath) :
    fs.Locates targets ↔ ∀ target ∈ targets, target.srcPath.hasNull = false :=
  forall₂_congr fun target ht => exists_canonical_iff hfs hclean (hloops target ht)

/-- The roots of a package whose targets lead through no loop of links are found, unless a source
path is none that a file can have. What is found lists the roots. It depends on the order of targets
neither in which files it holds nor in which of them are entry points, and for a build it is what of
all roots was compiled. -/
theorem targetFiles_precedence (fs : FileSystem) (package : Package)
    (compiled : Option (List Path)) :
    (fs.WellFormed → fs.CleanLinks →
      (∀ target ∈ package.targets, ¬ fs.ComesBack target.srcPath) →
      ((∃ files, fs.targetFiles package compiled = .ok files) ↔
        ∀ target ∈ package.targets, target.srcPath.hasNull = false)) ∧
    (∀ files, fs.targetFiles package compiled = .ok files →
      fs.ListsRoots package.targets compiled files ∧
        ∀ targets, package.targets.Perm targets →
          ∃ files', fs.targetFiles { package with targets } compiled = .ok files' ∧
            ∀ path, (path ∈ files'.map (·.path) ↔ path ∈ files.map (·.path)) ∧
              (ListsEntry files' path ↔ ListsEntry files path)) ∧
    ∀ listed, fs.targetFiles package (some listed) =
      (fs.targetFiles package none).map (·.filter fun file => listed.contains file.path) := by
  refine ⟨fun hfs hclean hloops => ?_, fun files h => ⟨?_, fun targets => ?_⟩,
    targetFiles_some package⟩
  · rw [exists_targetFiles_iff, locates_iff hfs hclean hloops]
  · obtain ⟨-, rfl⟩ := targetFiles_ok_iff.mp h
    exact listsRoots_declaredRoots package compiled
  · exact exists_targetFiles_of_perm h

/-- An example and the library share a file, which the example names through a link and the library
by going up from the directory. The library comes last and still gives the file its role. -/
theorem targetFiles_precedence_aliased :
    let package : Package := ⟨⟨"app", "0.1.0", none, "app 0.1.0"⟩, .atRoot ["Cargo.toml"], none, none,
      [], [⟨"demo", .exampleLib, .atRoot ["code", "lib.rs"]⟩,
        ⟨"app", .lib, .ofString "/src/../code/./lib.rs"⟩]⟩
    (aliased.WellFormed ∧ aliased.CleanLinks ∧
      (∀ target ∈ package.targets, ¬ aliased.ComesBack target.srcPath) ∧
      ∀ target ∈ package.targets, target.srcPath.hasNull = false) ∧
    ∃ files, aliased.targetFiles package none = .ok files ∧
      (∀ path, path ∈ files.map (·.path) ↔ path = .atRoot ["src", "lib.rs"]) ∧
      ∀ file ∈ files, file.role = .libraryRoot := by
  intro package
  obtain ⟨hcode, hsource⟩ := arrivesAt_aliased
  have hfs : aliased.WellFormed := ⟨by decide +kernel, _, rfl⟩
  have hclean : aliased.CleanLinks := by
    intro loc target hentry
    have hlinks : aliased.links = [["code"]] := rfl
    have hloc := mem_links_of_entry hentry
    rw [hlinks, List.mem_singleton] at hloc
    subst hloc
    cases hentry
    decide
  have harrives : ∀ target ∈ package.targets, aliased.ArrivesAt target.srcPath ["src", "lib.rs"] := by
    simpa [package] using ⟨hcode, hsource⟩
  have hloops : ∀ target ∈ package.targets, ¬ aliased.ComesBack target.srcPath :=
    fun target ht => not_comesBack_of_arrivesAt hfs (harrives target ht)
  have hnull : ∀ target ∈ package.targets, target.srcPath.hasNull = false := by decide +kernel
  have hcanonical : ∀ target ∈ package.targets,
      aliased.canonical target.srcPath = .ok (.atRoot ["src", "lib.rs"]) :=
    fun target ht => canonical_of_arrivesAt hfs (harrives target ht)
  obtain ⟨hexists, hfound, -⟩ := targetFiles_precedence aliased package none
  obtain ⟨files, hfiles⟩ := (hexists hfs hclean hloops).mpr hnull
  have hroots := (hfound files hfiles).1
  have hpaths : ∀ path, path ∈ files.map (·.path) ↔ path = .atRoot ["src", "lib.rs"] := by
    intro path
    rw [hroots.mem_iff]
    constructor
    · rintro ⟨⟨target, ht, hleads⟩, -⟩
      exact (Except.ok.inj ((hcanonical target ht).symm.trans hleads)).symm
    · rintro rfl
      exact ⟨⟨_, List.mem_cons_self, hcanonical _ List.mem_cons_self⟩, nofun⟩
  refine ⟨⟨hfs, hclean, hloops, hnull⟩, files, hfiles, hpaths, fun file hfile => ?_⟩
  have hpath : file.path = .atRoot ["src", "lib.rs"] :=
    (hpaths file.path).mp (List.mem_map_of_mem hfile)
  refine hroots.role file hfile [_] _ [] rfl ?_ (by decide) (by simp [entryKinds])
  rw [hpath]
  exact hcanonical _ (by simp [package])

end FileSystem

end UnsafeAudit
