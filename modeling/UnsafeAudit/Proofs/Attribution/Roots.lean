import UnsafeAudit.Attribution.TargetFiles
import UnsafeAudit.Proofs.Loops
import UnsafeAudit.Proofs.Search.FirstOccurrences

/-!
# Roots of a package

The root files of a package, as its targets declare them: each canonical source
path once, in the order of the targets, with the role of the first entry point
among the targets that lead there (`targetFiles_eq`). They can be found exactly
if every source path has a canonical path.
-/

namespace UnsafeAudit

theorem FileRole.isEntryPoint_eq_false_iff {role : FileRole} :
    role.isEntryPoint = false ↔ role = .other := by
  simp [isEntryPoint]

namespace FileSystem

variable {fs : FileSystem} {package : Package} {targets : List Target} {target : Target}
  {file path : Path} {compiled : Option (List Path)}

def IsRoot (fs : FileSystem) (package : Package) (file : Path) : Prop :=
  ∃ target ∈ package.targets, fs.canonical target.srcPath = .ok file

/-- The targets of a package can be told apart by their files. -/
def Locates (fs : FileSystem) (targets : List Target) : Prop :=
  ∀ target ∈ targets, ∃ path, fs.canonical target.srcPath = .ok path

def leadsTo (fs : FileSystem) (target : Target) (file : Path) : Bool :=
  (fs.canonical target.srcPath).toOption = some file

/-- The role of the first entry point among the targets that lead to a file. -/
def roleOf (fs : FileSystem) (targets : List Target) (file : Path) : FileRole :=
  match targets.find? fun target => target.kind.role.isEntryPoint && fs.leadsTo target file with
  | some target => target.kind.role
  | none => .other

def rootPaths (fs : FileSystem) (targets : List Target) : List Path :=
  targets.filterMap fun target => (fs.canonical target.srcPath).toOption

theorem leadsTo_iff : fs.leadsTo target file = true ↔ fs.canonical target.srcPath = .ok file := by
  rw [leadsTo, decide_eq_true_iff]
  cases fs.canonical target.srcPath <;> simp [Except.toOption]

theorem mem_rootPaths : file ∈ fs.rootPaths targets ↔
    ∃ target ∈ targets, fs.canonical target.srcPath = .ok file := by
  rw [rootPaths, List.mem_filterMap]
  refine exists_congr fun target => and_congr_right fun _ => ?_
  rw [← leadsTo_iff, leadsTo, decide_eq_true_iff]

theorem rootPaths_concat (h : fs.canonical target.srcPath = .ok path) :
    fs.rootPaths (targets ++ [target]) = fs.rootPaths targets ++ [path] := by
  rw [rootPaths, List.filterMap_append]
  simp [rootPaths, h, Except.toOption]

-- ---------------------------------------------------------------------------
-- Roles
-- ---------------------------------------------------------------------------

theorem roleOf_isEntryPoint_iff : (fs.roleOf targets file).isEntryPoint = true ↔
    ∃ target ∈ targets, target.kind.role.isEntryPoint = true ∧
      fs.canonical target.srcPath = .ok file := by
  rw [roleOf]
  cases hfind : targets.find? fun target =>
    target.kind.role.isEntryPoint && fs.leadsTo target file with
  | some target =>
    have hholds := List.find?_some hfind
    rw [Bool.and_eq_true, leadsTo_iff] at hholds
    exact ⟨fun _ => ⟨target, List.mem_of_find?_eq_some hfind, hholds⟩, fun _ => hholds.1⟩
  | none =>
    refine ⟨nofun, ?_⟩
    rintro ⟨target, hmem, hentry, hleads⟩
    have := List.find?_eq_none.mp hfind target hmem
    simp [hentry, leadsTo_iff.mpr hleads] at this

theorem roleOf_of_not_mem (h : file ∉ fs.rootPaths targets) : fs.roleOf targets file = .other := by
  rw [← FileRole.isEntryPoint_eq_false_iff, ← Bool.not_eq_true, roleOf_isEntryPoint_iff]
  rintro ⟨target, hmem, -, hleads⟩
  exact h (mem_rootPaths.mpr ⟨target, hmem, hleads⟩)

theorem roleOf_of_not_root (h : ¬ fs.IsRoot package file) :
    fs.roleOf package.targets file = .other := roleOf_of_not_mem (mt mem_rootPaths.mp h)

/-- A further target gives a role to its file only, and only if no entry point did before. -/
theorem roleOf_concat (h : fs.canonical target.srcPath = .ok path) :
    fs.roleOf (targets ++ [target]) file =
      if path = file ∧ (fs.roleOf targets file).isEntryPoint = false then target.kind.role
      else fs.roleOf targets file := by
  have hleads : fs.leadsTo target file = decide (path = file) := by
    simp [leadsTo, h, Except.toOption]
  rw [roleOf, List.find?_append, List.find?_singleton, hleads, roleOf]
  cases hfind : targets.find? fun target =>
    target.kind.role.isEntryPoint && fs.leadsTo target file with
  | some first =>
    have hholds := List.find?_some hfind
    rw [Bool.and_eq_true] at hholds
    simp [hholds.1]
  | none =>
    by_cases hpath : path = file
    · cases hentry : target.kind.role.isEntryPoint with
      | true => simp [hpath, FileRole.isEntryPoint]
      | false => simp [hpath, FileRole.isEntryPoint_eq_false_iff.mp hentry]
    · simp [hpath]

end FileSystem

-- ---------------------------------------------------------------------------
-- Collecting roots
-- ---------------------------------------------------------------------------

theorem addRoot_known {paths : List Path} {p : Path} (hn : paths.Nodup) (hp : p ∈ paths)
    (role : Path → FileRole) (r : FileRole) :
    addRoot ⟨p, r⟩ (paths.map fun q => ⟨q, role q⟩) =
      paths.map fun q => ⟨q, if p = q ∧ (role q).isEntryPoint = false then r else role q⟩ := by
  induction paths with
  | nil => cases hp
  | cons q rest ih =>
    obtain ⟨hq, hrest⟩ := List.nodup_cons.mp hn
    rw [List.map_cons, List.map_cons, addRoot]
    by_cases heq : p = q
    · subst heq
      rw [if_pos rfl]
      congr 1
      · cases (role p).isEntryPoint <;> simp
      · refine List.map_congr_left fun q hmem => ?_
        rw [if_neg]
        rintro ⟨rfl, -⟩
        exact hq hmem
    · rw [if_neg (Ne.symm heq), ih hrest ((List.mem_cons.mp hp).resolve_left heq)]
      congr 2
      rw [if_neg]
      exact fun h => heq h.1

theorem addRoot_new {paths : List Path} {p : Path} (hp : p ∉ paths) (role : Path → FileRole)
    (r : FileRole) : addRoot ⟨p, r⟩ (paths.map fun q => ⟨q, role q⟩) =
      paths.map (fun q => ⟨q, role q⟩) ++ [⟨p, r⟩] := by
  induction paths with
  | nil => rfl
  | cons q rest ih =>
    obtain ⟨hne, hrest⟩ := List.ne_and_not_mem_of_not_mem_cons hp
    rw [List.map_cons, addRoot, if_neg (Ne.symm hne), ih hrest, List.cons_append]

namespace FileSystem

variable {fs : FileSystem} {package : Package} {targets : List Target} {target : Target}
  {file path : Path} {compiled : Option (List Path)}

def declaredRoots (fs : FileSystem) (targets : List Target) (compiled : Option (List Path)) :
    List SourceFile :=
  ((fs.rootPaths targets).filter fun path => compiled.all (·.contains path)).eraseDups.map
    fun path => ⟨path, fs.roleOf targets path⟩

theorem declaredRoots_concat (h : fs.canonical target.srcPath = .ok path) :
    fs.declaredRoots (targets ++ [target]) compiled =
      if compiled.all (·.contains path) then
        addRoot ⟨path, target.kind.role⟩ (fs.declaredRoots targets compiled)
      else fs.declaredRoots targets compiled := by
  rw [declaredRoots, declaredRoots, rootPaths_concat h, List.filter_append, List.filter_singleton]
  have hother : ∀ q, path ≠ q → fs.roleOf (targets ++ [target]) q = fs.roleOf targets q := by
    intro q hq
    rw [roleOf_concat h, if_neg fun hand => hq hand.1]
  cases hkept : compiled.all (·.contains path) with
  | true =>
    rw [if_pos rfl, cond_true, eraseDups_concat]
    split
    · rename_i hknown
      rw [addRoot_known (nodup_eraseDups _) (List.mem_eraseDups.mpr hknown)]
      exact List.map_congr_left fun q _ => by rw [roleOf_concat h]
    · rename_i hnew
      have hpath : path ∉ fs.rootPaths targets := fun hmem =>
        hnew (List.mem_filter.mpr ⟨hmem, hkept⟩)
      rw [addRoot_new (by rwa [List.mem_eraseDups]), List.map_append, List.map_singleton,
        roleOf_concat h, roleOf_of_not_mem hpath]
      congr 1
      · refine List.map_congr_left fun q hq => ?_
        rw [hother]
        rintro rfl
        exact hnew (List.mem_eraseDups.mp hq)
      · rw [if_pos ⟨rfl, rfl⟩]
  | false =>
    rw [if_neg Bool.false_ne_true, cond_false, List.append_nil]
    refine List.map_congr_left fun q hq => ?_
    rw [hother]
    rintro rfl
    rw [(List.mem_filter.mp (List.mem_eraseDups.mp hq)).2] at hkept
    cases hkept

theorem targetFiles_eq (h : fs.Locates package.targets) (compiled : Option (List Path)) :
    fs.targetFiles package compiled = .ok (fs.declaredRoots package.targets compiled) := by
  rw [targetFiles]
  generalize package.targets = targets at h
  induction targets using List.reverseRecOn with
  | nil => rfl
  | append_singleton targets target ih =>
    obtain ⟨path, hpath⟩ := h target (by simp)
    rw [List.foldlM_append, ih fun t ht => h t (by simp [ht]), declaredRoots_concat hpath]
    simp only [bind, Except.bind, List.foldlM_cons, List.foldlM_nil, hpath]
    cases compiled.all (·.contains path) <;> rfl

theorem exists_targetFiles_iff (package : Package) (compiled : Option (List Path)) :
    (∃ files, fs.targetFiles package compiled = .ok files) ↔ fs.Locates package.targets := by
  refine ⟨?_, fun h => ⟨_, targetFiles_eq h compiled⟩⟩
  rw [targetFiles]
  generalize ([] : List SourceFile) = found
  generalize package.targets = targets
  induction targets generalizing found with
  | nil => exact fun _ => nofun
  | cons target rest ih =>
    rintro ⟨files, h⟩
    rw [List.foldlM_cons] at h
    obtain ⟨found, hstep, hrest⟩ := of_bind_ok h
    obtain ⟨path, hpath, -⟩ := of_bind_ok hstep
    exact List.forall_mem_cons.mpr ⟨⟨path, hpath⟩, ih found ⟨files, hrest⟩⟩

theorem nodup_declaredRoots (targets : List Target) (compiled : Option (List Path)) :
    ((fs.declaredRoots targets compiled).map (·.path)).Nodup := by
  rw [declaredRoots, List.map_map]
  show (List.map id _).Nodup
  rw [List.map_id]
  exact nodup_eraseDups _

theorem mem_declaredRoots {file : SourceFile} :
    file ∈ fs.declaredRoots package.targets compiled ↔
      fs.IsRoot package file.path ∧ compiled.all (·.contains file.path) ∧
        file.role = fs.roleOf package.targets file.path := by
  obtain ⟨path, role⟩ := file
  simp only [declaredRoots, List.mem_map, List.mem_eraseDups, List.mem_filter, mem_rootPaths,
    SourceFile.mk.injEq, IsRoot]
  constructor
  · rintro ⟨_, ⟨hroot, hkept⟩, rfl, rfl⟩
    exact ⟨hroot, hkept, rfl⟩
  · rintro ⟨hroot, hkept, rfl⟩
    exact ⟨path, ⟨hroot, hkept⟩, rfl, rfl⟩

end FileSystem

end UnsafeAudit
