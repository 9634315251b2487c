import Mathlib.Data.List.Basic
import UnsafeAudit.Attribution.Owners
import UnsafeAudit.Proofs.Loops

/-!
# The owner of a file

A file is owned by the package whose canonical directory is the longest prefix
of its path, the first in package order among those with the same directory;
generated files have no owner. Every other file below the directory of some
package has exactly one (`Owns.unique`, `exists_owns`), and it is the one that
the sorted table of directories gives (`owner?_eq_some_iff`).
-/

namespace UnsafeAudit

/-- The first member with a property after stable sorting is the first among the least ones that
have it. -/
theorem split_of_find?_mergeSort {le : α → α → Bool} {p : α → Bool} {l : List α}
    (htrans : ∀ a b c, le a b → le b c → le a c) (htotal : ∀ a b, le a b || le b a)
    (h : (l.mergeSort le).find? p = some a) :
    ∃ before after, l = before ++ a :: after ∧ p a ∧ (∀ b ∈ before, p b → ¬ le b a) ∧
      ∀ b ∈ after, p b → le a b := by
  induction l with
  | nil => simp at h
  | cons x rest ih =>
    obtain ⟨front, back, hsorted, hrest, hfront⟩ :=
      List.mergeSort_cons htrans htotal x rest
    have hpairwise := List.pairwise_mergeSort htrans htotal (x :: rest)
    rw [hsorted] at h hpairwise
    rw [hrest] at ih
    rw [List.find?_append, List.find?_cons] at h
    rw [List.find?_append] at ih
    cases hfound : front.find? p with
    | some b =>
      rw [hfound] at h ih
      cases h
      obtain ⟨before, after, rfl, hp, hbefore, hafter⟩ := ih rfl
      refine ⟨x :: before, after, rfl, hp, ?_, hafter⟩
      refine List.forall_mem_cons.mpr ⟨fun _ => ?_, hbefore⟩
      simpa using hfront a (List.mem_of_find?_eq_some hfound)
    | none =>
      rw [hfound] at h ih
      cases hx : p x with
      | true =>
        rw [hx] at h
        cases h
        refine ⟨[], rest, rfl, hx, nofun, fun b hb hp => ?_⟩
        have hmem : b ∈ front ++ back := by
          rw [← hrest]
          exact List.mem_mergeSort.mpr hb
        rcases List.mem_append.mp hmem with hb | hb
        · exact absurd hp (List.find?_eq_none.mp hfound b hb)
        · exact (List.pairwise_cons.mp (List.pairwise_append.mp hpairwise).2.1).1 b hb
      | false =>
        rw [hx] at h
        obtain ⟨before, after, rfl, hp, hbefore, hafter⟩ := ih h
        refine ⟨x :: before, after, rfl, hp, ?_, hafter⟩
        exact List.forall_mem_cons.mpr
          ⟨fun hp => absurd (hx.symm.trans hp) Bool.false_ne_true, hbefore⟩

namespace FileSystem

variable {fs : FileSystem} {packages : List Package} {package other : Package}
  {targetDirectory : Option Path} {file root inner : Path}

/-- The canonical directory of a package, if the file lies below it. -/
def Holds (fs : FileSystem) (package : Package) (file root : Path) : Prop :=
  fs.canonical package.root = .ok root ∧ file.isBelow root = true

def IsGenerated (fs : FileSystem) (targetDirectory : Option Path) (file : Path) : Prop :=
  ∃ directory ∈ targetDirectory, ∃ root, fs.canonical directory = .ok root ∧
    file.isBelow root = true

/-- Of the packages below whose directory a file lies, this one has the longest, and is the first
that has it. -/
structure Owns (fs : FileSystem) (packages : List Package) (targetDirectory : Option Path)
    (file : Path) (package : Package) : Prop where
  not_generated : ¬ fs.IsGenerated targetDirectory file
  longest : ∃ before after root, packages = before ++ package :: after ∧
    fs.Holds package file root ∧
    (∀ p ∈ before, ∀ r, fs.Holds p file r → r.components.length < root.components.length) ∧
    (∀ p ∈ after, ∀ r, fs.Holds p file r → r.components.length ≤ root.components.length)

theorem Holds.unique (h : fs.Holds package file root) (h' : fs.Holds package file root') :
    root = root' := Except.ok.inj (h.1.symm.trans h'.1)

theorem Owns.mem (h : fs.Owns packages targetDirectory file package) : package ∈ packages := by
  obtain ⟨before, after, root, rfl, -⟩ := h.longest
  simp

theorem isBelow_of_length_le (h : file.isBelow root = true) (h' : file.isBelow inner = true)
    (hlen : root.components.length ≤ inner.components.length) : inner.isBelow root = true := by
  rw [Path.isBelow, List.isPrefixOf_iff_prefix] at h h' ⊢
  exact List.prefix_of_prefix_length_le h h' hlen

theorem Owns.exists_longest (h : fs.Owns packages targetDirectory file package) :
    ∃ root, fs.Holds package file root ∧ ∀ other ∈ packages, ∀ inner, fs.Holds other file inner →
      inner.components.length ≤ root.components.length := by
  obtain ⟨before, after, root, rfl, hholds, hbefore, hafter⟩ := h.longest
  refine ⟨root, hholds, fun other hother inner hinner => ?_⟩
  rcases List.mem_append.mp hother with hother | hother
  · exact Nat.le_of_lt (hbefore other hother inner hinner)
  · rcases List.mem_cons.mp hother with rfl | hother
    · exact Nat.le_of_eq (congrArg (·.components.length) (hinner.unique hholds))
    · exact hafter other hother inner hinner

theorem Owns.unique (h : fs.Owns packages targetDirectory file package)
    (h' : fs.Owns packages targetDirectory file other) : package = other := by
  obtain ⟨before, after, root, hsplit, hholds, hbefore, hafter⟩ := h.longest
  obtain ⟨before', after', root', hsplit', hholds', hbefore', hafter'⟩ := h'.longest
  rw [hsplit] at hsplit'
  rcases List.append_eq_append_iff.mp hsplit' with ⟨between, rfl, htail⟩ | ⟨between, rfl, htail⟩
  · cases between with
    | nil => cases htail; rfl
    | cons p between =>
      cases htail
      have hlt := hbefore' package (by simp) root hholds
      have hle := hafter other (by simp) root' hholds'
      omega
  · cases between with
    | nil => cases htail; rfl
    | cons p between =>
      cases htail
      have hlt := hbefore other (by simp) root' hholds'
      have hle := hafter' package (by simp) root hholds
      omega

end FileSystem

-- ---------------------------------------------------------------------------
-- The table of directories
-- ---------------------------------------------------------------------------

namespace Ownership

open FileSystem (Owns Holds IsGenerated)

variable {fs : FileSystem} {packages : List Package} {targetDirectory : Option Path}
  {owners : Ownership} {package : Package} {file root : Path} {id : PackageId}
  {roots : List (Path × PackageId)}

theorem depthGE_iff {a b : Path × PackageId} :
    depthGE a b = true ↔ b.1.components.length ≤ a.1.components.length := decide_eq_true_iff

theorem depthGE_trans (a b c : Path × PackageId) (hab : depthGE a b) (hbc : depthGE b c) :
    depthGE a c := by
  rw [depthGE_iff] at hab hbc ⊢
  exact Nat.le_trans hbc hab

theorem depthGE_total (a b : Path × PackageId) : depthGE a b || depthGE b a := by
  rw [Bool.or_eq_true, depthGE_iff, depthGE_iff]
  exact Nat.le_total _ _

theorem of_ofPackages_ok (h : ofPackages fs packages targetDirectory = .ok owners) :
    targetDirectory.mapM fs.canonical = .ok owners.generated ∧
    ∃ roots, (packages.mapM fun package => do
        return (← fs.canonical package.root, package.id) : Except _ _) = .ok roots ∧
      owners.roots = roots.mergeSort depthGE := by
  obtain ⟨generated, hgenerated, h⟩ := of_bind_ok h
  obtain ⟨roots, hroots, h⟩ := of_bind_ok h
  cases h
  exact ⟨hgenerated, roots, hroots, rfl⟩

theorem entry_ok_iff {package : Package} {entry : Path × PackageId} :
    (do return (← fs.canonical package.root, package.id) : Except _ _) = .ok entry ↔
      fs.canonical package.root = .ok entry.1 ∧ entry.2 = package.id := by
  obtain ⟨root, id⟩ := entry
  cases fs.canonical package.root with
  | error e => simp [bind, Except.bind]
  | ok r => simp [bind, Except.bind, pure, Except.pure, eq_comm]

theorem isGenerated_iff (h : ofPackages fs packages targetDirectory = .ok owners) :
    owners.isGenerated file = true ↔ fs.IsGenerated targetDirectory file := by
  have hgenerated := (of_ofPackages_ok h).1
  rw [isGenerated, FileSystem.IsGenerated]
  cases targetDirectory with
  | none =>
    rw [← Except.ok.inj hgenerated]
    simp
  | some directory =>
    obtain ⟨root, hroot, hsome⟩ := optionMapM_some_ok_iff.mp hgenerated
    simp [hsome, hroot]

theorem mem_roots (h : (packages.mapM fun package => do
      return (← fs.canonical package.root, package.id) : Except _ _) = .ok roots) {root : Path} :
    (root, id) ∈ roots ↔ ∃ package ∈ packages, fs.canonical package.root = .ok root ∧
      id = package.id := by
  simp only [mem_of_mapM_ok h, entry_ok_iff]

theorem owns_of_find? (h : ofPackages fs packages targetDirectory = .ok owners)
    (hnot : ¬ fs.IsGenerated targetDirectory file)
    (hfind : owners.roots.find? (fun (root, _) => file.isBelow root) = some (root, id)) :
    ∃ package, fs.Owns packages targetDirectory file package ∧ package.id = id := by
  obtain ⟨-, roots, hroots, hsorted⟩ := of_ofPackages_ok h
  rw [hsorted] at hfind
  obtain ⟨before, after, rfl, hbelow, hbefore, hafter⟩ :=
    split_of_find?_mergeSort depthGE_trans depthGE_total hfind
  obtain ⟨left, package, right, hsplit, hentry, hleft, hright⟩ := split_of_mapM_ok hroots
  obtain ⟨hroot, hid⟩ := entry_ok_iff.mp hentry
  refine ⟨package, ⟨hnot, left, right, root, hsplit, ⟨hroot, hbelow⟩, ?_, ?_⟩, hid.symm⟩
  · intro p hp r hr
    have hle := hbefore (r, p.id) ((mem_roots hleft).mpr ⟨p, hp, hr.1, rfl⟩) hr.2
    rw [depthGE_iff] at hle
    exact Nat.lt_of_not_le hle
  · intro p hp r hr
    exact depthGE_iff.mp (hafter (r, p.id) ((mem_roots hright).mpr ⟨p, hp, hr.1, rfl⟩) hr.2)

theorem exists_owns (h : ofPackages fs packages targetDirectory = .ok owners)
    (hnot : ¬ fs.IsGenerated targetDirectory file) (hmem : package ∈ packages)
    (hholds : fs.Holds package file root) :
    ∃ owner, fs.Owns packages targetDirectory file owner ∧ owners.owner? file = some owner.id := by
  obtain ⟨-, roots, hroots, hsorted⟩ := of_ofPackages_ok h
  have hsome : (owners.roots.find? fun (root, _) => file.isBelow root).isSome := by
    refine List.find?_isSome.mpr ⟨(root, package.id), ?_, hholds.2⟩
    rw [hsorted, List.mem_mergeSort, mem_roots hroots]
    exact ⟨package, hmem, hholds.1, rfl⟩
  obtain ⟨⟨first, id⟩, hfind⟩ := Option.isSome_iff_exists.mp hsome
  obtain ⟨owner, howns, rfl⟩ := owns_of_find? h hnot hfind
  refine ⟨owner, howns, ?_⟩
  rw [owner?, if_neg (mt (isGenerated_iff h).mp hnot), hfind]
  rfl

theorem owner?_eq_some_iff (h : ofPackages fs packages targetDirectory = .ok owners) :
    owners.owner? file = some id ↔
      ∃ package, fs.Owns packages targetDirectory file package ∧ package.id = id := by
  constructor
  · intro howner
    rw [owner?] at howner
    split at howner
    · cases howner
    · rename_i hnot
      obtain ⟨⟨root, id⟩, hfind, rfl⟩ := Option.map_eq_some_iff.mp howner
      exact owns_of_find? h (mt (isGenerated_iff h).mpr hnot) hfind
  · rintro ⟨package, howns, rfl⟩
    obtain ⟨before, after, root, hsplit, hholds, -⟩ := howns.longest
    obtain ⟨owner, howns', howner⟩ :=
      exists_owns h howns.not_generated (by rw [hsplit]; simp) hholds
    rw [howner, howns'.unique howns]

theorem exists_ofPackages_iff : (∃ owners, ofPackages fs packages targetDirectory = .ok owners) ↔
    (∀ directory ∈ targetDirectory, ∃ root, fs.canonical directory = .ok root) ∧
      ∀ package ∈ packages, ∃ root, fs.canonical package.root = .ok root := by
  have hentries : (∃ roots, (packages.mapM fun package => do
      return (← fs.canonical package.root, package.id) : Except _ _) = .ok roots) ↔
      ∀ package ∈ packages, ∃ root, fs.canonical package.root = .ok root := by
    rw [exists_mapM_ok_iff]
    refine forall₂_congr fun package _ => ⟨?_, ?_⟩
    · rintro ⟨entry, h⟩
      exact ⟨entry.1, (entry_ok_iff.mp h).1⟩
    · rintro ⟨root, h⟩
      exact ⟨(root, package.id), entry_ok_iff.mpr ⟨h, rfl⟩⟩
  have hgenerated : (∃ generated, targetDirectory.mapM fs.canonical = .ok generated) ↔
      ∀ directory ∈ targetDirectory, ∃ root, fs.canonical directory = .ok root := by
    cases targetDirectory with
    | none => exact ⟨nofun, fun _ => ⟨none, rfl⟩⟩
    | some directory =>
      simp only [optionMapM_some_ok_iff, Option.mem_some_iff, forall_eq']
      exact ⟨fun ⟨_, root, h, _⟩ => ⟨root, h⟩, fun ⟨root, h⟩ => ⟨_, root, h, rfl⟩⟩
  rw [← hentries, ← hgenerated]
  constructor
  · rintro ⟨owners, h⟩
    obtain ⟨hgenerated, roots, hroots, -⟩ := of_ofPackages_ok h
    exact ⟨⟨_, hgenerated⟩, roots, hroots⟩
  · rintro ⟨⟨generated, hgenerated⟩, roots, hroots⟩
    refine ⟨⟨generated, roots.mergeSort depthGE⟩, ?_⟩
    rw [ofPackages, hgenerated, hroots]
    rfl

theorem mem_filesOf {files : List Path} : file ∈ owners.filesOf files id ↔
    file ∈ files ∧ owners.owner? file = some id := by
  rw [filesOf, List.mem_filter, decide_eq_true_iff, Path.sort, List.mem_mergeSort]

theorem nodup_filesOf {files : List Path} (h : files.Nodup) : (owners.filesOf files id).Nodup :=
  ((List.mergeSort_perm files Path.le).nodup_iff.mpr h).sublist List.filter_sublist

end Ownership

end UnsafeAudit
