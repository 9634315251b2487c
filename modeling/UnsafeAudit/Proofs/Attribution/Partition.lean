import UnsafeAudit.Proofs.Attribution.Counted
import UnsafeAudit.Proofs.FileSystem.Unresolved
import UnsafeAudit.Proofs.Path.Order

/-!
# Files by owner

The owners of files part them: no file has two, and the files of each are sorted. In which order the
files were listed does not matter, nor does the order of the packages, unless two of them have the
same directory (`filesOf_partition`).
-/

namespace UnsafeAudit

namespace FileSystem

variable {fs : FileSystem} {packages others : List Package} {package owner : Package}
  {targetDirectory : Option Path} {file root inner : Path}

/-- Packages that have the same directory have the same identity. -/
def SeparateRoots (fs : FileSystem) (packages : List Package) : Prop :=
  ∀ p ∈ packages, ∀ q ∈ packages, ∀ root, fs.canonical p.root = .ok root →
    fs.canonical q.root = .ok root → p.id = q.id

theorem Holds.eq_of_length_eq (h : fs.Holds package file root) (h' : fs.Holds owner file inner)
    (hlen : root.components.length = inner.components.length) : root = inner := by
  obtain ⟨loc, rfl⟩ := canonical_ok h.1
  obtain ⟨loc', rfl⟩ := canonical_ok h'.1
  have hbelow := isBelow_of_length_le h.2 h'.2 (Nat.le_of_eq hlen)
  rw [Path.isBelow, List.isPrefixOf_iff_prefix] at hbelow
  exact Path.eq_of_components_eq_of_isAbsolute rfl rfl (hbelow.eq_of_length hlen)

/-- The order of packages decides only between those that have the same directory. -/
theorem Owns.id_eq_of_perm (hseparate : fs.SeparateRoots packages) (hperm : packages.Perm others)
    (h : fs.Owns packages targetDirectory file package)
    (h' : fs.Owns others targetDirectory file owner) : package.id = owner.id := by
  obtain ⟨root, hholds, hlongest⟩ := h.exists_longest
  obtain ⟨inner, hholds', hlongest'⟩ := h'.exists_longest
  have howner : owner ∈ packages := hperm.mem_iff.mpr h'.mem
  have hlen : root.components.length = inner.components.length :=
    Nat.le_antisymm (hlongest' package (hperm.mem_iff.mp h.mem) root hholds)
      (hlongest owner howner inner hholds')
  obtain rfl := hholds.eq_of_length_eq hholds' hlen
  exact hseparate package h.mem owner howner root hholds.1 hholds'.1

end FileSystem

namespace Ownership

variable {fs : FileSystem} {packages others : List Package} {targetDirectory : Option Path}
  {owners owners' : Ownership} {files relisted : List Path} {file : Path} {id : PackageId}

theorem components_inj_of_isAbsolute (h : ∀ file ∈ files, file.isAbsolute = true) :
    ∀ a ∈ files, ∀ b ∈ files, a.components = b.components → a = b :=
  fun a ha b hb => Path.eq_of_components_eq_of_isAbsolute (h a ha) (h b hb)

theorem filesOf_perm (habsolute : ∀ file ∈ files, file.isAbsolute = true)
    (h : files.Perm relisted) (id : PackageId) :
    owners.filesOf relisted id = owners.filesOf files id := by
  rw [filesOf, filesOf,
    Path.sort_eq_of_perm_of_components h (components_inj_of_isAbsolute habsolute)]

theorem pairwise_filesOf (hset : files.Nodup) (habsolute : ∀ file ∈ files, file.isAbsolute = true)
    (id : PackageId) : (owners.filesOf files id).Pairwise Path.Precedes :=
  (Path.pairwise_sort_of_nodup hset (components_inj_of_isAbsolute habsolute)).sublist
    List.filter_sublist

theorem exists_ofPackages_of_perm (hperm : packages.Perm others)
    (h : ofPackages fs packages targetDirectory = .ok owners) :
    ∃ owners', ofPackages fs others targetDirectory = .ok owners' := by
  obtain ⟨hgenerated, hroots⟩ := exists_ofPackages_iff.mp ⟨owners, h⟩
  exact exists_ofPackages_iff.mpr
    ⟨hgenerated, fun package hmem => hroots package (hperm.mem_iff.mpr hmem)⟩

theorem owner?_imp_of_perm (hseparate : fs.SeparateRoots packages) (hperm : packages.Perm others)
    (h : ofPackages fs packages targetDirectory = .ok owners)
    (h' : ofPackages fs others targetDirectory = .ok owners')
    (howner : owners.owner? file = some id) : owners'.owner? file = some id := by
  obtain ⟨package, howns, rfl⟩ := (owner?_eq_some_iff h).mp howner
  obtain ⟨root, hholds, -⟩ := howns.exists_longest
  obtain ⟨owner, howns', howner'⟩ :=
    exists_owns h' howns.not_generated (hperm.mem_iff.mp howns.mem) hholds
  rw [howner', howns.id_eq_of_perm hseparate hperm howns']

theorem filesOf_eq_of_perm (hseparate : fs.SeparateRoots packages) (hperm : packages.Perm others)
    (h : ofPackages fs packages targetDirectory = .ok owners)
    (h' : ofPackages fs others targetDirectory = .ok owners') (files : List Path) (id : PackageId) :
    owners'.filesOf files id = owners.filesOf files id := by
  have hseparate' : fs.SeparateRoots others := fun p hp q hq =>
    hseparate p (hperm.mem_iff.mpr hp) q (hperm.mem_iff.mpr hq)
  refine List.filter_congr fun file _ => decide_eq_decide.mpr ⟨?_, ?_⟩
  · exact owner?_imp_of_perm hseparate' hperm.symm h' h
  · exact owner?_imp_of_perm hseparate hperm h h'

/-- Who owns which of some files is known if all directories that it takes have a canonical path,
and only then. A file is listed for the package that owns it and for no other, and for none if it
is generated or below no package. The files of each package are sorted strictly. All this is the
same however the files are listed, and however the packages are, if no two share a directory. -/
theorem filesOf_partition (fs : FileSystem) (packages : List Package)
    (targetDirectory : Option Path) (files : List Path) (hset : files.Nodup)
    (habsolute : ∀ file ∈ files, file.isAbsolute = true) :
    ((∃ owners, ofPackages fs packages targetDirectory = .ok owners) ↔
      (∀ directory ∈ targetDirectory, ∃ root, fs.canonical directory = .ok root) ∧
        ∀ package ∈ packages, ∃ root, fs.canonical package.root = .ok root) ∧
    ∀ owners, ofPackages fs packages targetDirectory = .ok owners →
      (∀ id file, file ∈ owners.filesOf files id ↔ file ∈ files ∧
        ∃ package, fs.Owns packages targetDirectory file package ∧ package.id = id) ∧
      (∀ file id other, file ∈ owners.filesOf files id → file ∈ owners.filesOf files other →
        id = other) ∧
      (∀ file ∈ files, (∃ id, file ∈ owners.filesOf files id) ↔
        ¬ fs.IsGenerated targetDirectory file ∧
          ∃ package ∈ packages, ∃ root, fs.Holds package file root) ∧
      (∀ id, (owners.filesOf files id).Pairwise Path.Precedes) ∧
      (∀ relisted, files.Perm relisted → ∀ id,
        owners.filesOf relisted id = owners.filesOf files id) ∧
      ∀ others, packages.Perm others → fs.SeparateRoots packages →
        ∃ owners', ofPackages fs others targetDirectory = .ok owners' ∧
          ∀ id, owners'.filesOf files id = owners.filesOf files id := by
  refine ⟨exists_ofPackages_iff, fun owners h => ⟨fun id file => ?_, ?_, fun file hfile => ?_,
    pairwise_filesOf hset habsolute, fun _ => filesOf_perm habsolute, ?_⟩⟩
  · rw [mem_filesOf, owner?_eq_some_iff h]
  · intro file id other hid hother
    have hid := (mem_filesOf.mp hid).2
    have hother := (mem_filesOf.mp hother).2
    exact Option.some.inj (hid.symm.trans hother)
  · simp only [mem_filesOf, hfile, true_and]
    constructor
    · rintro ⟨id, howner⟩
      obtain ⟨package, howns, -⟩ := (owner?_eq_some_iff h).mp howner
      obtain ⟨root, hholds, -⟩ := howns.exists_longest
      exact ⟨howns.not_generated, package, howns.mem, root, hholds⟩
    · rintro ⟨hnot, package, hmem, root, hholds⟩
      obtain ⟨owner, -, howner⟩ := exists_owns h hnot hmem hholds
      exact ⟨owner.id, howner⟩
  · intro others hperm hseparate
    obtain ⟨owners', h'⟩ := exists_ofPackages_of_perm hperm h
    exact ⟨owners', h', filesOf_eq_of_perm hseparate hperm h h' files⟩

end Ownership

namespace Aggregation.Nested

open FileSystem (bare)

/-- Turned round, the packages still own the same files, and the inner one the file that is below
both. -/
theorem filesOf_partition_nested :
    sources.Nodup ∧ (∀ file ∈ sources, file.isAbsolute = true) ∧
    ∃ owners owners', Ownership.ofPackages bare graph.packages (some generated) = .ok owners ∧
      Ownership.ofPackages bare graph.packages.reverse (some generated) = .ok owners' ∧
      helper ∈ owners.filesOf sources inner.id ∧
      (∀ id, (owners.filesOf sources id).Pairwise Path.Precedes) ∧
      ∀ id, owners'.filesOf sources id = owners.filesOf sources id := by
  have hset : sources.Nodup := by decide
  have habsolute : ∀ file ∈ sources, file.isAbsolute = true := by decide
  obtain ⟨hexists, hall⟩ :=
    Ownership.filesOf_partition bare graph.packages (some generated) sources hset habsolute
  obtain ⟨owners, howners⟩ := hexists.mpr (resolves.directories rfl)
  obtain ⟨hmem, -, howned, hsorted, -, hperm⟩ := hall owners howners
  have hseparate : bare.SeparateRoots graph.packages := by
    intro p hp q hq root hroot hroot'
    rw [canonical_root p hp] at hroot
    rw [canonical_root q hq] at hroot'
    have hroots : ∀ p ∈ graph.packages, ∀ q ∈ graph.packages, p.root = q.root → p.id = q.id := by
      decide
    exact hroots p hp q hq (Except.ok.inj (hroot.trans hroot'.symm))
  obtain ⟨owners', howners', heq⟩ :=
    hperm graph.packages.reverse (List.reverse_perm _).symm hseparate
  have hholds : bare.Holds inner helper inner.root :=
    ⟨canonical_root _ (by decide), by decide⟩
  have houter : ∀ r, bare.Holds outer helper r →
      r.components.length < inner.root.components.length := by
    rintro r ⟨hr, -⟩
    rw [canonical_root outer (by decide)] at hr
    cases hr
    decide
  refine ⟨hset, habsolute, owners, owners', howners, howners', ?_, hsorted, heq⟩
  refine (hmem _ _).mpr ⟨by decide, inner, ⟨not_generated, ?_⟩, rfl⟩
  exact ⟨[outer], [], _, rfl, hholds, by simpa using houter, nofun⟩

end Aggregation.Nested

end UnsafeAudit
