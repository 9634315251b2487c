import Mathlib.Data.List.Nodup
import UnsafeAudit.Attribution.Aggregate
import UnsafeAudit.Proofs.Loops

/-!
# Scanned packages

A package is scanned file by file; its metrics list all its files or there are
none (`of_scanPackage_ok`). Scanning packages one after the other gives the
metrics of those whose files all scan, in order (`scanPackages_ok_iff`), and
each package has its own there (`find?_filterMap`).
-/

namespace UnsafeAudit.Aggregation

variable {scan : ScanFile} {id : PackageId} {found : List SourceFile} {metrics : PackageMetrics}
  {files : Package → Except ResolveError (List SourceFile)} {allowPartial : Bool}
  {package : Package} {packages : List Package}

-- ---------------------------------------------------------------------------
-- One package
-- ---------------------------------------------------------------------------

theorem entry_ok_iff {file : SourceFile} {entry : Path × FileMetrics} :
    (do return (file.path, FileMetrics.mk file (← scan file.path)) : Except _ _) = .ok entry ↔
      entry.1 = file.path ∧ entry.2.file = file ∧ scan file.path = .ok entry.2.usage := by
  obtain ⟨path, ⟨source, usage⟩⟩ := entry
  cases scan file.path with
  | error e => simp [bind, Except.bind]
  | ok result => simp [bind, Except.bind, pure, Except.pure, eq_comm]

theorem exists_scanPackage_iff : (∃ metrics, scanPackage scan id found = .ok metrics) ↔
    ∀ file ∈ found, ∃ usage, scan file.path = .ok usage := by
  have hentries : (∃ entries, (found.mapM fun file => do
      return (file.path, FileMetrics.mk file (← scan file.path)) : Except _ _) = .ok entries) ↔
      ∀ file ∈ found, ∃ usage, scan file.path = .ok usage := by
    rw [exists_mapM_ok_iff]
    refine forall₂_congr fun file _ => ⟨?_, ?_⟩
    · rintro ⟨entry, h⟩
      exact ⟨_, (entry_ok_iff.mp h).2.2⟩
    · rintro ⟨usage, h⟩
      exact ⟨(file.path, ⟨file, usage⟩), entry_ok_iff.mpr ⟨rfl, rfl, h⟩⟩
  rw [← hentries]
  constructor
  · rintro ⟨metrics, h⟩
    obtain ⟨entries, h, -⟩ := of_bind_ok h
    exact ⟨entries, h⟩
  · rintro ⟨entries, h⟩
    refine ⟨⟨id, entries⟩, ?_⟩
    rw [scanPackage, h]
    rfl

theorem of_scanPackage_ok (h : scanPackage scan id found = .ok metrics) :
    metrics.packageId = id ∧ metrics.files.map (·.1) = found.map (·.path) ∧
      ∀ path entry, (path, entry) ∈ metrics.files ↔
        entry.file ∈ found ∧ entry.file.path = path ∧ scan path = .ok entry.usage := by
  obtain ⟨entries, hentries, h⟩ := of_bind_ok h
  cases h
  refine ⟨rfl, map_of_mapM_ok hentries fun file entry h => (entry_ok_iff.mp h).1, ?_⟩
  intro path entry
  rw [mem_of_mapM_ok hentries]
  simp only [entry_ok_iff]
  constructor
  · rintro ⟨file, hfile, rfl, rfl, hscan⟩
    exact ⟨hfile, rfl, hscan⟩
  · rintro ⟨hfile, rfl, hscan⟩
    exact ⟨_, hfile, rfl, rfl, hscan⟩

-- ---------------------------------------------------------------------------
-- One package after the other
-- ---------------------------------------------------------------------------

def scanned? (files : Package → Except ResolveError (List SourceFile)) (scan : ScanFile)
    (package : Package) : Option PackageMetrics :=
  match files package with
  | .error _ => none
  | .ok found => (scanPackage scan package.id found).toOption

theorem scanned?_eq_some_iff : scanned? files scan package = some metrics ↔
    ∃ found, files package = .ok found ∧ scanPackage scan package.id found = .ok metrics := by
  rw [scanned?]
  cases files package with
  | error e => simp
  | ok found =>
    simp only [Except.ok.injEq, exists_eq_left']
    cases scanPackage scan package.id found <;> simp [Except.toOption]

theorem scanPackages_ok_iff {metrics : List PackageMetrics} :
    (scanPackages files scan allowPartial packages).2 = .ok metrics ↔
      (∀ package ∈ packages, ∃ found, files package = .ok found) ∧
      (allowPartial = true ∨ ∀ package ∈ packages, (scanned? files scan package).isSome) ∧
      metrics = packages.filterMap (scanned? files scan) := by
  induction packages generalizing metrics with
  | nil =>
    constructor
    · rintro ⟨⟩
      exact ⟨nofun, .inr nofun, rfl⟩
    · rintro ⟨-, -, rfl⟩
      rfl
  | cons package rest ih =>
    rw [scanPackages, List.forall_mem_cons, List.forall_mem_cons, List.filterMap_cons]
    cases hfound : files package with
    | error e => simp
    | ok found =>
      cases hscan : scanPackage scan package.id found with
      | ok own =>
        have hown : scanned? files scan package = some own := by
          simp only [scanned?, hfound, hscan]
          rfl
        simp only [hscan, hown]
        constructor
        · intro h
          cases hrest : (scanPackages files scan allowPartial rest).2 with
          | error e =>
            rw [hrest] at h
            cases h
          | ok others =>
            rw [hrest] at h
            cases h
            obtain ⟨hfiles, hall, rfl⟩ := ih.mp hrest
            exact ⟨⟨⟨found, rfl⟩, hfiles⟩, hall.imp_right fun h => ⟨rfl, h⟩, rfl⟩
        · rintro ⟨⟨-, hfiles⟩, hall, rfl⟩
          rw [ih.mpr ⟨hfiles, hall.imp_right (·.2), rfl⟩]
          rfl
      | error e =>
        have hnone : scanned? files scan package = none := by
          simp only [scanned?, hfound, hscan]
          rfl
        simp only [hscan, hnone]
        cases allowPartial with
        | true => simpa using ih
        | false => simp

theorem find?_filterMap {f : Package → Option PackageMetrics}
    (hf : ∀ p m, f p = some m → m.packageId = p.id) (hn : (packages.map (·.id)).Nodup)
    (hmem : package ∈ packages) :
    (packages.filterMap f).find? (·.packageId = package.id) = f package := by
  induction packages with
  | nil => cases hmem
  | cons p rest ih =>
    obtain ⟨hp, hrest⟩ := List.nodup_cons.mp hn
    rw [List.filterMap_cons]
    rcases List.mem_cons.mp hmem with rfl | hmem
    · have hnone : (rest.filterMap f).find? (·.packageId = package.id) = none := by
        refine List.find?_eq_none.mpr fun m hm => ?_
        obtain ⟨q, hq, hm⟩ := List.mem_filterMap.mp hm
        rw [hf q m hm]
        simp only [decide_eq_true_eq]
        exact fun heq => hp (List.mem_map.mpr ⟨q, hq, heq⟩)
      cases hm : f package with
      | none => exact hnone
      | some m => simp [hf package m hm]
    · have hne : p.id ≠ package.id := fun heq => hp (List.mem_map.mpr ⟨package, hmem, heq.symm⟩)
      cases hm : f p with
      | none => exact ih hrest hmem
      | some m => simpa [hf p m hm, hne] using ih hrest hmem

end UnsafeAudit.Aggregation
