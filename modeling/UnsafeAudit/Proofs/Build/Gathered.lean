import Mathlib.Data.List.Perm.Basic
import UnsafeAudit.Build.SharedContext

/-!
# What a context gathers

A context counts the invocations that were recorded in it and holds their source
roots and output directories, each once. The order of recording shows only in
the order in which it lists them (`Gathers.alike`).
-/

namespace UnsafeAudit.BuildContext

variable {context a b : BuildContext} {invs : List Invocation} {paths : List Path} {p q : Path}

theorem mem_addPath : q ∈ addPath paths p ↔ q ∈ paths ∨ q = p := by
  unfold addPath
  split
  · rename_i hp
    constructor
    · exact .inl
    · rintro (hq | rfl)
      · exact hq
      · exact hp
  · simp

theorem nodup_addPath (h : paths.Nodup) : (addPath paths p).Nodup := by
  unfold addPath
  split
  · exact h
  · rename_i hp
    exact List.nodup_append.mpr ⟨h, by simp, by simp; rintro r hr rfl; exact hp hr⟩

theorem mem_foldl_addPath (new : List Path) :
    q ∈ new.foldl addPath paths ↔ q ∈ paths ∨ q ∈ new := by
  induction new generalizing paths with
  | nil => simp
  | cons p rest ih => rw [List.foldl_cons, ih, mem_addPath, List.mem_cons, or_assoc]

theorem nodup_foldl_addPath (h : paths.Nodup) (new : List Path) :
    (new.foldl addPath paths).Nodup := by
  induction new generalizing paths with
  | nil => exact h
  | cons p rest ih => exact ih (nodup_addPath h)

/-- A context holds what some invocations add up to. -/
structure Gathers (context : BuildContext) (invs : List Invocation) : Prop where
  count_eq : context.invocationCount = invs.length
  mem_roots : ∀ path, path ∈ context.sourceRoots ↔ ∃ inv ∈ invs, path ∈ inv.sourceRoots
  mem_dirs : ∀ path, path ∈ context.outDirs ↔ ∃ inv ∈ invs, inv.outDir = some path
  nodup_roots : context.sourceRoots.Nodup
  nodup_dirs : context.outDirs.Nodup

/-- Two contexts are the same but for the order in which they list paths. -/
structure Alike (a b : BuildContext) : Prop where
  count_eq : a.invocationCount = b.invocationCount
  roots : a.sourceRoots.Perm b.sourceRoots
  dirs : a.outDirs.Perm b.outDirs

namespace Gathers

theorem empty : BuildContext.empty.Gathers [] := by
  constructor <;> simp [BuildContext.empty]

theorem record (h : context.Gathers invs) (inv : Invocation) :
    (context.record inv).Gathers (invs ++ [inv]) := by
  constructor
  case count_eq => rw [List.length_append, ← h.count_eq]; rfl
  case mem_roots =>
    intro path
    show path ∈ inv.sourceRoots.foldl addPath context.sourceRoots ↔ _
    rw [mem_foldl_addPath, h.mem_roots]
    simp [or_and_right, exists_or]
  case mem_dirs =>
    intro path
    show path ∈ inv.outDir.toList.foldl addPath context.outDirs ↔ _
    rw [mem_foldl_addPath, h.mem_dirs]
    simp [or_and_right, exists_or]
  case nodup_roots => exact nodup_foldl_addPath h.nodup_roots _
  case nodup_dirs => exact nodup_foldl_addPath h.nodup_dirs _

theorem perm (h : context.Gathers invs) (hp : invs.Perm others) : context.Gathers others where
  count_eq := h.count_eq.trans hp.length_eq
  mem_roots path := by simp only [h.mem_roots, hp.mem_iff]
  mem_dirs path := by simp only [h.mem_dirs, hp.mem_iff]
  nodup_roots := h.nodup_roots
  nodup_dirs := h.nodup_dirs

theorem alike (ha : a.Gathers invs) (hb : b.Gathers invs) : a.Alike b where
  count_eq := ha.count_eq.trans hb.count_eq.symm
  roots := (List.perm_ext_iff_of_nodup ha.nodup_roots hb.nodup_roots).mpr fun path => by
    rw [ha.mem_roots, hb.mem_roots]
  dirs := (List.perm_ext_iff_of_nodup ha.nodup_dirs hb.nodup_dirs).mpr fun path => by
    rw [ha.mem_dirs, hb.mem_dirs]

end Gathers

end UnsafeAudit.BuildContext
