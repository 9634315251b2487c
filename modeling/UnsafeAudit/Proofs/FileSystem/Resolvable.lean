import UnsafeAudit.Proofs.FileSystem.Canonical
import UnsafeAudit.Proofs.FileSystem.Unresolved

/-!
# Paths that resolve

A walk that gets to its end has passed no name with the null character
(`walkLinks_nameable`), and it stops at one only if the path or the target of a
link has it (`walkLinks_ne_nullName`). So a path without loops resolves exactly
if it could be the path of a file at all (`exists_resolve_iff`,
`exists_canonical_iff`).
-/

namespace UnsafeAudit.FileSystem

variable {fs : FileSystem} {strict : Bool} {here there : Reached} {link : Location}
  {entered : List (Location × Option Reached)} {todo rest : List Todo} {path result : Path}
  {name target : String} {loc : Location}

/-- No link has the null character in its target, as none of a file system does. -/
def CleanLinks (fs : FileSystem) : Prop :=
  ∀ loc target, fs.entry loc = .ok (.link target) → '\x00' ∉ target.toList

theorem cleanLinks_of_links (h : fs.links = []) : fs.CleanLinks := fun _ _ hentry =>
  absurd (mem_links_of_entry hentry) (h ▸ List.not_mem_nil)

def Nameable (todo : List Todo) : Prop :=
  ∀ name ∈ todo.filterMap Todo.name?, '\x00' ∉ name.toList

theorem nameable_nil : Nameable [] := by simp [Nameable]

@[simp] theorem nameable_name : Nameable (.name name :: rest) ↔
    '\x00' ∉ name.toList ∧ Nameable rest := by
  simp [Nameable, Todo.name?]

@[simp] theorem nameable_leave : Nameable (.leave link :: rest) ↔ Nameable rest := by
  simp [Nameable, Todo.name?]

theorem nameable_names {names : List String} : Nameable (names.map .name ++ rest) ↔
    (∀ name ∈ names, '\x00' ∉ name.toList) ∧ Nameable rest := by
  rw [Nameable, filterMap_name?]
  simp [Nameable, or_imp, forall_and]

theorem nameable_parts : Nameable (path.parts.map .name) ↔ path.hasNull = false := by
  rw [← List.append_nil (path.parts.map _), nameable_names, Path.hasNull, List.any_eq_false]
  simp [nameable_nil]

theorem CleanLinks.pieces (h : fs.CleanLinks) (hentry : fs.entry loc = .ok (.link target)) :
    ∀ name ∈ pieces target, '\x00' ∉ name.toList := by
  rintro _ hname hnull
  obtain ⟨piece, hpiece, rfl⟩ := List.mem_map.mp hname
  exact h loc target hentry (Text.subset_of_mem_splitOn hpiece (by simpa using hnull))

-- ---------------------------------------------------------------------------
-- Walks
-- ---------------------------------------------------------------------------

theorem not_mem_of_stays (h : (name = "" || name = ".") = true) : '\x00' ∉ name.toList := by
  rw [Bool.or_eq_true, decide_eq_true_iff, decide_eq_true_iff] at h
  rcases h with rfl | rfl <;> decide

/-- A walk gets to its end past names only that a file can have. -/
theorem walkLinks_nameable (h : fs.walkLinks strict entered here todo = .reached there) :
    Nameable todo := by
  fun_induction walkLinks fs strict entered here todo with
  | case1 => exact nameable_nil
  | case2 entered here link rest ih => exact nameable_leave.mpr (ih h)
  | case3 entered here name rest hstay ih =>
    exact nameable_name.mpr ⟨not_mem_of_stays hstay, ih h⟩
  | case4 entered here rest _ ih => exact nameable_name.mpr ⟨by decide, ih h⟩
  | case5 | case6 | case9 | case10 | case11 | case13 => cases h
  | case7 entered here name rest hstay hdots hnull next cause hentry _ ih =>
    exact nameable_name.mpr ⟨by simpa using hnull, ih h⟩
  | case8 entered here name rest hstay hdots hnull next target hentry other left hfind ih =>
    exact nameable_name.mpr ⟨by simpa using hnull, ih h⟩
  | case12 entered here name rest hstay hdots hnull next target hentry hfind hmem start ih =>
    have hrest := ih h
    rw [map_name_pieces, nameable_names, nameable_leave] at hrest
    exact nameable_name.mpr ⟨by simpa using hnull, hrest.2⟩
  | case14 entered here name rest hstay hdots hnull next node hlink hentry ih =>
    exact nameable_name.mpr ⟨by simpa using hnull, ih h⟩

/-- A walk past names that a file can have comes upon no other in the targets of links. -/
theorem walkLinks_ne_nullName (hclean : fs.CleanLinks) (htodo : Nameable todo) :
    fs.walkLinks strict entered here todo ≠ .nullName := by
  fun_induction walkLinks fs strict entered here todo with
  | case1 | case6 | case9 | case10 | case11 | case13 => rintro ⟨⟩
  | case2 entered here link rest ih => exact ih (nameable_leave.mp htodo)
  | case3 entered here name rest hstay ih => exact ih (nameable_name.mp htodo).2
  | case4 entered here rest _ ih => exact ih (nameable_name.mp htodo).2
  | case5 entered here name rest hstay hdots hnull =>
    exact absurd (by simpa using hnull) (nameable_name.mp htodo).1
  | case7 entered here name rest hstay hdots hnull next cause hentry _ ih =>
    exact ih (nameable_name.mp htodo).2
  | case8 entered here name rest hstay hdots hnull next target hentry other left hfind ih =>
    exact ih (nameable_name.mp htodo).2
  | case12 entered here name rest hstay hdots hnull next target hentry hfind hmem start ih =>
    rw [map_name_pieces] at ih ⊢
    refine ih (nameable_names.mpr ⟨hclean.pieces hentry, ?_⟩)
    exact nameable_leave.mpr (nameable_name.mp htodo).2
  | case14 entered here name rest hstay hdots hnull next node hlink hentry ih =>
    exact ih (nameable_name.mp htodo).2

-- ---------------------------------------------------------------------------
-- Resolution
-- ---------------------------------------------------------------------------

theorem not_comesBack_of_arrivesAt (hfs : fs.WellFormed) (h : fs.ArrivesAt path loc) :
    ¬ fs.ComesBack path := by
  rintro ⟨link, left, hend⟩
  obtain ⟨spelled, hwalk⟩ := walkLinks_of_arrivesAt hfs h false
  cases hwalk.symm.trans hend

theorem hasNull_of_resolve_ok (hloops : ¬ fs.ComesBack path) (h : fs.resolve path = .ok result) :
    path.hasNull = false := by
  cases hend : fs.walkLinks false [] (fs.startOf path) (path.parts.map .name) with
  | reached there => exact nameable_parts.mp (walkLinks_nameable hend)
  | cycle link left => exact absurd ⟨link, left, hend⟩ hloops
  | refused cause there => exact absurd hend (walkLinks_ne_refused cause there)
  | nullName =>
    rw [resolve, hend] at h
    cases h

theorem resolve_ne_nullName (hclean : fs.CleanLinks) (hnull : path.hasNull = false) :
    fs.resolve path ≠ .error .nullName := by
  intro h
  cases hend : fs.walkLinks false [] (fs.startOf path) (path.parts.map .name) with
  | reached there => cases settle_error ((resolve_of_reached hend).symm.trans h)
  | cycle link left => cases settle_error ((resolve_of_cycle hend).symm.trans h)
  | refused cause there => exact walkLinks_ne_refused cause there hend
  | nullName => exact walkLinks_ne_nullName hclean (nameable_parts.mpr hnull) hend

theorem exists_resolve_iff (hfs : fs.WellFormed) (hclean : fs.CleanLinks)
    (hloops : ¬ fs.ComesBack path) :
    (∃ result, fs.resolve path = .ok result) ↔ path.hasNull = false := by
  refine ⟨fun ⟨result, h⟩ => hasNull_of_resolve_ok hloops h, fun hnull => ?_⟩
  cases h : fs.resolve path with
  | ok result => exact ⟨result, rfl⟩
  | error error =>
    rcases resolve_error hfs h with rfl | ⟨hcomes, -⟩
    · exact absurd h (resolve_ne_nullName hclean hnull)
    · exact absurd hcomes hloops

/-- Strict resolution comes first, and the lenient one where that is refused. -/
theorem exists_canonical_iff (hfs : fs.WellFormed) (hclean : fs.CleanLinks)
    (hloops : ¬ fs.ComesBack path) :
    (∃ result, fs.canonical path = .ok result) ↔ path.hasNull = false := by
  rw [canonical]
  split
  · rename_i found hstrict
    rw [resolveStrict] at hstrict
    split at hstrict
    · rename_i there hend
      exact iff_of_true ⟨found, rfl⟩ (nameable_parts.mp (walkLinks_nameable hend))
    all_goals cases hstrict
  · rename_i hstrict
    refine iff_of_false (by rintro ⟨result, ⟨⟩⟩) fun hnull => ?_
    rw [resolveStrict] at hstrict
    split at hstrict
    · cases hstrict
    · cases hstrict
    · rename_i hend
      exact walkLinks_ne_nullName hclean (nameable_parts.mpr hnull) hend
    all_goals cases hstrict
  · exact exists_resolve_iff hfs hclean hloops

end UnsafeAudit.FileSystem
