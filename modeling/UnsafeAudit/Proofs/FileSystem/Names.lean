import UnsafeAudit.Proofs.FileSystem.Walk
import UnsafeAudit.Proofs.Path.Spelled

/-!
# The names of canonical paths

A walk takes its names from the path that it resolves and from the targets of
links, and neither gives it a name with a separator. So the canonical path of a
path that a text spells is itself spelled by a text (`spelled_of_resolve_ok`).
-/

namespace UnsafeAudit.FileSystem

open UnsafeAudit.Path (IsKept)

variable {fs : FileSystem} {strict : Bool} {here there left : Reached} {place link : Location}
  {entered : List (Location × Option Reached)} {todo rest : List Todo} {name target : String}

/-- No name at a location holds a separator or stands for the directory itself. -/
def Kept (place : Location) : Prop := ∀ name ∈ place, IsKept name

def Separated (todo : List Todo) : Prop :=
  ∀ name ∈ todo.filterMap Todo.name?, '/' ∉ name.toList

def RemembersKept (entered : List (Location × Option Reached)) : Prop :=
  ∀ link left, (link, some left) ∈ entered → Kept left.place

def WalkEnd.Kept : WalkEnd → Prop
  | .reached there => FileSystem.Kept there.place
  | .cycle link left => FileSystem.Kept link.place ∧ ∀ name ∈ left, '/' ∉ name.toList
  | _ => True

theorem not_mem_of_mem_pieces (h : name ∈ pieces target) : '/' ∉ name.toList := by
  obtain ⟨piece, hpiece, rfl⟩ := List.mem_map.mp h
  simpa using Text.not_mem_of_mem_splitOn hpiece

theorem kept_nil : Kept [] := by simp [Kept]

theorem Kept.dropLast (h : Kept place) : Kept place.dropLast :=
  fun name hname => h name (List.dropLast_subset _ hname)

theorem Kept.concat (h : Kept place) (hname : IsKept name) : Kept (place ++ [name]) := by
  intro other hother
  rcases List.mem_append.mp hother with hother | hother
  · exact h other hother
  · rwa [List.mem_singleton.mp hother]

theorem Kept.up (h : Kept here.place) : Kept here.up.place := h.dropLast

theorem Kept.origin (h : Kept here.place) (target : String) : Kept (here.origin target).place := by
  rw [Reached.origin]
  split
  · exact kept_nil
  · exact h

theorem Kept.into (h : Kept here.place) (hname : IsPlain name) (hseparator : '/' ∉ name.toList) :
    Kept (here.into name).place := h.concat ⟨hname.1, hname.2.1, hseparator⟩

@[simp] theorem separated_name : Separated (.name name :: rest) ↔
    '/' ∉ name.toList ∧ Separated rest := by
  simp [Separated, Todo.name?]

@[simp] theorem separated_leave : Separated (.leave link :: rest) ↔ Separated rest := by
  simp [Separated, Todo.name?]

theorem Separated.enter (h : Separated rest) (target : String) :
    Separated ((pieces target).map .name ++ .leave link :: rest) := by
  intro name hname
  rw [List.filterMap_append, List.mem_append, List.filterMap_map] at hname
  rcases hname with hname | hname
  · exact not_mem_of_mem_pieces (by simpa [Function.comp_def, Todo.name?] using hname)
  · exact h name hname

theorem RemembersKept.enter (h : RemembersKept entered) (link : Location) :
    RemembersKept ((link, none) :: entered) := by
  intro other left hmem
  exact h other left (by simpa using hmem)

theorem RemembersKept.leave (h : RemembersKept entered) (hhere : Kept here.place)
    (link : Location) : RemembersKept ((link, some here) :: entered) := by
  intro other left hmem
  rcases List.mem_cons.mp hmem with heq | hmem
  · cases heq
    exact hhere
  · exact h other left hmem

theorem walkLinks_kept (htodo : Separated todo) (hhere : Kept here.place)
    (hentered : RemembersKept entered) : (fs.walkLinks false entered here todo).Kept := by
  induction entered, here, todo using walkLinks.induct fs false with
  | case1 entered here =>
    rw [walkLinks]
    exact hhere
  | case2 entered here link rest ih =>
    rw [walkLinks_leave]
    exact ih (separated_leave.mp htodo) hhere (hentered.leave hhere link)
  | case3 entered here name rest hstay ih =>
    rw [walkLinks_stay (by simpa using hstay)]
    exact ih (separated_name.mp htodo).2 hhere hentered
  | case4 entered here rest _ ih =>
    rw [walkLinks_up]
    exact ih (separated_name.mp htodo).2 hhere.up hentered
  | case5 entered here name rest hstay hdots hnull =>
    rw [walkLinks]
    simp only [hstay, hdots, hnull, if_false, if_true]
    trivial
  | case6 => contradiction
  | case7 entered here name rest hstay hdots hnull next cause hentry _ ih =>
    have hplain := isPlain_of_passed hstay hdots hnull
    obtain ⟨hname, hrest⟩ := separated_name.mp htodo
    rw [walkLinks_missing hplain hentry]
    exact ih hrest (hhere.into hplain hname) hentered
  | case8 entered here name rest hstay hdots hnull next target hentry other left hfind ih =>
    have hmemory := memoryOf_eq_some_iff.mpr ⟨other, hfind⟩
    rw [walkLinks_left (isPlain_of_passed hstay hdots hnull) hentry hmemory]
    exact ih (separated_name.mp htodo).2 (hentered other left (List.mem_of_find?_eq_some hfind))
      hentered
  | case9 => contradiction
  | case10 => contradiction
  | case11 entered here name rest hstay hdots hnull next target hentry other hfind =>
    have hplain := isPlain_of_passed hstay hdots hnull
    obtain ⟨hname, hrest⟩ := separated_name.mp htodo
    have hmemory : memoryOf entered (here.place ++ [name]) = some none :=
      memoryOf_eq_some_iff.mpr ⟨other, hfind⟩
    rw [walkLinks_cycle hplain hentry hmemory]
    exact ⟨hhere.into hplain hname, hrest⟩
  | case12 entered here name rest hstay hdots hnull next target hentry hfind hmem start ih =>
    have hplain := isPlain_of_passed hstay hdots hnull
    have hmemory : memoryOf entered (here.place ++ [name]) = none :=
      Option.map_eq_none_iff.mpr hfind
    rw [walkLinks_enter hplain hentry hmemory]
    rw [map_name_pieces] at ih
    exact ih ((separated_name.mp htodo).2.enter target) (hhere.origin target) (hentered.enter _)
  | case13 entered here name rest hstay hdots hnull next target hentry hfind hmem =>
    exact absurd (mem_links_of_entry hentry) hmem
  | case14 entered here name rest hstay hdots hnull next node hlink hentry ih =>
    have hplain := isPlain_of_passed hstay hdots hnull
    obtain ⟨hname, hrest⟩ := separated_name.mp htodo
    rw [walkLinks_step hplain hentry hlink]
    exact ih hrest (hhere.into hplain hname) hentered

theorem kept_collapse {names : List String} (h : ∀ name ∈ names, '/' ∉ name.toList) :
    Kept (collapse names) := by
  have hfold : ∀ done, Kept done → Kept (names.foldl (fun done name =>
      if name = "" || name = "." then done
      else if name = ".." then done.dropLast
      else done ++ [name]) done) := by
    induction names with
    | nil => exact fun _ hdone => hdone
    | cons name rest ih =>
      obtain ⟨hname, hrest⟩ := List.forall_mem_cons.mp h
      intro done hdone
      refine ih hrest _ ?_
      dsimp only
      split
      · exact hdone
      split
      · exact hdone.dropLast
      · rename_i hstay _
        have hstay : ¬ name = "" ∧ ¬ name = "." := by simpa using hstay
        exact hdone.concat ⟨hstay.1, hstay.2, hname⟩
  exact hfold [] nofun

-- ---------------------------------------------------------------------------
-- Resolution
-- ---------------------------------------------------------------------------

variable {path result : Path}

theorem spelled_atRoot : (Path.atRoot place).Spelled ↔ Kept place := Path.spelled_iff

theorem kept_startOf (hcwd : Kept fs.cwd) (path : Path) : Kept (fs.startOf path).place := by
  rw [startOf]
  split
  · exact kept_nil
  · exact hcwd

theorem separated_parts (h : path.Spelled) : Separated (path.parts.map .name) := by
  intro name hname
  have hmem : name ∈ path.parts := by
    simpa [List.filterMap_map, Function.comp_def, Todo.name?] using hname
  exact (Path.spelled_iff.mp h name hmem).2.2

theorem spelled_of_resolve_ok (hpath : path.Spelled) (hcwd : Kept fs.cwd)
    (h : fs.resolve path = .ok result) : result.Spelled := by
  have hwalk : (fs.walkLinks false [] (fs.startOf path) (path.parts.map .name)).Kept :=
    walkLinks_kept (separated_parts hpath) (kept_startOf hcwd path) nofun
  cases hend : fs.walkLinks false [] (fs.startOf path) (path.parts.map .name) with
  | reached there =>
    rw [hend] at hwalk
    rw [resolve_of_reached hend] at h
    rw [settle_ok h]
    exact spelled_atRoot.mpr hwalk
  | cycle link left =>
    rw [hend] at hwalk
    rw [resolve_of_cycle hend] at h
    rw [settle_ok h]
    refine spelled_atRoot.mpr (kept_collapse fun name hname => ?_)
    exact (List.mem_append.mp hname).elim (fun hname => (hwalk.1 name hname).2.2) (hwalk.2 name)
  | refused cause next =>
    rw [resolve, hend] at h
    cases h
  | nullName =>
    rw [resolve, hend] at h
    cases h

end UnsafeAudit.FileSystem
