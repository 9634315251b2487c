import UnsafeAudit.Proofs.FileSystem.Arrival
import UnsafeAudit.Proofs.FileSystem.Frame

/-!
# Paths without a canonical path

The lenient walk passes over what is missing, so nothing refuses it
(`walkLinks_ne_refused`), and where it comes to an end no part of the location is a link
(`walkLinks_unlinked`). So a path has no canonical path for two reasons only: a name on the way holds
the null character, or the walk comes back to a link that it is inside of (`canonical_error`). A link
that leads to itself is one of these (`canonical_self_link`).
-/

namespace UnsafeAudit

namespace FileSystem

variable {fs : FileSystem} {here there : Reached} {entered : List (Location × Option Reached)}
  {todo : List Todo} {path result : Path} {error : ResolveError} {loc front : Location}
  {name : String} {names : List String}

-- ---------------------------------------------------------------------------
-- Locations without links
-- ---------------------------------------------------------------------------

/-- No part of a location is a link, and all its names stand for entries. -/
structure Unlinked (fs : FileSystem) (loc : Location) : Prop where
  plain : ∀ name ∈ loc, IsPlain name
  entry : ∀ front, front <+: loc → ∀ target, fs.entry front ≠ .ok (.link target)

theorem unlinked_nil : fs.Unlinked [] where
  plain := nofun
  entry front hfront target h := by
    rw [List.prefix_nil.mp hfront] at h
    cases h

theorem Unlinked.of_prefix (h : fs.Unlinked loc) (hfront : front <+: loc) : fs.Unlinked front where
  plain name hname := h.plain name (hfront.subset hname)
  entry other hother := h.entry other (hother.trans hfront)

theorem Unlinked.up (h : fs.Unlinked here.place) : fs.Unlinked here.up.place :=
  h.of_prefix (List.dropLast_prefix _)

theorem Unlinked.into (h : fs.Unlinked here.place) (hplain : IsPlain name)
    (hlink : ∀ target, fs.entry (here.place ++ [name]) ≠ .ok (.link target)) :
    fs.Unlinked (here.into name).place where
  plain other hother := by
    rcases List.mem_append.mp hother with hother | hother
    · exact h.plain other hother
    · rwa [List.mem_singleton.mp hother]
  entry front hfront := by
    rcases List.prefix_concat_iff.mp hfront with rfl | hfront
    · exact hlink
    · exact h.entry front hfront

theorem WellFormed.unlinked_cwd (hfs : fs.WellFormed) : fs.Unlinked fs.cwd := by
  obtain ⟨entries, hdir⟩ := hfs.cwd_isDir
  refine ⟨hfs.isPlain_of_entry hdir, ?_⟩
  rintro front ⟨rest, hrest⟩ target hlink
  rw [← hrest, entry_append_ok hlink] at hdir
  cases rest with
  | nil => cases hdir
  | cons name rest => cases hdir

theorem WellFormed.unlinked_startOf (hfs : fs.WellFormed) (path : Path) :
    fs.Unlinked (fs.startOf path).place := by
  rw [startOf]
  split
  · exact unlinked_nil
  · exact hfs.unlinked_cwd

theorem Unlinked.findFrom_ne_tooManyLinks {here : Location} (h : fs.Unlinked (here ++ names))
    (budget : Nat) : fs.findFrom true budget here names ≠ .error .tooManyLinks := by
  intro hfind
  obtain ⟨entries, hdir⟩ := isDirAt_of_tooManyLinks hfind
  induction names generalizing here entries with
  | nil =>
    rw [findFrom, hdir] at hfind
    cases hfind
  | cons name rest ih =>
    rw [List.append_cons] at h
    obtain ⟨-, hdot, hdots, -⟩ := h.plain name (by simp)
    by_cases hlong : maxName < name.utf8ByteSize
    · rw [findFrom_long hdir hlong] at hfind
      cases hfind
    cases hlookup : entries.lookup name with
    | none =>
      rw [findFrom, hdir] at hfind
      simp [hdot, hdots, hlong, hlookup] at hfind
    | some inner =>
      have hname : fs.Names here name inner :=
        ⟨hdot, hdots, entries, hdir, Nat.not_lt.mp hlong, hlookup⟩
      have hlink : ∀ target, inner ≠ .link target := by
        rintro target rfl
        exact h.entry _ (List.prefix_append _ _) target hname.entry_child
      rw [findFrom_step hname hlink] at hfind
      obtain ⟨below, hbelow⟩ := isDirAt_of_tooManyLinks hfind
      exact ih h hfind below hbelow

theorem Unlinked.settle (h : fs.Unlinked loc) : fs.settle loc = .ok (.atRoot loc) := by
  have hfind : fs.find (.atRoot loc) true ≠ .error .tooManyLinks := by
    rw [find]
    split
    · simp
    · exact h.findFrom_ne_tooManyLinks maxLinks
  rw [FileSystem.settle]
  cases hfound : fs.find (.atRoot loc) true with
  | ok found => rfl
  | error cause =>
    cases cause with
    | tooManyLinks => exact absurd hfound hfind
    | _ => rfl

-- ---------------------------------------------------------------------------
-- The lenient walk
-- ---------------------------------------------------------------------------

theorem walkLinks_ne_refused (cause : OsCause) (there : Reached) :
    fs.walkLinks false entered here todo ≠ .refused cause there := by
  fun_induction walkLinks fs false entered here todo with
  | case1 | case5 | case11 => nofun
  | case2 | case3 | case4 | case7 | case8 | case12 | case14 => assumption
  -- a strict walk stops here
  | case6 | case9 | case10 => contradiction
  | case13 entered here name rest hstay hdots hnull next target hentry hfind hmem =>
    exact absurd (mem_links_of_entry hentry) hmem

/-- What a walk remembers to have left is without links. -/
def RemembersUnlinked (fs : FileSystem) (entered : List (Location × Option Reached)) : Prop :=
  ∀ link left, (link, some left) ∈ entered → fs.Unlinked left.place

theorem remembersUnlinked_nil : fs.RemembersUnlinked [] := by simp [RemembersUnlinked]

theorem walkLinks_unlinked (hhere : fs.Unlinked here.place) (hentered : fs.RemembersUnlinked entered)
    (h : fs.walkLinks false entered here todo = .reached there) : fs.Unlinked there.place := by
  fun_induction walkLinks fs false entered here todo with
  | case1 entered here =>
    cases h
    exact hhere
  | case2 entered here link rest ih =>
    refine ih hhere (fun other left hmem => ?_) h
    rcases List.mem_cons.mp hmem with heq | hmem
    · cases heq
      exact hhere
    · exact hentered other left hmem
  | case3 entered here name rest hstay ih => exact ih hhere hentered h
  | case4 entered here rest _ ih => exact ih hhere.up hentered h
  | case5 | case11 => cases h
  | case6 | case9 | case10 => contradiction
  | case7 entered here name rest hstay hdots hnull next cause hentry _ ih =>
    refine ih (hhere.into (isPlain_of_passed hstay hdots hnull) fun target hlink => ?_) hentered h
    cases hentry.symm.trans hlink
  | case8 entered here name rest hstay hdots hnull next target hentry other left hfind ih =>
    exact ih (hentered other left (List.mem_of_find?_eq_some hfind)) hentered h
  | case12 entered here name rest hstay hdots hnull next target hentry hfind hmem start ih =>
    refine ih ?_ (fun other left hmem => ?_) h
    · show fs.Unlinked (here.origin target).place
      rw [Reached.origin]
      split
      · exact unlinked_nil
      · exact hhere
    · rcases List.mem_cons.mp hmem with heq | hmem
      · cases heq
      · exact hentered other left hmem
  | case13 entered here name rest hstay hdots hnull next target hentry hfind hmem =>
    exact absurd (mem_links_of_entry hentry) hmem
  | case14 entered here name rest hstay hdots hnull next node hlink hentry ih =>
    refine ih (hhere.into (isPlain_of_passed hstay hdots hnull) fun target heq => ?_) hentered h
    exact hlink target (Except.ok.inj (hentry.symm.trans heq))

/-- The lenient walk goes along a location without links. -/
theorem Unlinked.exists_walkLinks (h : fs.Unlinked (here.place ++ names)) :
    ∃ spelled, fs.walkLinks false entered here (names.map .name) =
      .reached ⟨here.place ++ names, spelled⟩ := by
  induction names generalizing here with
  | nil => exact ⟨here.spelled, by rw [List.map_nil, walkLinks, List.append_nil]⟩
  | cons name rest ih =>
    rw [List.append_cons] at h ⊢
    obtain ⟨spelled, hwalk⟩ := @ih (here.into name) h
    refine ⟨spelled, ?_⟩
    rw [List.map_cons, walkLinks_pass (h.plain name (by simp))
      (h.entry _ (List.prefix_append _ _)), hwalk]
    rfl

-- ---------------------------------------------------------------------------
-- Canonical paths
-- ---------------------------------------------------------------------------

/-- The lenient walk along a path comes back to a link that it is inside of. -/
def ComesBack (fs : FileSystem) (path : Path) : Prop :=
  ∃ link left, fs.walkLinks false [] (fs.startOf path) (path.parts.map .name) = .cycle link left

theorem Unlinked.exists_reached (h : fs.Unlinked loc) :
    ∃ spelled, fs.walkLinks false [] (fs.startOf (.atRoot loc)) ((Path.atRoot loc).parts.map .name) =
      .reached ⟨loc, spelled⟩ :=
  Unlinked.exists_walkLinks h

theorem Unlinked.resolve (h : fs.Unlinked loc) : fs.resolve (.atRoot loc) = .ok (.atRoot loc) := by
  obtain ⟨spelled, hwalk⟩ := h.exists_reached
  exact (resolve_of_reached hwalk).trans h.settle

theorem Unlinked.not_comesBack (h : fs.Unlinked loc) : ¬ fs.ComesBack (.atRoot loc) := by
  obtain ⟨spelled, hwalk⟩ := h.exists_reached
  rintro ⟨link, left, hend⟩
  cases hwalk.symm.trans hend

theorem unlinked_of_links (hlinks : fs.links = []) (hplain : ∀ name ∈ loc, IsPlain name) :
    fs.Unlinked loc where
  plain := hplain
  entry _ _ _ hentry := absurd (mem_links_of_entry hentry) (hlinks ▸ List.not_mem_nil)

theorem settle_error (h : fs.settle loc = .error error) :
    error = .loop (Path.atRoot loc).toString := by
  rw [settle] at h
  split at h
  · exact (Except.error.inj h).symm
  · cases h

theorem resolve_ok (h : fs.resolve path = .ok result) : ∃ loc, result = .atRoot loc := by
  cases hend : fs.walkLinks false [] (fs.startOf path) (path.parts.map .name) with
  | reached there => exact ⟨_, settle_ok ((resolve_of_reached hend).symm.trans h)⟩
  | cycle link left => exact ⟨_, settle_ok ((resolve_of_cycle hend).symm.trans h)⟩
  | refused cause there => exact absurd hend (walkLinks_ne_refused cause there)
  | nullName =>
    rw [resolve, hend] at h
    cases h

theorem resolve_error (hfs : fs.WellFormed) (h : fs.resolve path = .error error) :
    error = .nullName ∨ fs.ComesBack path ∧ ∃ loc, error = .loop (Path.atRoot loc).toString := by
  cases hend : fs.walkLinks false [] (fs.startOf path) (path.parts.map .name) with
  | reached there =>
    have hplace := walkLinks_unlinked (hfs.unlinked_startOf path) remembersUnlinked_nil hend
    rw [resolve_of_reached hend, hplace.settle] at h
    cases h
  | cycle link left =>
    rw [resolve_of_cycle hend] at h
    exact .inr ⟨⟨link, left, hend⟩, _, settle_error h⟩
  | refused cause there => exact absurd hend (walkLinks_ne_refused cause there)
  | nullName =>
    rw [resolve, hend] at h
    exact .inl (Except.error.inj h).symm

theorem canonical_ok (h : fs.canonical path = .ok result) : ∃ loc, result = .atRoot loc := by
  rw [canonical] at h
  split at h
  · rename_i hstrict
    rw [resolveStrict] at hstrict
    split at hstrict
    · cases hstrict
      exact ⟨_, (Except.ok.inj h).symm⟩
    all_goals cases hstrict
  · cases h
  · exact resolve_ok h

/-- A path that has no canonical path has a name with the null character on its way, or leads back
to a link that it came from. -/
theorem canonical_error (hfs : fs.WellFormed) (h : fs.canonical path = .error error) :
    error = .nullName ∨ fs.ComesBack path ∧ ∃ loc, error = .loop (Path.atRoot loc).toString := by
  rw [canonical] at h
  split at h
  · cases h
  · exact .inl (Except.error.inj h).symm
  · exact resolve_error hfs h

/-- What stands somewhere and is reached without a link has its own path for its canonical one. -/
theorem canonical_atRoot {node : Node} (h : fs.entry loc = .ok node)
    (hplain : ∀ name ∈ loc, IsPlain name) (hlink : ∀ target, node ≠ .link target) :
    fs.canonical (.atRoot loc) = .ok (.atRoot loc) := by
  have hroot : fs.entry (fs.startOf (.atRoot loc)).place = .ok (.dir fs.root) := rfl
  obtain ⟨spelled, hwalk⟩ : ∃ spelled, fs.walkLinks true [] (fs.startOf (.atRoot loc))
      ((Path.atRoot loc).parts.map .name) = .reached ⟨loc, spelled⟩ :=
    exists_walkLinks_names hplain hroot h hlink
  rw [canonical, resolveStrict, hwalk]

-- ---------------------------------------------------------------------------
-- Links to themselves
-- ---------------------------------------------------------------------------

theorem not_startsWith_of_not_mem (h : '/' ∉ name.toList) : ¬ name.startsWith "/" = true :=
  fun hstart => h ((String.startsWith_string_iff.mp hstart).subset List.mem_cons_self)

theorem findFrom_self_link {here : Location} (h : fs.Names here name (.link name))
    (hempty : name ≠ "") (hseparator : '/' ∉ name.toList) (budget : Nat) :
    fs.findFrom true budget here [name] = .error .tooManyLinks := by
  induction budget with
  | zero => exact findFrom_spent h []
  | succ budget ih =>
    rw [findFrom_follow h, origin, if_neg (not_startsWith_of_not_mem hseparator),
      steps_of_not_mem hempty hseparator]
    exact ih

theorem walkLinks_self_link (hplain : IsPlain name) (hseparator : '/' ∉ name.toList)
    (h : fs.Names here.place name (.link name)) (strict : Bool) :
    fs.walkLinks strict [] here [.name name] =
      fs.walkLinks strict [(here.place ++ [name], none)] here
        [.name name, .leave (here.place ++ [name])] := by
  rw [walkLinks_enter hplain h.entry_child rfl, Reached.origin,
    if_neg (not_startsWith_of_not_mem hseparator), pieces_of_not_mem hseparator]
  rfl

theorem find_self_link (hplain : IsPlain name) (hseparator : '/' ∉ name.toList)
    (h : fs.Names [] name (.link name)) :
    fs.find (.atRoot [name]) true = .error .tooManyLinks := by
  obtain ⟨-, -, -, -, hlen, -⟩ := id h
  have hshort : (Path.atRoot [name]).toString.utf8ByteSize < maxPath := by
    have hsize : (Path.atRoot [name]).toString.utf8ByteSize = 1 + name.utf8ByteSize := by
      simp [Path.toString, Path.atRoot, Path.Anchor.text, Text.joinWith]
      rfl
    simp only [hsize, maxPath, maxName] at hlen ⊢
    omega
  rw [find_eq hshort]
  exact findFrom_self_link h hplain.1 hseparator maxLinks

theorem canonical_self_link (hplain : IsPlain name) (hseparator : '/' ∉ name.toList)
    (h : fs.Names [] name (.link name)) :
    fs.canonical (.atRoot [name]) = .error (.loop (Path.atRoot [name]).toString) := by
  have hinside : memoryOf [([name], none)] [name] = some none := by simp [memoryOf]
  have hwalk : ∀ strict, fs.walkLinks strict [] (fs.startOf (.atRoot [name])) [.name name] =
      fs.walkLinks strict [([name], none)] (fs.startOf (.atRoot [name]))
        [.name name, .leave [name]] := walkLinks_self_link hplain hseparator h
  obtain ⟨cause, hrefused⟩ : ∃ cause, fs.walkLinks true [([name], none)]
      (fs.startOf (.atRoot [name])) [.name name, .leave [name]] = .refused cause _ :=
    walkLinks_inside hplain h.entry_child hinside _
  have hcycle : fs.walkLinks false [([name], none)] (fs.startOf (.atRoot [name]))
      [.name name, .leave [name]] = .cycle ((fs.startOf (.atRoot [name])).into name) [] :=
    walkLinks_cycle hplain h.entry_child hinside _
  have hcollapse : collapse [name] = [name] := by
    obtain ⟨hempty, hdot, hdots, -⟩ := hplain
    simp [collapse, hempty, hdot, hdots]
  rw [canonical_of_refused ((hwalk true).trans hrefused),
    resolve_of_cycle ((hwalk false).trans hcycle)]
  show fs.settle (collapse [name]) = _
  rw [hcollapse, settle, find_self_link hplain hseparator h]

end FileSystem

end UnsafeAudit
