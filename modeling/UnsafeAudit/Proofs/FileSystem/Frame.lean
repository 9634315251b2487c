import UnsafeAudit.Proofs.FileSystem.Walk

/-!
# What resolution depends on

The canonical path of a path depends on the directories and the links of a
state. Regular files make no difference to it (`SameTree.resolve_eq`), be it
what is in them or whether they are there at all.
-/

namespace UnsafeAudit

/-- What resolution sees of a node. -/
inductive Node.Shape
  | dir
  | link (target : String)
  deriving DecidableEq

def Node.shape? : Node → Option Node.Shape
  | .file _ => none
  | .link target => some (.link target)
  | .dir _ => some .dir

def Node.shapeAt (node : Node) (loc : Location) : Option Node.Shape :=
  match node.entry loc with
  | .ok inner => inner.shape?
  | .error _ => none

namespace FileSystem

variable {fs fs' : FileSystem} {budget : Nat} {here loc : Location} {names rest : List String}
  {name target : String} {entered : List (Location × Option Reached)} {todo : List Todo}

def shapeAt (fs : FileSystem) (loc : Location) : Option Node.Shape := (Node.dir fs.root).shapeAt loc

def IsDirAt (fs : FileSystem) (loc : Location) : Prop :=
  ∃ entries, fs.entry loc = .ok (.dir entries)

def IsLinkAt (fs : FileSystem) (loc : Location) (target : String) : Prop :=
  fs.entry loc = .ok (.link target)

theorem shapeAt_eq_dir_iff : fs.shapeAt loc = some .dir ↔ fs.IsDirAt loc := by
  rw [shapeAt, Node.shapeAt, IsDirAt, entry]
  cases (Node.dir fs.root).entry loc with
  | error cause => simp
  | ok node => cases node <;> simp [Node.shape?]

theorem shapeAt_eq_link_iff : fs.shapeAt loc = some (.link target) ↔ fs.IsLinkAt loc target := by
  rw [shapeAt, Node.shapeAt, IsLinkAt, entry]
  cases (Node.dir fs.root).entry loc with
  | error cause => simp
  | ok node => cases node <;> simp [Node.shape?]

/-- Two states differ in regular files only. -/
structure SameTree (fs fs' : FileSystem) : Prop where
  cwd_eq : fs.cwd = fs'.cwd
  shapeAt_eq : ∀ loc, fs.shapeAt loc = fs'.shapeAt loc

namespace SameTree

theorem refl (fs : FileSystem) : SameTree fs fs := ⟨rfl, fun _ => rfl⟩

theorem symm (h : SameTree fs fs') : SameTree fs' fs :=
  ⟨h.cwd_eq.symm, fun loc => (h.shapeAt_eq loc).symm⟩

theorem trans {fs'' : FileSystem} (h : SameTree fs fs') (h' : SameTree fs' fs'') :
    SameTree fs fs'' :=
  ⟨h.cwd_eq.trans h'.cwd_eq, fun loc => (h.shapeAt_eq loc).trans (h'.shapeAt_eq loc)⟩

theorem isDirAt_iff (h : SameTree fs fs') : fs.IsDirAt loc ↔ fs'.IsDirAt loc := by
  rw [← shapeAt_eq_dir_iff, ← shapeAt_eq_dir_iff, h.shapeAt_eq]

theorem isLinkAt_iff (h : SameTree fs fs') : fs.IsLinkAt loc target ↔ fs'.IsLinkAt loc target := by
  rw [← shapeAt_eq_link_iff, ← shapeAt_eq_link_iff, h.shapeAt_eq]

end SameTree

-- ---------------------------------------------------------------------------
-- Lookups that follow too many links
-- ---------------------------------------------------------------------------

theorem entry_ne_tooManyLinks (node : Node) (loc : Location) :
    node.entry loc ≠ .error .tooManyLinks := by
  induction loc generalizing node with
  | nil => simp [Node.entry]
  | cons name rest ih =>
    cases node with
    | file bytes => simp [Node.entry]
    | link target => simp [Node.entry]
    | dir entries =>
      rw [Node.entry]
      split
      · simp
      · cases entries.lookup name with
        | none => simp
        | some next => exact ih next

theorem findFrom_ne_tooManyLinks (h : ¬ fs.IsDirAt here) :
    fs.findFrom true budget here names ≠ .error .tooManyLinks := by
  have hentry : fs.entry here ≠ .error .tooManyLinks := entry_ne_tooManyLinks _ here
  cases names with
  | nil =>
    rw [findFrom]
    cases hnode : fs.entry here with
    | error cause => simpa [Except.map, hnode] using hentry
    | ok node => simp [Except.map]
  | cons name rest =>
    rw [findFrom]
    cases hnode : fs.entry here with
    | error cause => simpa [hnode] using hentry
    | ok node =>
      cases node with
      | dir entries => exact absurd ⟨entries, hnode⟩ h
      | file bytes => simp
      | link target => simp

theorem isDirAt_of_tooManyLinks (h : fs.findFrom true budget here names = .error .tooManyLinks) :
    fs.IsDirAt here :=
   Classical.byContradiction fun hdir => findFrom_ne_tooManyLinks hdir h

theorem SameTree.names_link (h : SameTree fs fs') (hname : fs.Names here name (.link target)) :
    fs'.Names here name (.link target) :=
  .of_entry (h.isLinkAt_iff.mp hname.entry_child) hname.not_dot hname.not_dots

theorem findFrom_spent (h : fs.Names here name (.link target)) (rest : List String) :
    fs.findFrom true 0 here (name :: rest) = .error .tooManyLinks := by
  obtain ⟨hdot, hdots, entries, hdir, hlen, hlookup⟩ := h
  rw [findFrom, hdir]
  simp [hdot, hdots, Nat.not_lt.mpr hlen, hlookup]

theorem SameTree.findFrom_tooManyLinks (h : SameTree fs fs')
    (hfind : fs.findFrom true budget here names = .error .tooManyLinks) :
    fs'.findFrom true budget here names = .error .tooManyLinks := by
  obtain ⟨entries', hdir'⟩ := h.isDirAt_iff.mp (isDirAt_of_tooManyLinks hfind)
  induction budget, here, names using findFrom.induct fs true generalizing entries' with
  | case1 budget here =>
    obtain ⟨entries, hdir⟩ := isDirAt_of_tooManyLinks hfind
    rw [findFrom, hdir] at hfind
    cases hfind
  | case2 budget here name rest cause hentry =>
    obtain ⟨entries, hdir⟩ := isDirAt_of_tooManyLinks hfind
    rw [hentry] at hdir
    cases hdir
  | case3 budget here rest entries hentry ih =>
    rw [findFrom, hentry] at hfind
    rw [findFrom, hdir']
    exact ih hfind entries' hdir'
  | case4 budget here rest entries hentry hne ih =>
    rw [findFrom, hentry] at hfind
    simp only [hne, if_false, if_true] at hfind
    obtain ⟨above, habove⟩ := h.isDirAt_iff.mp (isDirAt_of_tooManyLinks hfind)
    rw [findFrom, hdir']
    simp only [hne, if_false, if_true]
    exact ih hfind above habove
  | case5 budget here name rest entries hentry hdot hdots hlong =>
    rw [findFrom, hentry] at hfind
    simp only [hdot, hdots, hlong, if_false, if_true] at hfind
    cases hfind
  | case6 budget here name rest entries hentry hdot hdots hlong hlookup =>
    rw [findFrom, hentry] at hfind
    simp only [hdot, hdots, hlong, if_false, hlookup] at hfind
    cases hfind
  | case7 budget here name rest entries hentry hdot hdots hlong target hlookup hlast =>
    simp at hlast
  | case8 here name rest entries hentry hdot hdots hlong target hlookup hlast =>
    have hname : fs.Names here name (.link target) :=
      ⟨hdot, hdots, entries, hentry, Nat.not_lt.mp hlong, hlookup⟩
    exact findFrom_spent (h.names_link hname) rest
  | case9 here name rest entries hentry hdot hdots hlong target hlookup hlast budget ih =>
    have hname : fs.Names here name (.link target) :=
      ⟨hdot, hdots, entries, hentry, Nat.not_lt.mp hlong, hlookup⟩
    rw [findFrom_follow hname] at hfind
    rw [findFrom_follow (h.names_link hname)]
    obtain ⟨there, hthere⟩ := h.isDirAt_iff.mp (isDirAt_of_tooManyLinks hfind)
    exact ih hfind there hthere
  | case10 budget here name rest entries hentry hdot hdots hlong found hlink hlookup ih =>
    have hname : fs.Names here name found :=
      ⟨hdot, hdots, entries, hentry, Nat.not_lt.mp hlong, hlookup⟩
    rw [findFrom_step hname hlink] at hfind
    obtain ⟨below, hbelow⟩ := h.isDirAt_iff.mp (isDirAt_of_tooManyLinks hfind)
    rw [findFrom_step (.of_entry hbelow hdot hdots) (Node.dir_ne_link below)]
    exact ih hfind below hbelow
  | case11 budget here name rest found hother hentry =>
    obtain ⟨entries, hdir⟩ := isDirAt_of_tooManyLinks hfind
    exact absurd (Except.ok.inj (hentry.symm.trans hdir)) (hother entries)

theorem SameTree.find_tooManyLinks_iff (h : SameTree fs fs') {path : Path} :
    fs.find path true = .error .tooManyLinks ↔ fs'.find path true = .error .tooManyLinks := by
  rw [find, find, h.cwd_eq]
  split
  · rfl
  · exact ⟨h.findFrom_tooManyLinks, h.symm.findFrom_tooManyLinks⟩

-- ---------------------------------------------------------------------------
-- Walks
-- ---------------------------------------------------------------------------

theorem walkLinks_pass {here : Reached} (hplain : IsPlain name)
    (hlink : ∀ target, ¬ fs.IsLinkAt (here.place ++ [name]) target) :
    fs.walkLinks false entered here (.name name :: todo) =
      fs.walkLinks false entered (here.into name) todo := by
  cases hentry : fs.entry (here.place ++ [name]) with
  | error cause =>
    rw [walkLinks_missing hplain hentry]
    rfl
  | ok node =>
    refine walkLinks_step hplain hentry ?_
    rintro target rfl
    exact hlink target hentry

theorem SameTree.not_link (h : SameTree fs fs') {loc : Location}
    (hlink : ∀ target, ¬ fs.IsLinkAt loc target) (target : String) : ¬ fs'.IsLinkAt loc target :=
  fun htarget => hlink target (h.isLinkAt_iff.mpr htarget)

theorem SameTree.walkLinks_eq (h : SameTree fs fs') (entered : List (Location × Option Reached))
    (here : Reached) (todo : List Todo) :
    fs.walkLinks false entered here todo = fs'.walkLinks false entered here todo := by
  induction entered, here, todo using walkLinks.induct fs false with
  | case1 entered here => rw [walkLinks, walkLinks]
  | case2 entered here link rest ih => rw [walkLinks_leave, walkLinks_leave, ih]
  | case3 entered here name rest hstay ih =>
    have hstay : name = "" ∨ name = "." := by simpa using hstay
    rw [walkLinks_stay hstay, walkLinks_stay hstay, ih]
  | case4 entered here rest _ ih => rw [walkLinks_up, walkLinks_up, ih]
  | case5 entered here name rest hstay hdots hnull =>
    rw [walkLinks, walkLinks]
    simp only [hstay, hdots, hnull, if_true, Bool.false_eq_true, if_false]
  | case6 => contradiction
  | case7 entered here name rest hstay hdots hnull next cause hentry _ ih =>
    have hplain := isPlain_of_passed hstay hdots hnull
    have hlink : ∀ target, ¬ fs.IsLinkAt (here.place ++ [name]) target := by
      intro target htarget
      cases hentry.symm.trans htarget
    rw [walkLinks_pass hplain hlink, walkLinks_pass hplain (h.not_link hlink)]
    exact ih
  | case8 entered here name rest hstay hdots hnull next target hentry other left hfind ih =>
    have hplain := isPlain_of_passed hstay hdots hnull
    have hmemory := memoryOf_eq_some_iff.mpr ⟨other, hfind⟩
    rw [walkLinks_left hplain hentry hmemory,
      walkLinks_left hplain (h.isLinkAt_iff.mp hentry) hmemory, ih]
  | case9 => contradiction
  | case10 => contradiction
  | case11 entered here name rest hstay hdots hnull next target hentry other hfind =>
    have hplain := isPlain_of_passed hstay hdots hnull
    have hmemory : memoryOf entered (here.place ++ [name]) = some none :=
      memoryOf_eq_some_iff.mpr ⟨other, hfind⟩
    rw [walkLinks_cycle hplain hentry hmemory,
      walkLinks_cycle hplain (h.isLinkAt_iff.mp hentry) hmemory]
  | case12 entered here name rest hstay hdots hnull next target hentry hfind hmem start ih =>
    have hplain := isPlain_of_passed hstay hdots hnull
    have hmemory : memoryOf entered (here.place ++ [name]) = none :=
      Option.map_eq_none_iff.mpr hfind
    rw [map_name_pieces] at ih
    rw [walkLinks_enter hplain hentry hmemory,
      walkLinks_enter hplain (h.isLinkAt_iff.mp hentry) hmemory]
    exact ih
  | case13 entered here name rest hstay hdots hnull next target hentry hfind hmem =>
    exact absurd (mem_links_of_entry hentry) hmem
  | case14 entered here name rest hstay hdots hnull next node hlink hentry ih =>
    have hplain := isPlain_of_passed hstay hdots hnull
    have hlink : ∀ target, ¬ fs.IsLinkAt (here.place ++ [name]) target := by
      intro target htarget
      exact hlink target (Except.ok.inj (hentry.symm.trans htarget))
    rw [walkLinks_pass hplain hlink, walkLinks_pass hplain (h.not_link hlink)]
    exact ih

theorem SameTree.settle_eq (h : SameTree fs fs') (loc : Location) :
    fs.settle loc = fs'.settle loc := by
  rw [settle, settle]
  split
  · rename_i hloop
    rw [h.find_tooManyLinks_iff.mp hloop]
  · rename_i hother
    split
    · rename_i hloop
      exact absurd (h.find_tooManyLinks_iff.mpr hloop) hother
    · rfl

theorem SameTree.resolve_eq (h : SameTree fs fs') (path : Path) :
    fs.resolve path = fs'.resolve path := by
  have hstart : fs.startOf path = fs'.startOf path := by rw [startOf, startOf, h.cwd_eq]
  have hwalk : fs.walkLinks false [] (fs.startOf path) (path.parts.map .name) =
      fs'.walkLinks false [] (fs'.startOf path) (path.parts.map .name) := by
    rw [hstart, h.walkLinks_eq]
  cases hend : fs'.walkLinks false [] (fs'.startOf path) (path.parts.map .name) with
  | reached there =>
    rw [resolve_of_reached (hwalk.trans hend), resolve_of_reached hend, h.settle_eq]
  | cycle link left =>
    rw [resolve_of_cycle (hwalk.trans hend), resolve_of_cycle hend, h.settle_eq]
  | refused cause next => rw [resolve, resolve, hwalk, hend]
  | nullName => rw [resolve, resolve, hwalk, hend]

end FileSystem

end UnsafeAudit
