import UnsafeAudit.Proofs.FileSystem.Lookup

/-!
# The walk of a resolution

At a name a walk stays, goes up, or goes into what is there. At a link it does
one of three things, by what it remembers of the link (`walkLinks_plain`).
`Passes` holds the steps of strict walks that get to the end of their names
(`passes_of_walkLinks`).
-/

namespace UnsafeAudit

namespace FileSystem

/-- What a walk remembers of a link: where it has left it, or that it is still inside of it. -/
def memoryOf (entered : List (Location × Option Reached)) (link : Location) :
    Option (Option Reached) :=
  (entered.find? (·.1 == link)).map (·.2)

def Reached.origin (here : Reached) (target : String) : Reached :=
  if target.startsWith "/" then ⟨[], ⟨.root, []⟩⟩ else here

/-- A strict walk gets to a place: nothing refuses it, and it comes upon no link that it is inside
of. -/
inductive Passes (fs : FileSystem) :
    List (Location × Option Reached) → Reached → List Todo → Reached → Prop
  | done {entered here} : fs.Passes entered here [] here
  | leave {entered here link rest there}
    (h : fs.Passes ((link, some here) :: entered) here rest there) :
    fs.Passes entered here (.leave link :: rest) there
  | stay {entered here name rest there} (hname : name = "" ∨ name = ".")
    (h : fs.Passes entered here rest there) : fs.Passes entered here (.name name :: rest) there
  | up {entered here rest there} (h : fs.Passes entered here.up rest there) :
    fs.Passes entered here (.name ".." :: rest) there
  | step {entered here name node rest there} (hname : fs.Names here.place name node)
    (hlink : ∀ target, node ≠ .link target) (h : fs.Passes entered (here.into name) rest there) :
    fs.Passes entered here (.name name :: rest) there
  | left {entered here name target left rest there}
    (hname : fs.Names here.place name (.link target))
    (hmemory : memoryOf entered (here.place ++ [name]) = some (some left))
    (h : fs.Passes entered left rest there) : fs.Passes entered here (.name name :: rest) there
  | enter {entered here name target rest there} (hname : fs.Names here.place name (.link target))
    (hmemory : memoryOf entered (here.place ++ [name]) = none)
    (h : fs.Passes ((here.place ++ [name], none) :: entered) (here.origin target)
      ((pieces target).map .name ++ .leave (here.place ++ [name]) :: rest) there) :
    fs.Passes entered here (.name name :: rest) there

end FileSystem

variable {names : List String} {name target : String}

-- ---------------------------------------------------------------------------
-- Links of a state
-- ---------------------------------------------------------------------------

theorem Entries.mem_links_of_lookup {node : Node} {here loc : Location} : ∀ {entries : Entries},
    entries.lookup name = some node → loc ∈ node.links (here ++ [name]) → loc ∈ entries.links here
  | .nil, h, _ => by cases h
  | .cons first other rest, h, hloc => by
    rw [links, List.mem_append]
    rw [lookup] at h
    split at h
    · rename_i heq
      cases h
      exact .inl (heq ▸ hloc)
    · exact .inr (mem_links_of_lookup h hloc)

theorem Node.mem_links_of_entry {node : Node} {here : Location}
    (h : node.entry names = .ok (.link target)) : here ++ names ∈ node.links here := by
  induction names generalizing node here with
  | nil =>
    cases h
    rw [List.append_nil]
    exact List.mem_singleton_self here
  | cons name rest ih =>
    obtain ⟨entries, next, rfl, -, hlookup, hnext⟩ := entry_cons_ok_iff.mp h
    rw [List.append_cons]
    exact Entries.mem_links_of_lookup hlookup (ih hnext)

namespace FileSystem

variable {fs : FileSystem} {strict : Bool} {here there : Reached} {loc link : Location}
  {node : Node} {rest todo : List Todo} {entered : List (Location × Option Reached)} {memory : Option Reached}
  {cause : OsCause}

theorem mem_links_of_entry (h : fs.entry loc = .ok (.link target)) : loc ∈ fs.links := by
  have hroot : [] ++ loc ∈ (Node.dir fs.root).links [] := Node.mem_links_of_entry h
  exact hroot

-- ---------------------------------------------------------------------------
-- What a walk remembers
-- ---------------------------------------------------------------------------

theorem memoryOf_cons (other link : Location) (memory : Option Reached) :
    memoryOf ((other, memory) :: entered) link =
      if other = link then some memory else memoryOf entered link := by
  rw [memoryOf, List.find?_cons]
  by_cases heq : other = link
  · simp [heq]
  · simp [heq, beq_false_of_ne heq, memoryOf]

theorem memoryOf_eq_some_iff : memoryOf entered link = some memory ↔
    ∃ other, entered.find? (·.1 == link) = some (other, memory) := by
  simp [memoryOf]

-- ---------------------------------------------------------------------------
-- Names
-- ---------------------------------------------------------------------------

theorem Reached.place_origin (here : Reached) (target : String) :
    (here.origin target).place = FileSystem.origin target here.place := by
  rw [Reached.origin, FileSystem.origin]
  split <;> rfl

theorem map_name_pieces (target : String) :
    (Text.splitOn '/' target.toList).map (Todo.name ∘ String.ofList) =
      (pieces target).map .name := List.map_map.symm

theorem walkLinks_leave : fs.walkLinks strict entered here (.leave link :: rest) =
    fs.walkLinks strict ((link, some here) :: entered) here rest := by
  rw [walkLinks]

theorem walkLinks_stay (h : name = "" ∨ name = ".") :
    fs.walkLinks strict entered here (.name name :: rest) =
      fs.walkLinks strict entered here rest := by
  rw [walkLinks, if_pos (by simpa using h)]

theorem walkLinks_up : fs.walkLinks strict entered here (.name ".." :: rest) =
    fs.walkLinks strict entered here.up rest := by
  rw [walkLinks]
  simp

theorem isPlain_of_passed (hstay : ¬ (name = "" || name = ".") = true) (hdots : ¬ name = "..")
    (hnull : ¬ name.contains '\x00' = true) : IsPlain name := by
  rw [Bool.or_eq_true, decide_eq_true_iff, decide_eq_true_iff, not_or] at hstay
  exact ⟨hstay.1, hstay.2, hdots, by simpa using hnull⟩

/-- What a walk does at a name depends on what is there, and at a link on what it remembers of
it. -/
theorem walkLinks_plain (hplain : IsPlain name) :
    fs.walkLinks strict entered here (.name name :: rest) =
      match fs.entry (here.place ++ [name]) with
      | .error cause =>
        if strict then .refused cause (here.into name)
        else fs.walkLinks strict entered (here.into name) rest
      | .ok (.link target) =>
        match memoryOf entered (here.place ++ [name]) with
        | some (some left) => fs.walkLinks strict entered left rest
        | some none =>
          if strict then
            match fs.find (here.into name).spelled true with
            | .error cause => .refused cause (here.into name)
            | .ok _ => .refused .tooManyLinks (here.into name)
          else .cycle (here.into name) (rest.filterMap Todo.name?)
        | none =>
          fs.walkLinks strict ((here.place ++ [name], none) :: entered) (here.origin target)
            ((pieces target).map .name ++ .leave (here.place ++ [name]) :: rest)
      | .ok _ => fs.walkLinks strict entered (here.into name) rest := by
  obtain ⟨hempty, hdot, hdots, hnull⟩ := hplain
  have hplace : (here.into name).place = here.place ++ [name] := rfl
  rw [walkLinks]
  simp only [hempty, hdot, hdots, String.contains_char_eq, hnull, decide_false,
    Bool.or_self, Bool.false_eq_true, if_false, hplace]
  cases hentry : fs.entry (here.place ++ [name]) with
  | error cause => rfl
  | ok node =>
    cases node with
    | link target =>
      dsimp only
      split
      · rename_i other left hfind
        have hmemory : memoryOf entered (here.place ++ [name]) = some (some left) :=
          memoryOf_eq_some_iff.mpr ⟨other, hfind⟩
        exact hmemory ▸ rfl
      · rename_i other hfind
        have hmemory : memoryOf entered (here.place ++ [name]) = some none :=
          memoryOf_eq_some_iff.mpr ⟨other, hfind⟩
        exact hmemory ▸ rfl
      · rename_i hfind
        have hmemory : memoryOf entered (here.place ++ [name]) = none :=
          Option.map_eq_none_iff.mpr hfind
        rw [hmemory, dif_pos (mem_links_of_entry hentry), pieces, List.map_map, Reached.origin]
    | _ => rfl

theorem walkLinks_missing (hplain : IsPlain name)
    (hentry : fs.entry (here.place ++ [name]) = .error cause) :
    fs.walkLinks strict entered here (.name name :: rest) =
      if strict then .refused cause (here.into name)
      else fs.walkLinks strict entered (here.into name) rest := by
  rw [walkLinks_plain hplain, hentry]

theorem walkLinks_step (hplain : IsPlain name) (hentry : fs.entry (here.place ++ [name]) = .ok node)
    (hlink : ∀ target, node ≠ .link target) :
    fs.walkLinks strict entered here (.name name :: rest) =
      fs.walkLinks strict entered (here.into name) rest := by
  rw [walkLinks_plain hplain, hentry]
  cases node with
  | link target => exact absurd rfl (hlink target)
  | _ => rfl

theorem walkLinks_left {left : Reached} (hplain : IsPlain name)
    (hentry : fs.entry (here.place ++ [name]) = .ok (.link target))
    (hmemory : memoryOf entered (here.place ++ [name]) = some (some left)) :
    fs.walkLinks strict entered here (.name name :: rest) =
      fs.walkLinks strict entered left rest := by
  rw [walkLinks_plain hplain, hentry]
  dsimp only
  rw [hmemory]

theorem walkLinks_inside (hplain : IsPlain name)
    (hentry : fs.entry (here.place ++ [name]) = .ok (.link target))
    (hmemory : memoryOf entered (here.place ++ [name]) = some none) (rest : List Todo) :
    ∃ cause, fs.walkLinks true entered here (.name name :: rest) =
      .refused cause (here.into name) := by
  rw [walkLinks_plain hplain, hentry]
  dsimp only
  rw [hmemory]
  cases fs.find (here.into name).spelled true with
  | error cause => exact ⟨cause, rfl⟩
  | ok found => exact ⟨.tooManyLinks, rfl⟩

theorem walkLinks_cycle (hplain : IsPlain name)
    (hentry : fs.entry (here.place ++ [name]) = .ok (.link target))
    (hmemory : memoryOf entered (here.place ++ [name]) = some none) (rest : List Todo) :
    fs.walkLinks false entered here (.name name :: rest) =
      .cycle (here.into name) (rest.filterMap Todo.name?) := by
  rw [walkLinks_plain hplain, hentry]
  dsimp only
  rw [hmemory]
  rfl

theorem walkLinks_enter (hplain : IsPlain name)
    (hentry : fs.entry (here.place ++ [name]) = .ok (.link target))
    (hmemory : memoryOf entered (here.place ++ [name]) = none) :
    fs.walkLinks strict entered here (.name name :: rest) =
      fs.walkLinks strict ((here.place ++ [name], none) :: entered) (here.origin target)
        ((pieces target).map .name ++ .leave (here.place ++ [name]) :: rest) := by
  rw [walkLinks_plain hplain, hentry]
  dsimp only
  rw [hmemory]

/-- Where no link is on the way, a walk goes where its names say. -/
theorem exists_walkLinks_names {names : List String} {inner : Node}
    (hplain : ∀ name ∈ names, IsPlain name) (hhere : fs.entry here.place = .ok node)
    (hnames : node.entry names = .ok inner) (hlink : ∀ target, inner ≠ .link target) :
    ∃ spelled, fs.walkLinks strict entered here (names.map .name) =
      .reached ⟨here.place ++ names, spelled⟩ := by
  induction names generalizing here node with
  | nil => exact ⟨here.spelled, by rw [List.map_nil, walkLinks, List.append_nil]⟩
  | cons name rest ih =>
    obtain ⟨hname, hrest⟩ := List.forall_mem_cons.mp hplain
    obtain ⟨entries, next, rfl, hlen, hlookup, hnext⟩ := Node.entry_cons_ok_iff.mp hnames
    have hentry : fs.entry (here.place ++ [name]) = .ok next := by
      rw [entry_append_ok hhere, Node.entry_cons_ok_iff]
      exact ⟨entries, next, rfl, hlen, hlookup, rfl⟩
    have hnextLink : ∀ target, next ≠ .link target := by
      rintro target rfl
      cases rest with
      | nil =>
        cases hnext
        exact hlink target rfl
      | cons => cases hnext
    obtain ⟨spelled, hwalk⟩ := @ih (here.into name) _ hrest hentry hnext
    refine ⟨spelled, ?_⟩
    rw [List.map_cons, walkLinks_step hname hentry hnextLink, hwalk]
    simp [Reached.into]

-- ---------------------------------------------------------------------------
-- Resolution
-- ---------------------------------------------------------------------------

/-- What a resolution comes to whose walk has ended at a location. -/
def settle (fs : FileSystem) (loc : Location) : Except ResolveError Path :=
  match fs.find (.atRoot loc) true with
  | .error .tooManyLinks => .error (.loop (Path.atRoot loc).toString)
  | _ => .ok (.atRoot loc)

theorem settle_of_find {found : Location × Node} (h : fs.find (.atRoot loc) true = .ok found) :
    fs.settle loc = .ok (.atRoot loc) := by
  rw [settle, h]

theorem settle_ok {result : Path} (h : fs.settle loc = .ok result) : result = .atRoot loc := by
  rw [settle] at h
  split at h
  · cases h
  · exact (Except.ok.inj h).symm

theorem resolve_of_reached {path : Path}
    (h : fs.walkLinks false [] (fs.startOf path) (path.parts.map .name) = .reached here) :
    fs.resolve path = fs.settle here.place := by
  rw [resolve, h]
  rfl

theorem resolve_of_cycle {path : Path} {link : Reached} {left : List String}
    (h : fs.walkLinks false [] (fs.startOf path) (path.parts.map .name) = .cycle link left) :
    fs.resolve path = fs.settle (collapse (link.place ++ left)) := by
  rw [resolve, h]
  rfl

theorem canonical_of_refused {path : Path}
    (h : fs.walkLinks true [] (fs.startOf path) (path.parts.map .name) = .refused cause there) :
    fs.canonical path = fs.resolve path := by
  rw [canonical, resolveStrict, h]
  cases cause <;> rfl

/-- What stands somewhere and is reached without a link has its own path for its canonical one. -/
theorem resolve_atRoot (hshort : (Path.atRoot loc).toString.utf8ByteSize < maxPath)
    (h : fs.entry loc = .ok node) (hplain : ∀ name ∈ loc, IsPlain name)
    (hlink : ∀ target, node ≠ .link target) : fs.resolve (.atRoot loc) = .ok (.atRoot loc) := by
  have hroot : fs.entry (fs.startOf (.atRoot loc)).place = .ok (.dir fs.root) := rfl
  obtain ⟨spelled, hwalk⟩ : ∃ spelled, fs.walkLinks false [] (fs.startOf (.atRoot loc))
      ((Path.atRoot loc).parts.map .name) = .reached ⟨loc, spelled⟩ :=
    exists_walkLinks_names hplain hroot h hlink
  exact (resolve_of_reached hwalk).trans (settle_of_find (find_atRoot hshort h hplain hlink))

-- ---------------------------------------------------------------------------
-- Walks to the end
-- ---------------------------------------------------------------------------

theorem IsPlain.names_of_entry (hplain : IsPlain name) (h : fs.entry (here.place ++ [name]) = .ok node) :
    fs.Names here.place name node := .of_entry h hplain.2.1 hplain.2.2.1

theorem passes_of_walkLinks (h : fs.walkLinks true entered here todo = .reached there) :
    fs.Passes entered here todo there := by
  induction entered, here, todo using walkLinks.induct fs true with
  | case1 entered here =>
    rw [walkLinks] at h
    cases h
    exact .done
  | case2 entered here link rest ih =>
    rw [walkLinks_leave] at h
    exact .leave (ih h)
  | case3 entered here name rest hstay ih =>
    have hstay : name = "" ∨ name = "." := by simpa using hstay
    rw [walkLinks_stay hstay] at h
    exact .stay hstay (ih h)
  | case4 entered here rest _ ih =>
    rw [walkLinks_up] at h
    exact .up (ih h)
  | case5 entered here name rest hstay hdots hnull =>
    rw [walkLinks] at h
    simp only [hstay, hdots, hnull, if_false, if_true] at h
    cases h
  | case6 entered here name rest hstay hdots hnull next cause hentry =>
    rw [walkLinks_missing (isPlain_of_passed hstay hdots hnull) hentry] at h
    cases h
  | case7 => contradiction
  | case8 entered here name rest hstay hdots hnull next target hentry other left hfind ih =>
    have hplain := isPlain_of_passed hstay hdots hnull
    have hmemory := memoryOf_eq_some_iff.mpr ⟨other, hfind⟩
    rw [walkLinks_left hplain hentry hmemory] at h
    exact .left (hplain.names_of_entry hentry) hmemory (ih h)
  | case9 entered here name rest hstay hdots hnull next target hentry other hfind =>
    obtain ⟨cause, hrefused⟩ := walkLinks_inside (isPlain_of_passed hstay hdots hnull) hentry
      (memoryOf_eq_some_iff.mpr ⟨other, hfind⟩) rest
    rw [hrefused] at h
    cases h
  | case10 entered here name rest hstay hdots hnull next target hentry other hfind =>
    obtain ⟨cause, hrefused⟩ := walkLinks_inside (isPlain_of_passed hstay hdots hnull) hentry
      (memoryOf_eq_some_iff.mpr ⟨other, hfind⟩) rest
    rw [hrefused] at h
    cases h
  | case11 => contradiction
  | case12 entered here name rest hstay hdots hnull next target hentry hfind hmem start ih =>
    have hplain := isPlain_of_passed hstay hdots hnull
    have hmemory : memoryOf entered (here.place ++ [name]) = none :=
      Option.map_eq_none_iff.mpr hfind
    rw [walkLinks_enter hplain hentry hmemory] at h
    rw [map_name_pieces] at ih
    exact .enter (hplain.names_of_entry hentry) hmemory (ih h)
  | case13 entered here name rest hstay hdots hnull next target hentry hfind hmem =>
    exact absurd (mem_links_of_entry hentry) hmem
  | case14 entered here name rest hstay hdots hnull next node hlink hentry ih =>
    have hplain := isPlain_of_passed hstay hdots hnull
    rw [walkLinks_step hplain hentry hlink] at h
    exact .step (hplain.names_of_entry hentry) hlink (ih h)

end FileSystem

end UnsafeAudit
