import UnsafeAudit.Proofs.FileSystem.Arrival
import UnsafeAudit.Proofs.FileSystem.Walk

/-!
# Canonical paths

All ways to make a path canonical agree on a path that arrives: each gives the
location, spelled from the root (`resolveStrict_ok_iff`, `resolve_of_arrivesAt`,
`canonical_of_arrivesAt`).

A walk remembers where it left each link. That is where the link arrives, so to
pass a link by what is remembered is to follow it. The walk does not come upon a
link that it is inside of: the target would lead back to the link, and the link
arrives nowhere with fewer links in links than its target does.
-/

namespace UnsafeAudit.FileSystem

variable {name target : String} {fs : FileSystem} {depth : Nat} {here there : Reached}
  {place loc loc' link : Location} {rest todo : List Todo}
  {entered : List (Location × Option Reached)}

-- ---------------------------------------------------------------------------
-- Names that arrive are walked
-- ---------------------------------------------------------------------------

def Inside (entered : List (Location × Option Reached)) (link : Location) : Prop :=
  memoryOf entered link = some none

theorem inside_enter_iff {other : Location} :
    Inside ((other, none) :: entered) link ↔ other = link ∨ Inside entered link := by
  rw [Inside, memoryOf_cons]
  split <;> simp [*, Inside]

theorem inside_leave_iff {other : Location} :
    Inside ((other, some there) :: entered) link ↔ other ≠ link ∧ Inside entered link := by
  rw [Inside, memoryOf_cons]
  split <;> simp [*, Inside]

def LinkArrives (fs : FileSystem) (link loc : Location) : Prop :=
  ∃ depth place name, link = place ++ [name] ∧ fs.Arrives depth place [name] loc

/-- A walk has left links only where they arrive. -/
def Knows (fs : FileSystem) (entered : List (Location × Option Reached)) : Prop :=
  ∀ link left, memoryOf entered link = some (some left) → fs.LinkArrives link left.place

/-- A walk is inside of links only that arrive nowhere with links in links of a given depth. -/
def Apart (fs : FileSystem) (depth : Nat) (entered : List (Location × Option Reached)) : Prop :=
  ∀ place name, Inside entered (place ++ [name]) → ∀ loc, ¬ fs.Arrives depth place [name] loc

theorem LinkArrives.unique (hfs : fs.WellFormed) (hlink : fs.LinkArrives (place ++ [name]) loc)
    (h : fs.Arrives depth place [name] loc') : loc = loc' := by
  obtain ⟨depth', place', name', heq, h'⟩ := hlink
  obtain ⟨rfl, hname⟩ := List.append_inj' heq rfl
  cases hname
  exact h'.unique hfs h

theorem knows_nil : fs.Knows [] := nofun

theorem Knows.enter (h : fs.Knows entered) (link : Location) :
    fs.Knows ((link, none) :: entered) := by
  intro other left hmemory
  rw [memoryOf_cons] at hmemory
  split at hmemory
  · cases hmemory
  · exact h other left hmemory

theorem Knows.leave (h : fs.Knows entered) (hlink : fs.LinkArrives link there.place) :
    fs.Knows ((link, some there) :: entered) := by
  intro other left hmemory
  rw [memoryOf_cons] at hmemory
  split at hmemory
  · rename_i heq
    cases hmemory
    exact heq ▸ hlink
  · exact h other left hmemory

/-- A walk may enter a link to walk its target, if no way is less deep to where that arrives. -/
theorem Apart.enter (hfs : fs.WellFormed) (hname : fs.Names place name (.link target))
    {below : Nat} (h : fs.Apart depth entered) (hle : below ≤ depth)
    (htarget : fs.Arrives below (origin target place) (pieces target) loc)
    (hmin : ∀ d < below, ¬ fs.Arrives d (origin target place) (pieces target) loc) :
    fs.Apart below ((place ++ [name], none) :: entered) := by
  intro place' name' hinside loc' harrives
  rcases inside_enter_iff.mp hinside with heq | hinside
  · obtain ⟨rfl, hsame⟩ := List.append_inj' heq rfl
    cases hsame
    obtain ⟨d, hd, hback⟩ := harrives.exists_of_link hfs hname
    exact hmin d hd (hback.unique hfs htarget ▸ hback)
  · exact h place' name' hinside loc' (harrives.mono hle)

/-- A walk passes names that arrive, whatever comes after them. It is then inside of no link that it
was not inside of before. -/
theorem exists_walkLinks_eq (hfs : fs.WellFormed) (strict : Bool) (depth : Nat) :
    ∀ {place names loc}, fs.Arrives depth place names loc →
    ∀ {entered}, fs.Knows entered → fs.Apart depth entered →
    ∀ {here : Reached}, here.place = place → ∀ rest, ∃ entered' there,
      there.place = loc ∧ fs.Knows entered' ∧ (∀ link, Inside entered' link → Inside entered link) ∧
      fs.walkLinks strict entered here (names.map .name ++ rest) =
        fs.walkLinks strict entered' there rest := by
  -- links first by how deep they lead, then the names of one path
  induction depth using Nat.strongRecOn with
  | ind depth ihdepth =>
  intro place names loc h
  generalize hdepth : depth = d at h
  induction h with
  | done =>
    intro entered hknows _ here hhere rest
    exact ⟨entered, here, hhere, hknows, fun _ => id, rfl⟩
  | stay hname _ ih =>
    intro entered hknows hapart here hhere rest
    rw [List.map_cons, List.cons_append, walkLinks_stay hname]
    exact ih hdepth hknows hapart hhere rest
  | up _ ih =>
    intro entered hknows hapart here hhere rest
    rw [List.map_cons, List.cons_append, walkLinks_up]
    exact ih hdepth hknows hapart (congrArg List.dropLast hhere) rest
  | step hname hlink _ ih =>
    intro entered hknows hapart here hhere rest
    rw [List.map_cons, List.cons_append,
      walkLinks_step (hfs.isPlain_of_names hname) (hhere ▸ hname.entry_child) hlink]
    exact ih hdepth hknows hapart (congrArg (· ++ _) hhere) rest
  | @follow below place name target mid names loc hname htarget _ _ ih =>
    intro entered hknows hapart here hhere rest
    subst hhere
    have hplain := hfs.isPlain_of_names hname
    have hlink : fs.Arrives (below + 1) here.place [name] mid := .follow hname htarget .done
    rw [List.map_cons, List.cons_append]
    match hmemory : memoryOf entered (here.place ++ [name]) with
    | some (some left) =>
      rw [walkLinks_left hplain hname.entry_child hmemory]
      exact ih hdepth hknows hapart ((hknows _ _ hmemory).unique hfs hlink) rest
    | some none => exact absurd hlink (hapart _ _ hmemory _)
    | none =>
      obtain ⟨least, hle, hleast, hmin⟩ := htarget.exists_least
      have hlt : least < depth := hdepth ▸ Nat.lt_succ_of_le hle
      obtain ⟨entered', there, rfl, hknows', hinside', hwalk'⟩ := ihdepth least hlt hleast
        (hknows.enter _) (hapart.enter hfs hname (Nat.le_succ_of_le hle) hleast hmin)
        (here.place_origin target)
        (.leave (here.place ++ [name]) :: (names.map .name ++ rest))
      have hinside : ∀ link, Inside ((here.place ++ [name], some there) :: entered') link →
          Inside entered link := by
        intro link hin
        obtain ⟨hne, hin⟩ := inside_leave_iff.mp hin
        exact (inside_enter_iff.mp (hinside' link hin)).resolve_left hne
      obtain ⟨entered'', there', hthere', hknows'', hinside'', hwalk''⟩ := ih hdepth
        (hknows'.leave ⟨below + 1, _, name, rfl, hlink⟩)
        (fun place name hin => hapart place name (hinside _ hin)) rfl rest
      refine ⟨entered'', there', hthere', hknows'',
        fun link hin => hinside _ (hinside'' link hin), ?_⟩
      rw [walkLinks_enter hplain hname.entry_child hmemory, hwalk', walkLinks_leave, hwalk'']

-- ---------------------------------------------------------------------------
-- Names that are walked arrive
-- ---------------------------------------------------------------------------

theorem LinkArrives.exists_arrives {mid : Location} {names : List String}
    (hlink : fs.LinkArrives (place ++ [name]) mid) (h : fs.Arrives depth mid names loc) :
    ∃ depth, fs.Arrives depth place (name :: names) loc := by
  obtain ⟨depth', place', name', heq, h'⟩ := hlink
  obtain ⟨rfl, hname⟩ := List.append_inj' heq rfl
  cases hname
  exact ⟨max depth' depth, (h'.mono (Nat.le_max_left _ _)).append (h.mono (Nat.le_max_right _ _))⟩

theorem Names.exists_arrives (hname : fs.Names place name (.link target)) {names : List String}
    (h : fs.Arrives depth (origin target place) (pieces target ++ names) loc) :
    ∃ depth, fs.Arrives depth place (name :: names) loc := by
  obtain ⟨mid, htarget, h⟩ := h.exists_of_append
  exact ⟨depth + 1, .follow hname htarget (h.mono (Nat.le_succ depth))⟩

/-- Wherever a walk that has some names before it leaves a link, that link arrives. -/
def Owes (fs : FileSystem) (place : Location) (before : List String) : List Todo → Prop
  | [] => True
  | .name name :: rest => fs.Owes place (before ++ [name]) rest
  | .leave link :: rest =>
    (∀ depth loc, fs.Arrives depth place before loc → fs.LinkArrives link loc) ∧
      fs.Owes place before rest

theorem owes_names (place : Location) (before names : List String) (rest : List Todo) :
    fs.Owes place before (names.map .name ++ rest) ↔ fs.Owes place (before ++ names) rest := by
  induction names generalizing before with
  | nil => simp
  | cons name names ih => rw [List.map_cons, List.cons_append, Owes, ih, List.append_assoc]; rfl

theorem Owes.transfer {place' : Location} {before before' : List String}
    (h : fs.Owes place before todo) (hway : ∀ depth after loc,
      fs.Arrives depth place' (before' ++ after) loc →
        ∃ depth, fs.Arrives depth place (before ++ after) loc) :
    fs.Owes place' before' todo := by
  induction todo generalizing before before' with
  | nil => trivial
  | cons first rest ih =>
    cases first with
    | name name =>
      have h : fs.Owes place (before ++ [name]) rest := h
      show fs.Owes place' (before' ++ [name]) rest
      refine ih h fun depth after loc harrives => ?_
      rw [List.append_assoc] at harrives ⊢
      exact hway depth _ loc harrives
    | leave link =>
      refine ⟨fun depth loc harrives => ?_, ih h.2 hway⟩
      obtain ⟨depth, harrives⟩ := hway depth [] loc (by rwa [List.append_nil])
      rw [List.append_nil] at harrives
      exact h.1 depth loc harrives

/-- A name takes a walk to another place: what arrives from there arrives by that name. -/
def TakesTo (fs : FileSystem) (place : Location) (name : String) (place' : Location) : Prop :=
  ∀ depth names loc, fs.Arrives depth place' names loc →
    ∃ depth, fs.Arrives depth place (name :: names) loc

theorem TakesTo.exists_arrives {place' : Location} (htakes : fs.TakesTo place name place')
    (howes : fs.Owes place [] (.name name :: rest)) (hrest : fs.Owes place' [] rest →
      ∃ depth, fs.Arrives depth place' (rest.filterMap Todo.name?) loc) :
    ∃ depth, fs.Arrives depth place ((.name name :: rest).filterMap Todo.name?) loc := by
  have howes : fs.Owes place [name] rest := howes
  obtain ⟨depth, harrives⟩ := hrest (howes.transfer htakes)
  exact htakes depth _ _ harrives

theorem filterMap_name? (names : List String) (rest : List Todo) :
    (names.map Todo.name ++ rest).filterMap Todo.name? = names ++ rest.filterMap Todo.name? := by
  rw [List.filterMap_append, List.filterMap_map]
  exact congrArg (· ++ _) List.filterMap_some

theorem exists_arrives_of_passes (h : fs.Passes entered here todo there)
    (hknows : fs.Knows entered) (howes : fs.Owes here.place [] todo) :
    ∃ depth, fs.Arrives depth here.place (todo.filterMap Todo.name?) there.place := by
  induction h with
  | done => exact ⟨0, .done⟩
  | leave _ ih =>
    obtain ⟨hlink, howes⟩ := howes
    exact ih (hknows.leave (hlink 0 _ .done)) howes
  | stay hname _ ih =>
    exact TakesTo.exists_arrives (fun depth _ _ h => ⟨depth, .stay hname h⟩) howes (ih hknows)
  | up _ ih => exact TakesTo.exists_arrives (fun depth _ _ h => ⟨depth, .up h⟩) howes (ih hknows)
  | step hname hlink _ ih =>
    exact TakesTo.exists_arrives (fun depth _ _ h => ⟨depth, .step hname hlink h⟩) howes (ih hknows)
  | left _ hmemory _ ih =>
    exact TakesTo.exists_arrives (fun _ _ _ => (hknows _ _ hmemory).exists_arrives) howes
      (ih hknows)
  | @enter entered here name target rest there hname hmemory _ ih =>
    -- the names of the target come before what is owed on leaving the link
    have hway : ∀ depth after loc,
        fs.Arrives depth (here.origin target).place (pieces target ++ after) loc →
          ∃ depth, fs.Arrives depth here.place (name :: after) loc := by
      rw [here.place_origin]
      exact fun _ _ _ => hname.exists_arrives
    have howes : fs.Owes (here.origin target).place []
        ((pieces target).map .name ++ .leave (here.place ++ [name]) :: rest) := by
      refine (owes_names _ _ _ _).mpr ⟨fun depth loc harrives => ?_, ?_⟩
      · rw [here.place_origin] at harrives
        exact ⟨depth + 1, _, name, rfl, .follow hname harrives .done⟩
      · have hrest : fs.Owes here.place [name] rest := howes
        exact hrest.transfer hway
    obtain ⟨depth, harrives⟩ := ih (hknows.enter _) howes
    rw [filterMap_name?] at harrives
    exact hway depth _ _ harrives

-- ---------------------------------------------------------------------------
-- Resolution
-- ---------------------------------------------------------------------------

variable {path result : Path}

theorem walkLinks_of_arrivesAt (hfs : fs.WellFormed) (h : fs.ArrivesAt path loc) (strict : Bool) :
    ∃ spelled, fs.walkLinks strict [] (fs.startOf path) (path.parts.map .name) =
      .reached ⟨loc, spelled⟩ := by
  obtain ⟨depth, harrives⟩ := h
  obtain ⟨entered, there, rfl, -, -, hwalk⟩ :=
    exists_walkLinks_eq hfs strict depth harrives knows_nil nofun rfl []
  refine ⟨there.spelled, ?_⟩
  rw [List.append_nil, walkLinks] at hwalk
  exact hwalk

/-- Strict resolution tells where a path arrives, and refuses a path that arrives nowhere. -/
theorem resolveStrict_ok_iff (hfs : fs.WellFormed) :
    fs.resolveStrict path = .ok result ↔ ∃ loc, fs.ArrivesAt path loc ∧ result = .atRoot loc := by
  constructor
  · intro h
    rw [resolveStrict] at h
    split at h
    · rename_i there hwalk
      cases h
      have howes : fs.Owes (fs.startOf path).place [] (path.parts.map .name) := by
        rw [← List.append_nil (path.parts.map _), owes_names]
        trivial
      obtain ⟨depth, harrives⟩ := exists_arrives_of_passes (passes_of_walkLinks hwalk) knows_nil howes
      rw [← List.append_nil (path.parts.map _), filterMap_name?] at harrives
      exact ⟨there.place, ⟨depth, by rwa [List.filterMap_nil, List.append_nil] at harrives⟩, rfl⟩
    all_goals cases h
  · rintro ⟨loc, h, rfl⟩
    obtain ⟨spelled, hwalk⟩ := walkLinks_of_arrivesAt hfs h true
    rw [resolveStrict, hwalk]

theorem find_atRoot_ne_tooManyLinks (hfs : fs.WellFormed) (h : fs.Stands loc) :
    fs.find (.atRoot loc) true ≠ .error .tooManyLinks := by
  obtain ⟨node, hentry, hlink⟩ := h
  by_cases hlen : (Path.atRoot loc).toString.utf8ByteSize < maxPath
  · rw [find_atRoot hlen hentry (hfs.isPlain_of_entry hentry) hlink]
    rintro ⟨⟩
  · rw [find, if_pos (Nat.not_lt.mp hlen)]
    rintro ⟨⟩

theorem resolve_of_arrivesAt (hfs : fs.WellFormed) (h : fs.ArrivesAt path loc) :
    fs.resolve path = .ok (.atRoot loc) := by
  obtain ⟨spelled, hwalk⟩ := walkLinks_of_arrivesAt hfs h false
  rw [resolve, hwalk]
  dsimp only
  split
  · rename_i hloop
    exact absurd hloop (find_atRoot_ne_tooManyLinks hfs (h.stands hfs))
  · rfl

theorem canonical_of_arrivesAt (hfs : fs.WellFormed) (h : fs.ArrivesAt path loc) :
    fs.canonical path = .ok (.atRoot loc) := by
  rw [canonical, (resolveStrict_ok_iff hfs).mpr ⟨loc, h, rfl⟩]

end UnsafeAudit.FileSystem
