import UnsafeAudit.FileSystem.Resolve
import UnsafeAudit.Proofs.Loops
import UnsafeAudit.Proofs.Text.Lines

/-!
# Path lookup

`Leads` says where names lead from a directory when every link is followed,
however many there are. A lookup is bounded in the links that it follows, and
that is all it is bounded in: names lead somewhere exactly if some number of
links is enough for a lookup to get there (`leads_iff`).
-/

namespace UnsafeAudit

variable {xs ys names rest : List String} {name target : String}

-- ---------------------------------------------------------------------------
-- Entries
-- ---------------------------------------------------------------------------

namespace Node

variable {node inner : Node} {entries : Entries}

theorem dir_ne_link (entries : Entries) (target : String) : Node.dir entries ≠ .link target :=
  nofun

theorem file_ne_link (bytes : List UInt8) (target : String) : Node.file bytes ≠ .link target :=
  nofun

theorem entry_cons_ok_iff : node.entry (name :: names) = .ok inner ↔
    ∃ entries next, node = .dir entries ∧ name.utf8ByteSize ≤ maxName ∧
      entries.lookup name = some next ∧ next.entry names = .ok inner := by
  cases node with
  | file bytes => simp [entry]
  | link target => simp [entry]
  | dir entries =>
    rw [entry]
    by_cases hlong : name.utf8ByteSize > maxName
    · rw [if_pos hlong]
      simp [Nat.not_le.mpr hlong]
    · rw [if_neg hlong]
      cases hlookup : entries.lookup name <;> simp [Nat.not_lt.mp hlong, hlookup]

theorem entry_append (xs ys : List String) (node : Node) :
    node.entry (xs ++ ys) = node.entry xs >>= (·.entry ys) := by
  induction xs generalizing node with
  | nil => rfl
  | cons name rest ih =>
    cases node with
    | file bytes => rfl
    | link target => rfl
    | dir entries =>
      rw [List.cons_append, entry, entry]
      split
      · rfl
      · cases entries.lookup name with
        | none => rfl
        | some next => exact ih next

end Node

namespace FileSystem

/-- A name stands for an entry of a directory. -/
def IsPlain (name : String) : Prop :=
  name ≠ "" ∧ name ≠ "." ∧ name ≠ ".." ∧ '\x00' ∉ name.toList

instance : DecidablePred IsPlain := fun _ => inferInstanceAs (Decidable (_ ∧ _))

def origin (target : String) (here : Location) : Location :=
  if target.startsWith "/" then [] else here

/-- The names in a text. Those between separators next to each other are empty. -/
def pieces (text : String) : List String := (Text.splitOn '/' text.toList).map String.ofList

/-- What stands under a name in a directory. The name is not one of those that stand for the
directory itself and the one above. -/
structure Names (fs : FileSystem) (here : Location) (name : String) (node : Node) : Prop where
  not_dot : name ≠ "."
  not_dots : name ≠ ".."
  entry : ∃ entries, fs.entry here = .ok (.dir entries) ∧ name.utf8ByteSize ≤ maxName ∧
    entries.lookup name = some node

/-- From a directory, names lead to what stands at a location. Every link is followed. -/
inductive Leads (fs : FileSystem) : Location → List String → Location → Node → Prop
  | done {here node} (h : fs.entry here = .ok node) : Leads fs here [] here node
  | dot {here entries rest loc node} (hdir : fs.entry here = .ok (.dir entries))
    (h : Leads fs here rest loc node) : Leads fs here ("." :: rest) loc node
  | dots {here entries rest loc node} (hdir : fs.entry here = .ok (.dir entries))
    (h : Leads fs here.dropLast rest loc node) : Leads fs here (".." :: rest) loc node
  | step {here name inner rest loc node} (hname : fs.Names here name inner)
    (hlink : ∀ target, inner ≠ .link target) (h : Leads fs (here ++ [name]) rest loc node) :
    Leads fs here (name :: rest) loc node
  | follow {here name target rest loc node} (hname : fs.Names here name (.link target))
    (h : Leads fs (origin target here) (steps target ++ rest) loc node) :
    Leads fs here (name :: rest) loc node

variable {fs : FileSystem} {budget : Nat} {here loc loc' : Location} {node node' inner : Node}
  {entries : Entries}

theorem entry_append_ok (h : fs.entry here = .ok node) (ys : List String) :
    fs.entry (here ++ ys) = node.entry ys := by
  rw [entry] at h ⊢
  rw [Node.entry_append, h]
  rfl

-- ---------------------------------------------------------------------------
-- Where names lead
-- ---------------------------------------------------------------------------

theorem Names.unique (h : fs.Names here name node) (h' : fs.Names here name node') :
    node = node' := by
  obtain ⟨entries, hdir, -, hlookup⟩ := h.entry
  obtain ⟨entries', hdir', -, hlookup'⟩ := h'.entry
  rw [hdir] at hdir'
  cases hdir'
  rw [hlookup] at hlookup'
  exact Option.some.inj hlookup'

theorem Names.entry_child (h : fs.Names here name node) : fs.entry (here ++ [name]) = .ok node := by
  obtain ⟨entries, hdir, hlen, hlookup⟩ := h.entry
  rw [entry_append_ok hdir, Node.entry_cons_ok_iff]
  exact ⟨entries, node, rfl, hlen, hlookup, rfl⟩

theorem Names.of_entry (h : fs.entry (here ++ [name]) = .ok node) (hdot : name ≠ ".")
    (hdots : name ≠ "..") : fs.Names here name node := by
  rw [FileSystem.entry, Node.entry_append] at h
  obtain ⟨above, habove, hname⟩ := of_bind_ok h
  obtain ⟨entries, inner, rfl, hlen, hlookup, hinner⟩ := Node.entry_cons_ok_iff.mp hname
  cases hinner
  exact ⟨hdot, hdots, entries, habove, hlen, hlookup⟩

namespace Leads

theorem entry (h : fs.Leads here names loc node) : fs.entry loc = .ok node := by
  induction h with
  | done h => exact h
  | dot _ _ ih => exact ih
  | dots _ _ ih => exact ih
  | step _ _ _ ih => exact ih
  | follow _ _ ih => exact ih

theorem unique (h : fs.Leads here names loc node) (h' : fs.Leads here names loc' node') :
    loc = loc' ∧ node = node' := by
  induction h with
  | done h =>
    cases h' with
    | done h' =>
      rw [h] at h'
      exact ⟨rfl, Except.ok.inj h'⟩
  | dot _ _ ih =>
    generalize hdot : "." = name at h'
    cases h' with
    | dot _ h' => exact ih h'
    | dots => exact absurd hdot (by decide)
    | step hname => exact absurd hdot.symm hname.not_dot
    | follow hname => exact absurd hdot.symm hname.not_dot
  | dots _ _ ih =>
    generalize hdots : ".." = name at h'
    cases h' with
    | dot => exact absurd hdots (by decide)
    | dots _ h' => exact ih h'
    | step hname => exact absurd hdots.symm hname.not_dots
    | follow hname => exact absurd hdots.symm hname.not_dots
  | step hname hlink _ ih =>
    cases h' with
    | dot => exact absurd rfl hname.not_dot
    | dots => exact absurd rfl hname.not_dots
    | step _ _ h' => exact ih h'
    | follow hname' => exact absurd (hname.unique hname') (hlink _)
  | follow hname _ ih =>
    cases h' with
    | dot => exact absurd rfl hname.not_dot
    | dots => exact absurd rfl hname.not_dots
    | step hname' hlink' => exact absurd (hname'.unique hname) (hlink' _)
    | follow hname' h' =>
      cases hname.unique hname'
      exact ih h'

theorem append (h : fs.Leads here xs loc node) (h' : fs.Leads loc ys loc' node') :
    fs.Leads here (xs ++ ys) loc' node' := by
  induction h with
  | done _ => exact h'
  | dot hdir _ ih => exact .dot hdir (ih h')
  | dots hdir _ ih => exact .dots hdir (ih h')
  | step hname hlink _ ih => exact .step hname hlink (ih h')
  | follow hname _ ih =>
    refine .follow hname ?_
    show fs.Leads _ (_ ++ (_ ++ ys)) _ _
    rw [← List.append_assoc]
    exact ih h'

end Leads

-- ---------------------------------------------------------------------------
-- Lookups
-- ---------------------------------------------------------------------------

theorem leads_of_findFrom_ok (h : fs.findFrom true budget here names = .ok (loc, node)) :
    fs.Leads here names loc node := by
  induction budget, here, names using findFrom.induct fs true with
  | case1 budget here =>
    rw [findFrom] at h
    cases hentry : fs.entry here with
    | error e => rw [hentry] at h; cases h
    | ok found => rw [hentry] at h; cases h; exact .done hentry
  | case2 budget here name rest cause hentry =>
    rw [findFrom, hentry] at h
    cases h
  | case3 budget here rest entries hentry ih =>
    rw [findFrom, hentry] at h
    exact .dot hentry (ih h)
  | case4 budget here rest entries hentry hne ih =>
    rw [findFrom, hentry] at h
    simp only [hne, if_false, if_true] at h
    exact .dots hentry (ih h)
  | case5 budget here name rest entries hentry hdot hdots hlong =>
    rw [findFrom, hentry] at h
    simp only [hdot, hdots, hlong, if_false, if_true] at h
    cases h
  | case6 budget here name rest entries hentry hdot hdots hlong hlookup =>
    rw [findFrom, hentry] at h
    simp only [hdot, hdots, hlong, if_false, hlookup] at h
    cases h
  | case7 budget here name rest entries hentry hdot hdots hlong target hlookup hlast =>
    simp at hlast
  | case8 here name rest entries hentry hdot hdots hlong target hlookup hlast =>
    rw [findFrom, hentry] at h
    simp only [hdot, hdots, hlong, if_false, hlookup, hlast] at h
    cases h
  | case9 here name rest entries hentry hdot hdots hlong target hlookup hlast budget ih =>
    rw [findFrom, hentry] at h
    simp only [hdot, hdots, hlong, if_false, hlookup, hlast] at h
    exact .follow ⟨hdot, hdots, entries, hentry, Nat.not_lt.mp hlong, hlookup⟩ (ih h)
  | case10 budget here name rest entries hentry hdot hdots hlong found hlink hlookup ih =>
    rw [findFrom, hentry] at h
    simp only [hdot, hdots, hlong, if_false, hlookup] at h
    exact .step ⟨hdot, hdots, entries, hentry, Nat.not_lt.mp hlong, hlookup⟩ hlink (ih h)
  | case11 budget here name rest found hdir hentry =>
    rw [findFrom, hentry] at h
    cases found with
    | dir entries => exact (hdir entries rfl).elim
    | file bytes => cases h
    | link target => cases h

theorem pieces_of_not_mem (h : '/' ∉ name.toList) : pieces name = [name] := by
  rw [pieces, Text.splitOn_of_not_mem h, List.map_singleton, String.ofList_toList]

theorem steps_of_not_mem (hempty : name ≠ "") (h : '/' ∉ name.toList) : steps name = [name] := by
  have hnames : (Text.splitOn '/' name.toList).map String.ofList = [name] := pieces_of_not_mem h
  rw [steps]
  simp [hnames, hempty]

theorem findFrom_long {follow : Bool} (hdir : fs.entry here = .ok (.dir entries))
    (hlong : maxName < name.utf8ByteSize) (budget : Nat) (rest : List String) :
    fs.findFrom follow budget here (name :: rest) = .error .nameTooLong := by
  have hdot : name ≠ "." := by
    rintro rfl
    exact absurd hlong (by decide)
  have hdots : name ≠ ".." := by
    rintro rfl
    exact absurd hlong (by decide)
  rw [findFrom, hdir]
  simp only [hdot, hdots, hlong, if_false, if_true]

theorem findFrom_step {follow : Bool} (h : fs.Names here name inner)
    (hlink : ∀ target, inner ≠ .link target) (budget : Nat) (rest : List String) :
    fs.findFrom follow budget here (name :: rest) =
      fs.findFrom follow budget (here ++ [name]) rest := by
  obtain ⟨hdot, hdots, entries, hdir, hlen, hlookup⟩ := h
  rw [findFrom, hdir]
  simp only [hdot, hdots, Nat.not_lt.mpr hlen, if_false, hlookup]

theorem findFrom_of_entry {follow : Bool} (h : fs.entry here = .ok node)
    (hnames : node.entry names = .ok inner) (hplain : ∀ name ∈ names, IsPlain name)
    (hlink : ∀ target, inner ≠ .link target) (budget : Nat) :
    fs.findFrom follow budget here names = .ok (here ++ names, inner) := by
  induction names generalizing here node with
  | nil =>
    cases hnames
    rw [findFrom, h, List.append_nil]
    rfl
  | cons name rest ih =>
    obtain ⟨⟨-, hdot, hdots, -⟩, hrest⟩ := List.forall_mem_cons.mp hplain
    obtain ⟨entries, next, rfl, hlen, hlookup, hnext⟩ := Node.entry_cons_ok_iff.mp hnames
    have hname : fs.Names here name next := ⟨hdot, hdots, entries, h, hlen, hlookup⟩
    have hnolink : ∀ target, next ≠ .link target := by
      rintro target rfl
      cases rest with
      | nil => exact hlink target (Except.ok.inj hnext).symm
      | cons _ _ => cases hnext
    rw [findFrom_step hname hnolink, ih hname.entry_child hnext hrest, List.append_assoc]
    rfl

theorem Leads.of_entry (h : fs.entry here = .ok node) (hnames : node.entry names = .ok inner)
    (hplain : ∀ name ∈ names, IsPlain name) (hlink : ∀ target, inner ≠ .link target) :
    fs.Leads here names (here ++ names) inner :=
  leads_of_findFrom_ok (findFrom_of_entry h hnames hplain hlink 0)

theorem findFrom_follow (h : fs.Names here name (.link target)) (budget : Nat)
    (rest : List String) : fs.findFrom true (budget + 1) here (name :: rest) =
      fs.findFrom true budget (origin target here) (steps target ++ rest) := by
  obtain ⟨hdot, hdots, entries, hdir, hlen, hlookup⟩ := h
  rw [findFrom, hdir]
  simp only [hdot, hdots, Nat.not_lt.mpr hlen, if_false, hlookup, Bool.not_true,
    Bool.and_false, Bool.false_eq_true]
  rfl

theorem exists_findFrom_of_leads (h : fs.Leads here names loc node) :
    ∃ budget, fs.findFrom true budget here names = .ok (loc, node) := by
  induction h with
  | done h => exact ⟨0, by rw [findFrom, h]; rfl⟩
  | dot hdir _ ih =>
    obtain ⟨budget, ih⟩ := ih
    exact ⟨budget, by rw [findFrom, hdir]; exact ih⟩
  | dots hdir _ ih =>
    obtain ⟨budget, ih⟩ := ih
    refine ⟨budget, ?_⟩
    rw [findFrom, hdir]
    simp only [String.reduceEq, if_false, if_true]
    exact ih
  | step hname hlink _ ih =>
    obtain ⟨budget, ih⟩ := ih
    exact ⟨budget, (findFrom_step hname hlink budget _).trans ih⟩
  | follow hname _ ih =>
    obtain ⟨budget, ih⟩ := ih
    exact ⟨budget + 1, (findFrom_follow hname budget _).trans ih⟩

theorem leads_iff : fs.Leads here names loc node ↔
    ∃ budget, fs.findFrom true budget here names = .ok (loc, node) :=
  ⟨exists_findFrom_of_leads, fun ⟨_, h⟩ => leads_of_findFrom_ok h⟩

-- ---------------------------------------------------------------------------
-- Paths
-- ---------------------------------------------------------------------------

def LeadsTo (fs : FileSystem) (path : Path) (loc : Location) (node : Node) : Prop :=
  fs.Leads (fs.startOf path).place path.parts loc node

/-- A path that is not too long is looked up name by name, from the root or the working
directory. -/
theorem find_eq {path : Path} {follow : Bool} (h : path.toString.utf8ByteSize < maxPath) :
    fs.find path follow = fs.findFrom follow maxLinks (fs.startOf path).place path.parts := by
  rw [find, if_neg (Nat.not_le.mpr h), startOf]
  split <;> rfl

theorem find_atRoot {follow : Bool} (hlen : (Path.atRoot loc).toString.utf8ByteSize < maxPath)
    (h : fs.entry loc = .ok node) (hplain : ∀ name ∈ loc, IsPlain name)
    (hlink : ∀ target, node ≠ .link target) :
    fs.find (.atRoot loc) follow = .ok (loc, node) := by
  have hroot : fs.entry [] = .ok (.dir fs.root) := rfl
  rw [find_eq hlen]
  exact findFrom_of_entry hroot h hplain hlink maxLinks

theorem stat_atRoot (hlen : (Path.atRoot loc).toString.utf8ByteSize < maxPath)
    (h : fs.entry loc = .ok node) (hplain : ∀ name ∈ loc, IsPlain name)
    (hlink : ∀ target, node ≠ .link target) : fs.stat (.atRoot loc) = .ok node := by
  rw [stat, find_atRoot hlen h hplain hlink]

theorem leadsTo_of_find_ok {path : Path} (h : fs.find path true = .ok (loc, node)) :
    fs.LeadsTo path loc node := by
  by_cases hlen : path.toString.utf8ByteSize < maxPath
  · rw [find_eq hlen] at h
    exact leads_of_findFrom_ok h
  · rw [find, if_pos (Nat.not_lt.mp hlen)] at h
    cases h

theorem leadsTo_of_stat_ok {path : Path} (h : fs.stat path = .ok node) :
    ∃ loc, fs.LeadsTo path loc node := by
  rw [stat] at h
  split at h
  · rename_i loc found hfind
    cases h
    exact ⟨loc, leadsTo_of_find_ok hfind⟩
  · cases h

-- ---------------------------------------------------------------------------
-- Whether something is there
-- ---------------------------------------------------------------------------

def Present (fs : FileSystem) (path : Path) : Prop := ∃ node, fs.stat path = .ok node

def Absent (fs : FileSystem) (path : Path) : Prop :=
  ∃ e, fs.stat path = .error e ∧ e.cause ≠ .nameTooLong

/-- The file system does not say whether something is there, as a name on the way or the whole
path is too long. -/
def Refused (fs : FileSystem) (path : Path) (e : OsError) : Prop :=
  fs.stat path = .error e ∧ e.cause = .nameTooLong

section

variable {path : Path}

theorem pathExists_true_iff : fs.pathExists path = .ok true ↔ fs.Present path := by
  rw [pathExists, Present]
  cases fs.stat path with
  | ok node => simp
  | error e => by_cases hlong : e.cause = .nameTooLong <;> simp [hlong]

theorem pathExists_false_iff : fs.pathExists path = .ok false ↔ fs.Absent path := by
  rw [pathExists, Absent]
  cases fs.stat path with
  | ok node => simp
  | error e => by_cases hlong : e.cause = .nameTooLong <;> simp [hlong]

theorem pathExists_error_iff {e : OsError} :
    fs.pathExists path = .error e ↔ fs.Refused path e := by
  rw [pathExists, Refused]
  cases fs.stat path with
  | ok node => simp
  | error found =>
    by_cases hlong : found.cause = .nameTooLong
    · simp only [hlong, if_true, Except.error.injEq]
      exact ⟨fun h => ⟨h, h ▸ hlong⟩, And.left⟩
    · simp only [hlong, if_false, reduceCtorEq, Except.error.injEq, false_iff, not_and]
      exact fun h => h ▸ hlong

end

end FileSystem

end UnsafeAudit
