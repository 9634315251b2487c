import UnsafeAudit.FileSystem.Listing
import UnsafeAudit.Proofs.FileSystem.Writing
import UnsafeAudit.Proofs.Path.Order

/-!
# What stands below a directory

In a tidy state the entries of a directory have names of their own that fit. A
walk below a directory lists each entry once that is at the end of real
directories and is no directory itself (`mem_entriesBelow_iff`,
`nodup_entriesBelow`), and on its way looks at these entries and at all real
directories (`entry_mem_looks_iff`, `directory_mem_looks_iff`).
-/

namespace UnsafeAudit

open FileSystem (Fits)

variable {name first : String} {names : List String} {node inner : Node} {entries rest : Entries}
  {here path : Path} {leadsToDir : Path → Bool} {P : Node → Prop}

-- ---------------------------------------------------------------------------
-- Tidy states
-- ---------------------------------------------------------------------------

mutual
/-- The names in each directory fit, and none is given twice. -/
def Node.Tidy : Node → Prop
  | .dir entries => entries.Tidy
  | _ => True
def Entries.Tidy : Entries → Prop
  | .nil => True
  | .cons name node rest => Fits name ∧ name ∉ rest.names ∧ node.Tidy ∧ rest.Tidy
end

instance : DecidablePred Fits := fun name =>
  decidable_of_iff (FileSystem.IsPlain name ∧ name.utf8ByteSize ≤ maxName)
    ⟨fun h => ⟨h.1, h.2⟩, fun h => ⟨h.isPlain, h.size_le⟩⟩

mutual
def Node.decidableTidy : (node : Node) → Decidable node.Tidy
  | .file _ => .isTrue trivial
  | .link _ => .isTrue trivial
  | .dir entries => entries.decidableTidy
def Entries.decidableTidy : (entries : Entries) → Decidable entries.Tidy
  | .nil => .isTrue trivial
  | .cons name node rest =>
    have := node.decidableTidy
    have := rest.decidableTidy
    inferInstanceAs (Decidable (Fits name ∧ name ∉ rest.names ∧ node.Tidy ∧ rest.Tidy))
end

instance : DecidablePred Node.Tidy := Node.decidableTidy

theorem Entries.Tidy.of_lookup : ∀ {entries : Entries}, entries.Tidy →
    entries.lookup name = some node → Fits name ∧ node.Tidy
  | .nil, _, h => by cases h
  | .cons first other rest, ⟨hfits, _, hother, hrest⟩, h => by
    rw [lookup] at h
    split at h
    · rename_i heq
      cases h
      exact ⟨heq ▸ hfits, hother⟩
    · exact hrest.of_lookup h

theorem Node.Tidy.of_entry (htidy : node.Tidy) (h : node.entry names = .ok inner) :
    (∀ name ∈ names, Fits name) ∧ inner.Tidy := by
  induction names generalizing node with
  | nil =>
    cases h
    exact ⟨nofun, htidy⟩
  | cons name rest ih =>
    obtain ⟨entries, next, rfl, -, hlookup, hnext⟩ := entry_cons_ok_iff.mp h
    obtain ⟨hname, hbelow⟩ := Entries.Tidy.of_lookup htidy hlookup
    obtain ⟨hrest, hinner⟩ := ih hbelow hnext
    exact ⟨List.forall_mem_cons.mpr ⟨hname, hrest⟩, hinner⟩

-- ---------------------------------------------------------------------------
-- What names lead to
-- ---------------------------------------------------------------------------

/-- A path is that of something below a node, or of the node, at the end of real directories. -/
def Node.Holds (P : Node → Prop) (here : Path) (node : Node) (path : Path) : Prop :=
  ∃ names inner, path = here.descend names ∧ node.entry names = .ok inner ∧ P inner

def Entries.Holds (P : Node → Prop) (here : Path) (entries : Entries) (path : Path) : Prop :=
  ∃ name names inner, path = here.descend (name :: names) ∧
    (Node.dir entries).entry (name :: names) = .ok inner ∧ P inner

theorem Node.holds_dir : (Node.dir entries).Holds P here path ↔
    path = here ∧ P (.dir entries) ∨ entries.Holds P here path := by
  constructor
  · rintro ⟨names, inner, rfl, hentry, hinner⟩
    cases names with
    | nil =>
      cases hentry
      exact .inl ⟨Path.descend_nil here, hinner⟩
    | cons name names => exact .inr ⟨name, names, inner, rfl, hentry, hinner⟩
  · rintro (⟨rfl, hdir⟩ | ⟨name, names, inner, rfl, hentry, hinner⟩)
    · exact ⟨[], _, (Path.descend_nil path).symm, rfl, hdir⟩
    · exact ⟨name :: names, inner, rfl, hentry, hinner⟩

theorem Node.holds_of_not_dir (h : ∀ entries, node ≠ .dir entries) :
    node.Holds P here path ↔ path = here ∧ P node := by
  constructor
  · rintro ⟨names, inner, rfl, hentry, hinner⟩
    cases names with
    | nil =>
      cases hentry
      exact ⟨Path.descend_nil here, hinner⟩
    | cons name names =>
      obtain ⟨entries, -, rfl, -⟩ := entry_cons_ok_iff.mp hentry
      exact absurd rfl (h entries)
  · rintro ⟨rfl, hnode⟩
    exact ⟨[], node, (Path.descend_nil path).symm, rfl, hnode⟩

theorem Node.holds_file {bytes : List UInt8} :
    (Node.file bytes).Holds P here path ↔ path = here ∧ P (.file bytes) :=
  Node.holds_of_not_dir nofun

theorem Node.holds_link {target : String} :
    (Node.link target).Holds P here path ↔ path = here ∧ P (.link target) :=
  Node.holds_of_not_dir nofun

theorem Node.entry_dir_cons (h : Fits first) (node : Node) (rest : Entries) :
    (Node.dir (.cons first node rest)).entry (name :: names) =
      if first = name then node.entry names else (Node.dir rest).entry (name :: names) := by
  rw [entry, entry, Entries.lookup]
  by_cases hname : first = name
  · subst hname
    simp [Nat.not_lt.mpr h.size_le]
  · simp only [hname, if_false]

namespace Entries

theorem mem_names_of_entry (h : (Node.dir entries).entry (name :: names) = .ok inner) :
    name ∈ entries.names := by
  obtain ⟨_, next, ⟨⟩, -, hlookup, -⟩ := Node.entry_cons_ok_iff.mp h
  exact mem_names_iff.mpr ⟨next, hlookup⟩

theorem holds_nil : ¬ Entries.nil.Holds P here path := by
  rintro ⟨name, names, inner, -, hentry, -⟩
  cases mem_names_of_entry hentry

theorem holds_cons (hfits : Fits first) (hnew : first ∉ rest.names) :
    (Entries.cons first node rest).Holds P here path ↔
      node.Holds P (here.child first) path ∨ rest.Holds P here path := by
  constructor
  · rintro ⟨name, names, inner, rfl, hentry, hinner⟩
    rw [Node.entry_dir_cons hfits] at hentry
    split at hentry
    · rename_i heq
      exact .inl ⟨names, inner, by rw [heq, Path.child_descend], hentry, hinner⟩
    · exact .inr ⟨name, names, inner, rfl, hentry, hinner⟩
  · rintro (⟨names, inner, rfl, hentry, hinner⟩ | ⟨name, names, inner, rfl, hentry, hinner⟩)
    · refine ⟨first, names, inner, Path.child_descend here first names, ?_, hinner⟩
      rw [Node.entry_dir_cons hfits, if_pos rfl]
      exact hentry
    · refine ⟨name, names, inner, rfl, ?_, hinner⟩
      have hne : first ≠ name := fun heq => hnew (heq ▸ mem_names_of_entry hentry)
      rw [Node.entry_dir_cons hfits, if_neg hne]
      exact hentry

end Entries

-- ---------------------------------------------------------------------------
-- What a walk lists
-- ---------------------------------------------------------------------------

/-- A walk lists a node that it does not take for a directory. -/
def Node.IsListed (leadsToDir : Bool) : Node → Prop
  | .file _ => True
  | .link _ => leadsToDir = false
  | .dir _ => False

namespace Entries

theorem mem_entriesBelow_iff : ∀ {entries : Entries} {here : Path}, entries.Tidy →
    (path ∈ entries.entriesBelow leadsToDir here ↔
      entries.Holds (·.IsListed (leadsToDir path)) here path)
  | .nil, _, _ => by simp [entriesBelow, holds_nil]
  | .cons name (.file bytes) rest, here, ⟨hfits, hnew, _, hrest⟩ => by
    rw [entriesBelow, List.mem_cons, mem_entriesBelow_iff hrest, holds_cons hfits hnew,
      Node.holds_file]
    simp [Node.IsListed]
  | .cons name (.link target) rest, here, ⟨hfits, hnew, _, hrest⟩ => by
    rw [entriesBelow, holds_cons hfits hnew, Node.holds_link, ← mem_entriesBelow_iff hrest]
    cases hleads : leadsToDir (here.child name) with
    | true =>
      have hnot : ¬ (path = here.child name ∧ (Node.link target).IsListed (leadsToDir path)) := by
        rintro ⟨rfl, hlisted⟩
        rw [hleads] at hlisted
        cases hlisted
      simp [hnot]
    | false =>
      have hiff : path = here.child name ∧ (Node.link target).IsListed (leadsToDir path) ↔
          path = here.child name := by
        refine and_iff_left_of_imp ?_
        rintro rfl
        exact hleads
      simp [hiff]
  | .cons name (.dir inner) rest, here, ⟨hfits, hnew, hinner, hrest⟩ => by
    rw [entriesBelow, List.mem_append, mem_entriesBelow_iff hinner, mem_entriesBelow_iff hrest,
      holds_cons hfits hnew, Node.holds_dir]
    simp [Node.IsListed]

theorem not_mem_of_holds (hrest : rest.Tidy) (hnew : first ∉ rest.names)
    (h : node.Holds P (here.child first) path) : path ∉ rest.entriesBelow leadsToDir here := by
  intro hmem
  obtain ⟨names, -, rfl, -, -⟩ := h
  obtain ⟨name, others, inner, hpath, hentry, -⟩ := (mem_entriesBelow_iff hrest).mp hmem
  rw [Path.child_descend] at hpath
  have hnames : first :: names = name :: others :=
    List.append_cancel_left (congrArg Path.parts hpath)
  rw [(List.cons.inj hnames).1] at hnew
  exact hnew (mem_names_of_entry hentry)

theorem nodup_entriesBelow : ∀ {entries : Entries} {here : Path}, entries.Tidy →
    (entries.entriesBelow leadsToDir here).Nodup
  | .nil, _, _ => List.nodup_nil
  | .cons first (.file bytes) rest, here, ⟨_, hnew, _, hrest⟩ => by
    have hhere : (Node.file bytes).Holds (fun _ => True) (here.child first) (here.child first) :=
      Node.holds_file.mpr ⟨rfl, trivial⟩
    exact List.nodup_cons.mpr ⟨not_mem_of_holds hrest hnew hhere, nodup_entriesBelow hrest⟩
  | .cons first (.link target) rest, here, ⟨_, hnew, _, hrest⟩ => by
    have hhere : (Node.link target).Holds (fun _ => True) (here.child first) (here.child first) :=
      Node.holds_link.mpr ⟨rfl, trivial⟩
    rw [entriesBelow]
    split
    · exact nodup_entriesBelow hrest
    · exact List.nodup_cons.mpr ⟨not_mem_of_holds hrest hnew hhere, nodup_entriesBelow hrest⟩
  | .cons first (.dir inner) rest, here, ⟨_, hnew, hinner, hrest⟩ => by
    refine List.nodup_append.mpr ⟨nodup_entriesBelow hinner, nodup_entriesBelow hrest, ?_⟩
    rintro path hpath other hother rfl
    have hbelow : inner.Holds (·.IsListed (leadsToDir path)) (here.child first) path :=
      (mem_entriesBelow_iff hinner).mp hpath
    exact not_mem_of_holds hrest hnew (Node.holds_dir.mpr (.inr hbelow)) hother

end Entries

-- ---------------------------------------------------------------------------
-- What a walk looks at
-- ---------------------------------------------------------------------------

theorem Entries.entry_mem_looks_iff : ∀ {entries : Entries} {here : Path},
    .entry path ∈ (Node.dir entries).looks leadsToDir here ↔
      path ∈ entries.entriesBelow leadsToDir here
  | .nil, here => by simp [Node.looks, leaves, looks, entriesBelow]
  | .cons first (.file bytes) rest, here => by
    rw [entriesBelow, List.mem_cons, ← entry_mem_looks_iff]
    simp [Node.looks, leaves, looks]
  | .cons first (.link target) rest, here => by
    rw [entriesBelow]
    cases hleads : leadsToDir (here.child first) with
    | true =>
      rw [if_pos rfl, ← entry_mem_looks_iff]
      simp [Node.looks, leaves, looks, hleads]
    | false =>
      rw [if_neg Bool.false_ne_true, List.mem_cons, ← entry_mem_looks_iff]
      simp [Node.looks, leaves, looks, hleads]
  | .cons first (.dir inner) rest, here => by
    rw [entriesBelow, List.mem_append, ← entry_mem_looks_iff, ← entry_mem_looks_iff]
    simp [Node.looks, leaves, looks, or_left_comm, or_assoc]

mutual
theorem Node.directory_mem_looks_iff : ∀ {node : Node} {here : Path}, node.Tidy →
    (.directory path ∈ node.looks leadsToDir here ↔
      node.Holds (fun inner => ∃ below, inner = .dir below) here path)
  | .file bytes, here, _ => by simp [Node.looks, Node.holds_file]
  | .link target, here, _ => by simp [Node.looks, Node.holds_link]
  | .dir entries, here, h => by
    rw [Node.looks, List.mem_cons, List.mem_append, Entries.directory_mem_looks_iff h,
      Node.holds_dir]
    simp
theorem Entries.directory_mem_looks_iff : ∀ {entries : Entries} {here : Path}, entries.Tidy →
    (.directory path ∈ entries.looks leadsToDir here ↔
      entries.Holds (fun inner => ∃ below, inner = .dir below) here path)
  | .nil, here, _ => by simp [Entries.looks, Entries.holds_nil]
  | .cons first node rest, here, ⟨hfits, hnew, hnode, hrest⟩ => by
    rw [Entries.looks, List.mem_append, Node.directory_mem_looks_iff hnode,
      Entries.directory_mem_looks_iff hrest, Entries.holds_cons hfits hnew]
end

-- ---------------------------------------------------------------------------
-- Lookups through real directories
-- ---------------------------------------------------------------------------

namespace FileSystem

variable {fs : FileSystem} {budget : Nat} {loc : Location} {xs : List String}

/-- A lookup of more names goes on where that of the first ones ends, with what is left of its
budget. -/
theorem exists_findFrom_append {here : Location}
    (h : fs.findFrom true budget here xs = .ok (loc, node)) (ys : List String) :
    ∃ left, fs.findFrom true budget here (xs ++ ys) = fs.findFrom true left loc ys := by
  induction budget, here, xs using findFrom.induct fs true with
  | case1 budget here =>
    rw [findFrom] at h
    cases hentry : fs.entry here with
    | error e => rw [hentry] at h; cases h
    | ok found => rw [hentry] at h; cases h; exact ⟨budget, rfl⟩
  | case2 budget here name rest cause hentry =>
    rw [findFrom, hentry] at h
    cases h
  | case3 budget here rest entries hentry ih =>
    rw [findFrom, hentry] at h
    rw [List.cons_append, findFrom, hentry]
    exact ih h
  | case4 budget here rest entries hentry hne ih =>
    rw [findFrom, hentry] at h
    rw [List.cons_append, findFrom, hentry]
    simp only [hne, if_false, if_true] at h ⊢
    exact ih h
  | case5 budget here name rest entries hentry hdot hdots hlong =>
    rw [findFrom_long hentry hlong] at h
    cases h
  | case6 budget here name rest entries hentry hdot hdots hlong hlookup =>
    rw [findFrom, hentry] at h
    simp only [hdot, hdots, hlong, if_false, hlookup] at h
    cases h
  | case7 budget here name rest entries hentry hdot hdots hlong target hlookup hlast =>
    simp at hlast
  | case8 here name rest entries hentry hdot hdots hlong target hlookup hlast =>
    rw [findFrom, hentry] at h
    simp only [hdot, hdots, hlong, if_false, hlookup, hlast] at h
    cases h
  | case9 here name rest entries hentry hdot hdots hlong target hlookup hlast budget ih =>
    have hname : fs.Names here name (.link target) :=
      ⟨hdot, hdots, entries, hentry, Nat.not_lt.mp hlong, hlookup⟩
    rw [findFrom_follow hname] at h
    obtain ⟨left, hleft⟩ := ih h
    refine ⟨left, ?_⟩
    rw [List.cons_append, findFrom_follow hname, ← List.append_assoc]
    exact hleft
  | case10 budget here name rest entries hentry hdot hdots hlong found hlink hlookup ih =>
    have hname : fs.Names here name found :=
      ⟨hdot, hdots, entries, hentry, Nat.not_lt.mp hlong, hlookup⟩
    rw [findFrom_step hname hlink] at h
    rw [List.cons_append, findFrom_step hname hlink]
    exact ih h
  | case11 budget here name rest found hdir hentry =>
    rw [findFrom, hentry] at h
    cases found with
    | dir entries => exact (hdir entries rfl).elim
    | file bytes => cases h
    | link target => cases h

variable {outDir : Path}

theorem stat_of_maxPath_le (h : maxPath ≤ path.toString.utf8ByteSize) :
    fs.stat path = .error ⟨.nameTooLong, path.toString⟩ := by
  rw [stat, find, if_pos h]

theorem stat_descend (hstat : fs.stat outDir = .ok node) (hentry : node.entry names = .ok inner)
    (hplain : ∀ name ∈ names, IsPlain name) (hlink : ∀ target, inner ≠ .link target)
    (hlen : (outDir.descend names).toString.utf8ByteSize < maxPath) :
    fs.stat (outDir.descend names) = .ok inner := by
  have htop : outDir.toString.utf8ByteSize < maxPath := by
    refine Nat.lt_of_not_le fun hlong => ?_
    rw [stat_of_maxPath_le hlong] at hstat
    cases hstat
  obtain ⟨loc, hfind⟩ : ∃ loc, fs.find outDir true = .ok (loc, node) := by
    rw [stat] at hstat
    cases hfind : fs.find outDir true with
    | error cause => rw [hfind] at hstat; cases hstat
    | ok found =>
      rw [hfind] at hstat
      cases hstat
      exact ⟨found.1, rfl⟩
  have hloc : fs.entry loc = .ok node := (leadsTo_of_find_ok hfind).entry
  rw [find_eq htop] at hfind
  obtain ⟨left, hleft⟩ := exists_findFrom_append hfind names
  have hdescend : fs.find (outDir.descend names) true = .ok (loc ++ names, inner) := by
    rw [find_eq hlen]
    exact hleft.trans (findFrom_of_entry hloc hentry hplain hlink left)
  rw [stat, hdescend]

end FileSystem

end UnsafeAudit
