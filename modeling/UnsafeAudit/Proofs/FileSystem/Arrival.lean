import Mathlib.Data.Nat.Find
import UnsafeAudit.Proofs.FileSystem.Lookup

/-!
# Where paths arrive

`Arrives` says where the names of a path arrive as resolution reads them: every
link is followed, however many there are, and `..` goes up from whatever was
reached. A lookup that succeeds leads to where its path arrives
(`LeadsTo.arrivesAt`). A path arrives at one location only, and never at a link.
-/

namespace UnsafeAudit

namespace FileSystem

/-- From a location, names arrive at a location, through links whose targets hold links in turn,
at most `depth` deep. -/
inductive Arrives (fs : FileSystem) : Nat → Location → List String → Location → Prop
  | done {depth here} : fs.Arrives depth here [] here
  | stay {depth here name rest loc} (hname : name = "" ∨ name = ".")
    (h : fs.Arrives depth here rest loc) : fs.Arrives depth here (name :: rest) loc
  | up {depth here rest loc} (h : fs.Arrives depth here.dropLast rest loc) :
    fs.Arrives depth here (".." :: rest) loc
  | step {depth here name inner rest loc} (hname : fs.Names here name inner)
    (hlink : ∀ target, inner ≠ .link target) (h : fs.Arrives depth (here ++ [name]) rest loc) :
    fs.Arrives depth here (name :: rest) loc
  | follow {depth here name target mid rest loc} (hname : fs.Names here name (.link target))
    (htarget : fs.Arrives depth (origin target here) (pieces target) mid)
    (h : fs.Arrives (depth + 1) mid rest loc) : fs.Arrives (depth + 1) here (name :: rest) loc

end FileSystem

variable {name target : String} {names xs ys rest : List String}

-- ---------------------------------------------------------------------------
-- Well-formed states
-- ---------------------------------------------------------------------------

mutual
def Node.plainlyNamed : Node → Bool
  | .dir entries => entries.plainlyNamed
  | _ => true
def Entries.plainlyNamed : Entries → Bool
  | .nil => true
  | .cons name node rest =>
    decide (FileSystem.IsPlain name) && node.plainlyNamed && rest.plainlyNamed
end

theorem Entries.plainlyNamed_of_lookup {node : Node} : ∀ {entries : Entries},
    entries.plainlyNamed = true → entries.lookup name = some node →
      FileSystem.IsPlain name ∧ node.plainlyNamed = true
  | .nil, _, h => by cases h
  | .cons first other rest, hplain, h => by
    rw [plainlyNamed, Bool.and_eq_true, Bool.and_eq_true, decide_eq_true_iff] at hplain
    rw [lookup] at h
    split at h
    · rename_i heq
      cases h
      exact heq ▸ hplain.1
    · exact plainlyNamed_of_lookup hplain.2 h

theorem Node.plainlyNamed_of_entry {node inner : Node} (hplain : node.plainlyNamed = true)
    (h : node.entry names = .ok inner) :
    (∀ name ∈ names, FileSystem.IsPlain name) ∧ inner.plainlyNamed = true := by
  induction names generalizing node with
  | nil =>
    cases h
    exact ⟨nofun, hplain⟩
  | cons name rest ih =>
    obtain ⟨entries, next, rfl, -, hlookup, hnext⟩ := Node.entry_cons_ok_iff.mp h
    obtain ⟨hname, hbelow⟩ := Entries.plainlyNamed_of_lookup hplain hlookup
    obtain ⟨hrest, hinner⟩ := ih hbelow hnext
    exact ⟨List.forall_mem_cons.mpr ⟨hname, hrest⟩, hinner⟩

namespace FileSystem

/-- No entry of the state has a name that lookup takes for something else, and the working
directory is a directory. -/
structure WellFormed (fs : FileSystem) : Prop where
  plainlyNamed : fs.root.plainlyNamed = true
  cwd_isDir : ∃ entries, fs.entry fs.cwd = .ok (.dir entries)

/-- Something is at a location, and it is not a link. -/
def Stands (fs : FileSystem) (loc : Location) : Prop :=
  ∃ node, fs.entry loc = .ok node ∧ ∀ target, node ≠ .link target

variable {fs : FileSystem} {depth depth' : Nat} {here mid loc loc' : Location} {node : Node}

theorem WellFormed.isPlain_of_entry (hfs : fs.WellFormed) (h : fs.entry loc = .ok node) :
    ∀ name ∈ loc, IsPlain name := by
  have hroot : (Node.dir fs.root).plainlyNamed = true := hfs.plainlyNamed
  exact (Node.plainlyNamed_of_entry hroot h).1

theorem WellFormed.isPlain_of_names (hfs : fs.WellFormed) (h : fs.Names here name node) :
    IsPlain name :=
  hfs.isPlain_of_entry h.entry_child name (List.mem_append_right _ (List.mem_singleton_self _))

theorem Stands.of_isDir {entries : Entries} (h : fs.entry loc = .ok (.dir entries)) :
    fs.Stands loc := ⟨_, h, Node.dir_ne_link entries⟩

theorem Stands.dropLast (h : fs.Stands loc) : fs.Stands loc.dropLast := by
  obtain ⟨node, hentry, hlink⟩ := h
  rcases List.eq_nil_or_concat loc with rfl | ⟨before, name, rfl⟩
  · exact ⟨node, hentry, hlink⟩
  · rw [List.concat_eq_append] at hentry ⊢
    rw [List.dropLast_concat]
    rw [entry, Node.entry_append] at hentry
    obtain ⟨above, habove, hname⟩ := of_bind_ok hentry
    obtain ⟨entries, -, rfl, -, -, -⟩ := Node.entry_cons_ok_iff.mp hname
    exact .of_isDir habove

-- ---------------------------------------------------------------------------
-- Arrival
-- ---------------------------------------------------------------------------

namespace Arrives

theorem mono (h : fs.Arrives depth here names loc) (hle : depth ≤ depth') :
    fs.Arrives depth' here names loc := by
  induction h generalizing depth' with
  | done => exact .done
  | stay hname _ ih => exact .stay hname (ih hle)
  | up _ ih => exact .up (ih hle)
  | step hname hlink _ ih => exact .step hname hlink (ih hle)
  | follow hname _ _ ihtarget ih =>
    obtain ⟨depth', rfl⟩ := Nat.exists_eq_add_one_of_ne_zero (Nat.ne_zero_of_lt hle)
    exact .follow hname (ihtarget (Nat.le_of_succ_le_succ hle)) (ih hle)

theorem exists_least (h : fs.Arrives depth here names loc) : ∃ least, least ≤ depth ∧
    fs.Arrives least here names loc ∧ ∀ d < least, ¬ fs.Arrives d here names loc := by
  classical
  have hsome : ∃ d, fs.Arrives d here names loc := ⟨depth, h⟩
  exact ⟨Nat.find hsome, Nat.find_min' hsome h, Nat.find_spec hsome,
    fun d => Nat.find_min hsome⟩

theorem append (h : fs.Arrives depth here xs mid) (h' : fs.Arrives depth mid ys loc) :
    fs.Arrives depth here (xs ++ ys) loc := by
  induction h with
  | done => exact h'
  | stay hname _ ih => exact .stay hname (ih h')
  | up _ ih => exact .up (ih h')
  | step hname hlink _ ih => exact .step hname hlink (ih h')
  | follow hname htarget _ _ ih => exact .follow hname htarget (ih h')

theorem exists_of_append (h : fs.Arrives depth here (xs ++ ys) loc) :
    ∃ mid, fs.Arrives depth here xs mid ∧ fs.Arrives depth mid ys loc := by
  induction xs generalizing here with
  | nil => exact ⟨here, .done, h⟩
  | cons name rest ih =>
    cases h with
    | stay hname h =>
      obtain ⟨mid, hrest, h⟩ := ih h
      exact ⟨mid, .stay hname hrest, h⟩
    | up h =>
      obtain ⟨mid, hrest, h⟩ := ih h
      exact ⟨mid, .up hrest, h⟩
    | step hname hlink h =>
      obtain ⟨mid, hrest, h⟩ := ih h
      exact ⟨mid, .step hname hlink hrest, h⟩
    | follow hname htarget h =>
      obtain ⟨mid, hrest, h⟩ := ih h
      exact ⟨mid, .follow hname htarget hrest, h⟩

theorem of_filter (h : fs.Arrives depth here (names.filter (· ≠ "")) loc) :
    fs.Arrives depth here names loc := by
  induction names generalizing here with
  | nil => exact h
  | cons name rest ih =>
    by_cases hempty : name = ""
    · rw [List.filter_cons_of_neg (by simp [hempty])] at h
      exact .stay (.inl hempty) (ih h)
    · rw [List.filter_cons_of_pos (by simp [hempty])] at h
      cases h with
      | stay hname h => exact .stay hname (ih h)
      | up h => exact .up (ih h)
      | step hname hlink h => exact .step hname hlink (ih h)
      | follow hname htarget h => exact .follow hname htarget (ih h)

/-- The names that a lookup walks arrive where all names of the text do: it leaves empty names out,
and asks for a directory in the end by a `.`. -/
theorem of_steps (h : fs.Arrives depth here (steps target) loc) :
    fs.Arrives depth here (pieces target) loc := by
  rw [steps] at h
  split at h
  · obtain ⟨mid, h, hlast⟩ := exists_of_append h
    generalize hdot : ["."] = last at hlast
    cases hlast with
    | done => cases hdot
    | stay _ hdone => cases hdot; cases hdone; exact of_filter h
    | up => simp at hdot
    | step hname => cases hdot; exact absurd rfl hname.not_dot
    | follow hname => cases hdot; exact absurd rfl hname.not_dot
  · exact of_filter h

theorem unique (hfs : fs.WellFormed) (h : fs.Arrives depth here names loc)
    (h' : fs.Arrives depth' here names loc') : loc = loc' := by
  have hplain : ∀ {here name node}, fs.Names here name node → ¬ (name = "" ∨ name = ".") :=
    fun hname => not_or.mpr ⟨(hfs.isPlain_of_names hname).1, hname.not_dot⟩
  induction h generalizing depth' loc' with
  | done => cases h'; rfl
  | stay hname _ ih =>
    generalize hfirst : _ :: _ = all at h'
    cases h' with
    | done => cases hfirst
    | stay _ h' => cases hfirst; exact ih h'
    | up => cases hfirst; simp at hname
    | step hname' => cases hfirst; exact absurd hname (hplain hname')
    | follow hname' => cases hfirst; exact absurd hname (hplain hname')
  | up _ ih =>
    generalize hfirst : ".." :: _ = all at h'
    cases h' with
    | done => cases hfirst
    | stay hname => cases hfirst; simp at hname
    | up h' => cases hfirst; exact ih h'
    | step hname' => cases hfirst; exact absurd rfl hname'.not_dots
    | follow hname' => cases hfirst; exact absurd rfl hname'.not_dots
  | step hname hlink _ ih =>
    cases h' with
    | stay hname' => exact absurd hname' (hplain hname)
    | up => exact absurd rfl hname.not_dots
    | step _ _ h' => exact ih h'
    | follow hname' => exact absurd (hname.unique hname') (hlink _)
  | follow hname _ _ ihtarget ih =>
    cases h' with
    | stay hname' => exact absurd hname' (hplain hname)
    | up => exact absurd rfl hname.not_dots
    | step hname' hlink' => exact absurd (hname'.unique hname) (hlink' _)
    | follow hname' htarget' h' =>
      cases hname.unique hname'
      cases ihtarget htarget'
      exact ih h'

/-- A link arrives where its target does, which is less deep. -/
theorem exists_of_link (hfs : fs.WellFormed) (hname : fs.Names here name (.link target))
    (h : fs.Arrives depth here [name] loc) :
    ∃ below, below < depth ∧ fs.Arrives below (origin target here) (pieces target) loc := by
  cases h with
  | stay hstay => exact absurd hstay (not_or.mpr ⟨(hfs.isPlain_of_names hname).1, hname.not_dot⟩)
  | up => exact absurd rfl hname.not_dots
  | step hname' hlink => exact absurd (hname'.unique hname) (hlink _)
  | follow hname' htarget h =>
    cases hname.unique hname'
    cases h
    exact ⟨_, Nat.lt_succ_self _, htarget⟩

theorem stands (h : fs.Arrives depth here names loc) (hhere : fs.Stands here) : fs.Stands loc := by
  induction h with
  | done => exact hhere
  | stay _ _ ih => exact ih hhere
  | up _ ih => exact ih hhere.dropLast
  | step hname hlink _ ih => exact ih ⟨_, hname.entry_child, hlink⟩
  | follow hname _ _ ihtarget ih =>
    refine ih (ihtarget ?_)
    rw [origin]
    split
    · exact .of_isDir rfl
    · exact hhere

theorem exists_of_leads (h : fs.Leads here names loc node) :
    ∃ depth, fs.Arrives depth here names loc := by
  induction h with
  | done _ => exact ⟨0, .done⟩
  | dot _ _ ih =>
    obtain ⟨depth, ih⟩ := ih
    exact ⟨depth, .stay (.inr rfl) ih⟩
  | dots _ _ ih =>
    obtain ⟨depth, ih⟩ := ih
    exact ⟨depth, .up ih⟩
  | step hname hlink _ ih =>
    obtain ⟨depth, ih⟩ := ih
    exact ⟨depth, .step hname hlink ih⟩
  | follow hname _ ih =>
    obtain ⟨depth, ih⟩ := ih
    obtain ⟨mid, htarget, h⟩ := exists_of_append ih
    exact ⟨depth + 1, .follow hname (of_steps htarget) (h.mono (Nat.le_succ depth))⟩

end Arrives

def ArrivesAt (fs : FileSystem) (path : Path) (loc : Location) : Prop :=
  ∃ depth, fs.Arrives depth (fs.startOf path).place path.parts loc

variable {path : Path}

theorem LeadsTo.arrivesAt (h : fs.LeadsTo path loc node) : fs.ArrivesAt path loc :=
  Arrives.exists_of_leads h

theorem ArrivesAt.unique (hfs : fs.WellFormed) (h : fs.ArrivesAt path loc)
    (h' : fs.ArrivesAt path loc') : loc = loc' := by
  obtain ⟨depth, h⟩ := h
  obtain ⟨depth', h'⟩ := h'
  exact h.unique hfs h'

theorem ArrivesAt.stands (hfs : fs.WellFormed) (h : fs.ArrivesAt path loc) : fs.Stands loc := by
  obtain ⟨depth, h⟩ := h
  refine h.stands ?_
  obtain ⟨entries, hcwd⟩ := hfs.cwd_isDir
  rw [startOf]
  split
  · exact .of_isDir rfl
  · exact .of_isDir hcwd

end FileSystem

end UnsafeAudit
