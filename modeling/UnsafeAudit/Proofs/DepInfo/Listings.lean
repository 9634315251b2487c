import UnsafeAudit.DepInfo.Files
import UnsafeAudit.Proofs.FileSystem.Lookup
import UnsafeAudit.Proofs.Path.Order

/-!
# Dependency listings that are found

The listings below an output directory are found if every directory there can
be read and the file system says of every other entry what it leads to
(`exists_listings_iff`). What is found below a real subdirectory is found below
the directory itself (`exists_listings_of_isRealBelow`).
-/

namespace UnsafeAudit

variable {fs : FileSystem} {outDir file here path : Path} {found : List Path} {failure : Failure}
  {leadsToDir : Path → Bool} {name : String} {names : List String} {node inner : Node}

-- ---------------------------------------------------------------------------
-- Real directories below a directory
-- ---------------------------------------------------------------------------

namespace Entries

variable {entries inner : Entries}

theorem looks_subset_of_lookup : ∀ {entries : Entries}, entries.lookup name = some node →
    node.looks leadsToDir (here.child name) ⊆ entries.looks leadsToDir here
  | .nil, h => by cases h
  | .cons first other rest, h => by
    rw [lookup] at h
    rw [looks]
    split at h
    · rename_i heq
      cases h
      rw [heq]
      exact List.subset_append_left _ _
    · exact List.Subset.trans (looks_subset_of_lookup h) (List.subset_append_right _ _)

theorem entriesBelow_subset_cons (name : String) (node : Node) (rest : Entries) :
    rest.entriesBelow leadsToDir here ⊆
      (Entries.cons name node rest).entriesBelow leadsToDir here := by
  cases node with
  | file bytes => exact List.subset_cons_self _ _
  | link target =>
    rw [entriesBelow]
    split
    · exact List.Subset.refl _
    · exact List.subset_cons_self _ _
  | dir inner => exact List.subset_append_right _ _

theorem entriesBelow_subset_of_lookup : ∀ {entries : Entries},
    entries.lookup name = some (.dir inner) →
      inner.entriesBelow leadsToDir (here.child name) ⊆ entries.entriesBelow leadsToDir here
  | .nil, h => by cases h
  | .cons first other rest, h => by
    rw [lookup] at h
    split at h
    · rename_i heq
      cases h
      rw [heq]
      exact List.subset_append_left _ _
    · exact List.Subset.trans (entriesBelow_subset_of_lookup h)
        (entriesBelow_subset_cons first other rest)

end Entries

namespace Node

variable {entries below : Entries}

theorem looks_subset_of_entry (h : node.entry names = .ok inner) :
    inner.looks leadsToDir (here.descend names) ⊆ node.looks leadsToDir here := by
  induction names generalizing node here with
  | nil =>
    cases h
    rw [Path.descend_nil]
    exact List.Subset.refl _
  | cons name rest ih =>
    obtain ⟨entries, next, rfl, -, hlookup, hnext⟩ := entry_cons_ok_iff.mp h
    rw [← Path.child_descend]
    refine List.Subset.trans (ih hnext)
      (List.Subset.trans (Entries.looks_subset_of_lookup hlookup) ?_)
    rw [looks]
    exact List.Subset.trans (List.subset_append_right _ _) (List.subset_cons_self _ _)

theorem entriesBelow_subset_of_entry (h : (Node.dir entries).entry names = .ok (.dir below)) :
    below.entriesBelow leadsToDir (here.descend names) ⊆ entries.entriesBelow leadsToDir here := by
  induction names generalizing entries here with
  | nil =>
    cases h
    rw [Path.descend_nil]
    exact List.Subset.refl _
  | cons name rest ih =>
    obtain ⟨_, next, ⟨⟩, -, hlookup, hnext⟩ := entry_cons_ok_iff.mp h
    have hdir : ∃ inner, next = .dir inner := by
      cases next with
      | dir inner => exact ⟨inner, rfl⟩
      | file bytes => cases rest <;> cases hnext
      | link target => cases rest <;> cases hnext
    obtain ⟨inner, rfl⟩ := hdir
    rw [← Path.child_descend]
    exact List.Subset.trans (ih hnext) (Entries.entriesBelow_subset_of_lookup hlookup)

end Node

namespace DepInfo

-- ---------------------------------------------------------------------------
-- What ends a walk
-- ---------------------------------------------------------------------------

/-- An output directory is a directory, and it and every real directory below it can be read. -/
structure Walks (fs : FileSystem) (outDir : Path) : Prop where
  isDir : ∃ entries, fs.stat outDir = .ok (.dir entries)
  reads : ∀ path, .directory path ∈ fs.looks outDir → ∃ node, fs.stat path = .ok node
  noNull : outDir.hasNull = false

/-- The file system says of every entry at and below an output directory what it leads to. -/
def Answers (fs : FileSystem) (outDir : Path) : Prop :=
  ∀ path, .entry path ∈ fs.looks outDir → ∃ answer, fs.pathExists path = .ok answer

theorem refusal?_directory : refusal? fs (.directory path) = none ↔
    ∃ node, fs.stat path = .ok node := by
  rw [refusal?]
  cases fs.stat path <;> simp

theorem refusal?_entry : refusal? fs (.entry path) = none ↔
    ∃ answer, fs.pathExists path = .ok answer := by
  rw [refusal?]
  cases fs.pathExists path <;> simp

theorem find_ok_iff : find fs outDir = .ok found ↔ ∃ entries, fs.stat outDir = .ok (.dir entries) ∧
    found = Path.sort ((entries.entriesBelow fs.isDir outDir).filter
      (fs.isFileWithSuffix suffix)) := by
  rw [find, FileSystem.filesBelow, FileSystem.entriesBelow]
  cases hstat : fs.stat outDir with
  | error e => simp [Except.map]
  | ok node => cases node <;> simp [Except.map, eq_comm]

theorem listings_ok_iff : listings fs outDir = .ok found ↔ outDir.hasNull = false ∧
    find fs outDir = .ok found ∧ ∀ look ∈ fs.looks outDir, refusal? fs look = none := by
  rw [listings]
  cases outDir.hasNull with
  | true => simp
  | false =>
    cases find fs outDir with
    | error e => simp [bind, Except.bind]
    | ok files =>
      rw [← List.findSome?_eq_none_iff]
      cases hfirst : (fs.looks outDir).findSome? (refusal? fs) with
      | none => simp [bind, Except.bind, pure, Except.pure]
      | some failure => simp [bind, Except.bind]

theorem exists_listings_iff :
    (∃ found, listings fs outDir = .ok found) ↔ Walks fs outDir ∧ Answers fs outDir := by
  constructor
  · rintro ⟨found, h⟩
    obtain ⟨hnull, hfind, hlooks⟩ := listings_ok_iff.mp h
    obtain ⟨entries, hstat, -⟩ := find_ok_iff.mp hfind
    exact ⟨⟨⟨entries, hstat⟩, fun path hp => refusal?_directory.mp (hlooks _ hp), hnull⟩,
      fun path hp => refusal?_entry.mp (hlooks _ hp)⟩
  · rintro ⟨⟨⟨entries, hstat⟩, hreads, hnull⟩, hanswers⟩
    refine ⟨_, listings_ok_iff.mpr ⟨hnull, find_ok_iff.mpr ⟨entries, hstat, rfl⟩, ?_⟩⟩
    rintro (path | path) hlook
    · exact refusal?_directory.mpr (hreads path hlook)
    · exact refusal?_entry.mpr (hanswers path hlook)

theorem of_find_error {e : AuditError} (h : find fs outDir = .error e) :
    (∃ path cause, e = .directoryWalk path cause) ∧ ¬ Walks fs outDir := by
  refine ⟨?_, ?_⟩
  · rw [find] at h
    cases hbelow : fs.filesBelow suffix outDir with
    | ok found => rw [hbelow] at h; cases h
    | error cause =>
      rw [hbelow] at h
      cases h
      exact ⟨_, _, rfl⟩
  · rintro ⟨⟨entries, hstat⟩, -⟩
    rw [find_ok_iff.mpr ⟨entries, hstat, rfl⟩] at h
    cases h

/-- A walk that looks at something and is refused cannot read a directory, or has come upon a name
that is too long for the file system to say what is there. -/
theorem of_refusal? {look : Look} (hlook : look ∈ fs.looks outDir)
    (h : refusal? fs look = some failure) :
    (∃ path e, failure = .audit (.directoryWalk path e) ∧ ¬ Walks fs outDir) ∨
      ∃ e, failure = .fault (.os e) ∧ e.cause = .nameTooLong ∧ ¬ Answers fs outDir := by
  cases look with
  | directory path =>
    have hnot : ¬ Walks fs outDir := fun hwalks => by
      rw [refusal?_directory.mpr (hwalks.reads path hlook)] at h
      cases h
    rw [refusal?] at h
    split at h
    · cases h
    · cases h
      exact .inl ⟨_, _, rfl, hnot⟩
  | entry path =>
    have hnot : ¬ Answers fs outDir := fun hanswers => by
      rw [refusal?_entry.mpr (hanswers path hlook)] at h
      cases h
    rw [refusal?] at h
    split at h
    · cases h
    · rename_i e hexists
      cases h
      exact .inr ⟨e, rfl, (FileSystem.pathExists_error_iff.mp hexists).2, hnot⟩

theorem of_listings_error (h : listings fs outDir = .error failure) :
    (outDir.hasNull = true ∧ failure = .fault (.unresolved .nullName)) ∨
    (∃ path e, failure = .audit (.directoryWalk path e) ∧ ¬ Walks fs outDir) ∨
      ∃ e, failure = .fault (.os e) ∧ e.cause = .nameTooLong ∧ ¬ Answers fs outDir := by
  rw [listings] at h
  split at h
  · rename_i hnull
    cases h
    exact .inl ⟨hnull, rfl⟩
  refine .inr ?_
  cases hfind : find fs outDir with
  | error e =>
    obtain ⟨⟨path, cause, rfl⟩, hnot⟩ := of_find_error hfind
    rw [hfind] at h
    cases h
    exact .inl ⟨_, _, rfl, hnot⟩
  | ok found =>
    rw [hfind] at h
    cases hfirst : (fs.looks outDir).findSome? (refusal? fs) with
    | none =>
      simp only [hfirst] at h
      cases h
    | some first =>
      simp only [hfirst] at h
      cases h
      obtain ⟨look, hlook, hrefused⟩ := List.exists_of_findSome?_eq_some hfirst
      exact of_refusal? hlook hrefused

-- ---------------------------------------------------------------------------
-- Real subdirectories
-- ---------------------------------------------------------------------------

theorem hasNull_descend (h : outDir.hasNull = false)
    (hplain : ∀ name ∈ names, FileSystem.IsPlain name) :
    (outDir.descend names).hasNull = false := by
  simp only [Path.hasNull, List.any_eq_false, decide_eq_true_iff] at h ⊢
  intro name hname
  rcases List.mem_append.mp hname with hname | hname
  · exact h name hname
  · exact (hplain name hname).2.2.2

/-- A path is that of a directory at or below another one, and no directory on the way is a
link. -/
def IsRealBelow (fs : FileSystem) (sub outDir : Path) : Prop :=
  ∃ node names below, sub = outDir.descend names ∧ (∀ name ∈ names, FileSystem.IsPlain name) ∧
    fs.stat outDir = .ok node ∧ node.entry names = .ok (.dir below)

/-- Where a walk succeeds, it goes through all real directories, so a walk that starts at one of
them finds nothing new. -/
theorem exists_listings_of_isRealBelow {sub : Path} (hsub : IsRealBelow fs sub outDir)
    (h : listings fs outDir = .ok found) :
    ∃ found', listings fs sub = .ok found' ∧ found' ⊆ found := by
  obtain ⟨node, names, below, rfl, hplain, hstat, hentry⟩ := hsub
  obtain ⟨hnull, hfind, hlooks⟩ := listings_ok_iff.mp h
  obtain ⟨entries, hdir, rfl⟩ := find_ok_iff.mp hfind
  obtain rfl : node = .dir entries := Except.ok.inj (hstat.symm.trans hdir)
  have hsubset : (Node.dir below).looks fs.isDir (outDir.descend names) ⊆ fs.looks outDir := by
    rw [FileSystem.looks, hdir]
    exact Node.looks_subset_of_entry hentry
  have hsub : fs.stat (outDir.descend names) = .ok (.dir below) := by
    obtain ⟨other, hother⟩ := refusal?_directory.mp (hlooks _ (hsubset List.mem_cons_self))
    obtain ⟨loc, hleads⟩ := FileSystem.leadsTo_of_stat_ok hdir
    obtain ⟨loc', hleads'⟩ := FileSystem.leadsTo_of_stat_ok hother
    -- from the directory the names lead on, through no link
    have hreal : fs.LeadsTo (outDir.descend names) (loc ++ names) (.dir below) :=
      hleads.append (.of_entry hleads.entry hentry hplain (Node.dir_ne_link below))
    rw [hother, (hleads'.unique hreal).2]
  refine ⟨_, listings_ok_iff.mpr
    ⟨hasNull_descend hnull hplain, find_ok_iff.mpr ⟨below, hsub, rfl⟩, ?_⟩, ?_⟩
  · rw [FileSystem.looks, hsub]
    exact fun look hlook => hlooks look (hsubset hlook)
  · intro file hfile
    rw [Path.mem_sort, List.mem_filter] at hfile ⊢
    exact ⟨Node.entriesBelow_subset_of_entry hentry hfile.1, hfile.2⟩

end DepInfo

end UnsafeAudit
