import UnsafeAudit.Proofs.Build.CompiledFiles
import UnsafeAudit.Proofs.FileSystem.Below

/-!
# All listings, each once

The listings below an output directory are the regular files, and the links to
regular files, that names of real directories lead to and that are called like
a listing. A search finds these and no others, each once and in path order,
unless the file system refuses to read a directory or to look at an entry, and
there are two reasons why it would: a path or a name is too long
(`listings_outcome`).
-/

namespace UnsafeAudit

variable {fs : FileSystem} {outDir file path : Path} {entries : Entries} {found : List Path}
  {names : List String} {name : String} {node : Node} {failure : Failure}

-- ---------------------------------------------------------------------------
-- Names of listings
-- ---------------------------------------------------------------------------

/-- A listing is called by a stem, which is not empty, and the suffix. -/
theorem Path.suffixOf_eq_iff {name : String} : suffixOf name = DepInfo.suffix ↔
    ∃ stem, stem ≠ "" ∧ name = stem ++ DepInfo.suffix := by
  constructor
  · intro h
    have hname : name = String.ofList name.toList.reverse.reverse := by simp
    rw [suffixOf] at h
    generalize name.toList.reverse = reversed at h hname
    have hcut := List.takeWhile_append_dropWhile (p := (· ≠ '.')) (l := reversed)
    have hfirst := List.head?_dropWhile_not (· ≠ '.') reversed
    generalize reversed.takeWhile (· ≠ '.') = tail at h hcut
    generalize reversed.dropWhile (· ≠ '.') = below at h hcut hfirst
    split at h
    · exact absurd h (by decide)
    rename_i hnot
    simp only [Bool.or_eq_true, decide_eq_true_eq, not_or, List.isEmpty_iff] at hnot
    have htail : tail = ['d'] := by
      have hchars : '.' :: tail.reverse = ['.', 'd'] := String.ofList_injective h
      simpa using congrArg List.reverse (List.cons.inj hchars).2
    subst htail
    cases below with
    | nil => exact absurd (congrArg List.length hcut) hnot.1.1
    | cons dot stem =>
      have hdot : dot = '.' := by simpa using hfirst
      refine ⟨String.ofList stem.reverse, ?_, ?_⟩
      · simpa using hnot.2
      · rw [hname, ← hcut, hdot, DepInfo.suffix]
        apply String.toList_injective
        simp
  · rintro ⟨stem, hstem, rfl⟩
    have hne : stem.toList ≠ [] := fun h => hstem (String.toList_eq_nil_iff.mp h)
    have hreversed : (stem ++ DepInfo.suffix).toList.reverse = 'd' :: '.' :: stem.toList.reverse := by
      simp [DepInfo.suffix]
    rw [suffixOf, hreversed]
    simp [hne, DepInfo.suffix]

theorem Path.suffix_descend (names : List String) (name : String) :
    (outDir.descend (names ++ [name])).suffix = suffixOf name := by
  simp [suffix, Path.name, descend, ← List.append_assoc]

namespace DepInfo

-- ---------------------------------------------------------------------------
-- Listings, and what keeps them from being found
-- ---------------------------------------------------------------------------

/-- Names of real directories lead to an entry that is called like a listing and is a regular file
or a link to one. -/
def IsListing (fs : FileSystem) (outDir : Path) (entries : Entries) (file : Path) : Prop :=
  ∃ names stem node, stem ≠ "" ∧ file = outDir.descend (names ++ [stem ++ suffix]) ∧
    (Node.dir entries).entry (names ++ [stem ++ suffix]) = .ok node ∧
    (node.IsFile ∨ (∃ target, node = .link target) ∧ ∃ bytes, fs.stat file = .ok (.file bytes))

/-- Why a search below an output directory does not come to an end: the path of a real directory
is too long, or that of another entry or a name that a link leads to is. -/
inductive Obstructs (fs : FileSystem) (outDir : Path) (entries : Entries) : Failure → Prop
  | directory {names : List String} {below}
    (hentry : (Node.dir entries).entry names = .ok (.dir below))
    (hlong : maxPath ≤ (outDir.descend names).toString.utf8ByteSize) :
    Obstructs fs outDir entries (.audit (.directoryWalk (.ofString (outDir.descend names).toString)
      ⟨.nameTooLong, (outDir.descend names).toString⟩))
  | entry {names : List String} {node : Node} (hentry : (Node.dir entries).entry names = .ok node)
    (hnode : ∀ below, node ≠ .dir below)
    (hlong : fs.stat (outDir.descend names) =
      .error ⟨.nameTooLong, (outDir.descend names).toString⟩) :
    Obstructs fs outDir entries (.fault (.os ⟨.nameTooLong, (outDir.descend names).toString⟩))

section

variable (htidy : (Node.dir entries).Tidy) (hdir : fs.stat outDir = .ok (.dir entries))

include htidy hdir

theorem mem_looks_directory_iff : .directory path ∈ fs.looks outDir ↔
    ∃ names below, path = outDir.descend names ∧
      (Node.dir entries).entry names = .ok (.dir below) := by
  rw [FileSystem.looks, hdir]
  refine (Node.directory_mem_looks_iff htidy).trans ⟨?_, ?_⟩
  · rintro ⟨names, _, rfl, hentry, below, rfl⟩
    exact ⟨names, below, rfl, hentry⟩
  · rintro ⟨names, below, rfl, hentry⟩
    exact ⟨names, _, rfl, hentry, below, rfl⟩

theorem mem_looks_entry_iff : .entry path ∈ fs.looks outDir ↔
    ∃ names node, path = outDir.descend names ∧ (Node.dir entries).entry names = .ok node ∧
      node.IsListed (fs.isDir path) := by
  rw [FileSystem.looks, hdir]
  refine (Entries.entry_mem_looks_iff.trans (Entries.mem_entriesBelow_iff htidy)).trans ⟨?_, ?_⟩
  · rintro ⟨name, names, node, rfl, hentry, hlisted⟩
    exact ⟨name :: names, node, rfl, hentry, hlisted⟩
  · rintro ⟨names, node, rfl, hentry, hlisted⟩
    cases names with
    | nil =>
      cases hentry
      exact hlisted.elim
    | cons name names => exact ⟨name, names, node, rfl, hentry, hlisted⟩

omit htidy hdir in
theorem path_of_stat_error {e : OsError} (h : fs.stat path = .error e) : e.path = path.toString := by
  rw [FileSystem.stat] at h
  split at h
  · cases h
  · cases h
    rfl

theorem obstructs_of_refusal? {look : Look} (hlook : look ∈ fs.looks outDir)
    (h : refusal? fs look = some failure) : Obstructs fs outDir entries failure := by
  cases look with
  | directory path =>
    obtain ⟨names, below, rfl, hentry⟩ := (mem_looks_directory_iff htidy hdir).mp hlook
    have hplain : ∀ name ∈ names, FileSystem.IsPlain name := fun name hname =>
      ((Node.Tidy.of_entry htidy hentry).1 name hname).isPlain
    rw [refusal?] at h
    by_cases hlen : (outDir.descend names).toString.utf8ByteSize < maxPath
    · rw [FileSystem.stat_descend hdir hentry hplain (Node.dir_ne_link below) hlen] at h
      cases h
    · rw [FileSystem.stat_of_maxPath_le (Nat.not_lt.mp hlen)] at h
      cases h
      exact .directory hentry (Nat.not_lt.mp hlen)
  | entry path =>
    obtain ⟨names, node, rfl, hentry, hlisted⟩ := (mem_looks_entry_iff htidy hdir).mp hlook
    have hnode : ∀ below, node ≠ .dir below := by
      rintro below rfl
      exact hlisted
    rw [refusal?] at h
    split at h
    · cases h
    · rename_i e hexists
      cases h
      obtain ⟨hstat, hcause⟩ := FileSystem.pathExists_error_iff.mp hexists
      obtain ⟨cause, text⟩ := e
      obtain rfl : cause = .nameTooLong := hcause
      obtain rfl : text = (outDir.descend names).toString := path_of_stat_error hstat
      exact .entry hentry hnode hstat

theorem not_listings_ok_of_obstructs (h : Obstructs fs outDir entries failure) :
    listings fs outDir ≠ .ok found := by
  intro hok
  obtain ⟨-, -, hlooks⟩ := listings_ok_iff.mp hok
  cases h with
  | directory hentry hlong =>
    have hlook := (mem_looks_directory_iff htidy hdir).mpr ⟨_, _, rfl, hentry⟩
    obtain ⟨node, hstat⟩ := refusal?_directory.mp (hlooks _ hlook)
    rw [FileSystem.stat_of_maxPath_le hlong] at hstat
    cases hstat
  | @entry names node hentry hnode hlong =>
    have hlisted : node.IsListed (fs.isDir (outDir.descend names)) := by
      cases node with
      | file bytes => trivial
      | link target => rw [FileSystem.isDir, hlong]; rfl
      | dir below => exact absurd rfl (hnode below)
    have hlook := (mem_looks_entry_iff htidy hdir).mpr ⟨_, _, rfl, hentry, hlisted⟩
    obtain ⟨answer, hexists⟩ := refusal?_entry.mp (hlooks _ hlook)
    rw [FileSystem.pathExists, hlong] at hexists
    cases hexists

/-- A search comes to an end if nothing obstructs it, and fails for what does. -/
theorem exists_listings_iff_not_obstructs (hnull : outDir.hasNull = false) :
    ((∃ found, listings fs outDir = .ok found) ↔ ∀ failure, ¬ Obstructs fs outDir entries failure) ∧
    ∀ failure, listings fs outDir = .error failure → Obstructs fs outDir entries failure := by
  have hfails : ∀ failure, listings fs outDir = .error failure →
      Obstructs fs outDir entries failure := by
    intro failure h
    rw [listings, hnull, find_ok_iff.mpr ⟨entries, hdir, rfl⟩] at h
    cases hfirst : (fs.looks outDir).findSome? (refusal? fs) with
    | none => simp [hfirst, bind, Except.bind, Except.mapError, pure, Except.pure] at h
    | some first =>
      obtain rfl : first = failure := by simpa [hfirst, bind, Except.bind, Except.mapError] using h
      obtain ⟨look, hlook, hrefused⟩ := List.exists_of_findSome?_eq_some hfirst
      exact obstructs_of_refusal? htidy hdir hlook hrefused
  refine ⟨⟨?_, fun hclear => ?_⟩, hfails⟩
  · rintro ⟨found, h⟩ failure hobstructs
    exact not_listings_ok_of_obstructs htidy hdir hobstructs h
  · cases h : listings fs outDir with
    | ok found => exact ⟨found, rfl⟩
    | error failure => exact absurd (hfails failure h) (hclear failure)

-- ---------------------------------------------------------------------------
-- What is found
-- ---------------------------------------------------------------------------

theorem mem_listings_iff (h : listings fs outDir = .ok found) :
    file ∈ found ↔ IsListing fs outDir entries file := by
  obtain ⟨-, hfind, -⟩ := listings_ok_iff.mp h
  obtain ⟨_, hdir', rfl⟩ := find_ok_iff.mp hfind
  cases hdir.symm.trans hdir'
  rw [Path.mem_sort, List.mem_filter, Entries.mem_entriesBelow_iff htidy,
    FileSystem.isFileWithSuffix, Bool.and_eq_true, beq_iff_eq]
  constructor
  · rintro ⟨⟨first, rest, node, rfl, hentry, hlisted⟩, hfile, hsuffix⟩
    obtain ⟨names, last, hnames⟩ : ∃ names last, first :: rest = names ++ [last] :=
      ⟨_, _, (List.dropLast_append_getLast (List.cons_ne_nil first rest)).symm⟩
    rw [hnames] at hentry hsuffix hfile hlisted ⊢
    rw [Path.suffix_descend, Path.suffixOf_eq_iff] at hsuffix
    obtain ⟨stem, hstem, rfl⟩ := hsuffix
    refine ⟨names, stem, node, hstem, rfl, hentry, ?_⟩
    cases node with
    | file bytes => exact .inl ⟨bytes, rfl⟩
    | dir below => exact hlisted.elim
    | link target =>
      rw [FileSystem.isFile] at hfile
      split at hfile
      · rename_i bytes hstat
        exact .inr ⟨⟨target, rfl⟩, bytes, hstat⟩
      · cases hfile
  · rintro ⟨names, stem, node, hstem, rfl, hentry, hnode⟩
    have hsuffix : (outDir.descend (names ++ [stem ++ suffix])).suffix = suffix := by
      rw [Path.suffix_descend]
      exact Path.suffixOf_eq_iff.mpr ⟨stem, hstem, rfl⟩
    have hstat : ∃ bytes, fs.stat (outDir.descend (names ++ [stem ++ suffix])) = .ok (.file bytes) := by
      rcases hnode with ⟨bytes, rfl⟩ | ⟨-, hstat⟩
      · have hfile : ∀ below, Node.file bytes ≠ .dir below := by
          rintro below ⟨⟩
        refine ⟨bytes, FileSystem.stat_descend hdir hentry
          (fun name hname => ((Node.Tidy.of_entry htidy hentry).1 name hname).isPlain)
          (Node.file_ne_link bytes) (Nat.lt_of_not_le fun hlong => ?_)⟩
        exact not_listings_ok_of_obstructs htidy hdir
          (.entry hentry hfile (FileSystem.stat_of_maxPath_le hlong)) h
      · exact hstat
    obtain ⟨bytes, hstat⟩ := hstat
    have hlisted : node.IsListed (fs.isDir (outDir.descend (names ++ [stem ++ suffix]))) := by
      rw [FileSystem.isDir, hstat]
      rcases hnode with ⟨bytes, rfl⟩ | ⟨⟨target, rfl⟩, -⟩
      · trivial
      · rfl
    refine ⟨?_, ?_, hsuffix⟩
    · obtain ⟨first, rest, hnames⟩ := List.exists_cons_of_ne_nil
        (List.append_ne_nil_of_right_ne_nil names (List.cons_ne_nil (stem ++ suffix) []))
      rw [hnames] at hentry hlisted ⊢
      exact ⟨first, rest, node, rfl, hentry, hlisted⟩
    · rw [FileSystem.isFile, hstat]

theorem pairwise_listings (h : listings fs outDir = .ok found) :
    found.Pairwise Path.Precedes := by
  obtain ⟨-, hfind, -⟩ := listings_ok_iff.mp h
  obtain ⟨_, hdir', rfl⟩ := find_ok_iff.mp hfind
  cases hdir.symm.trans hdir'
  refine Path.pairwise_sort_of_nodup ((Entries.nodup_entriesBelow htidy).filter _) ?_
  intro first hfirst second hsecond hsame
  obtain ⟨_, _, _, rfl, -⟩ := (Entries.mem_entriesBelow_iff htidy).mp (List.mem_filter.mp hfirst).1
  obtain ⟨_, _, _, rfl, -⟩ := (Entries.mem_entriesBelow_iff htidy).mp (List.mem_filter.mp hsecond).1
  rw [Path.components_descend, Path.components_descend] at hsame
  rw [List.append_cancel_left hsame]

omit htidy hdir in
theorem listings_of_not_dir (hnull : outDir.hasNull = false)
    (hnot : ∀ entries, fs.stat outDir ≠ .ok (.dir entries)) :
    ∃ cause, listings fs outDir = .error (.audit (.directoryWalk (.ofString outDir.toString)
      ⟨cause, outDir.toString⟩)) := by
  rw [listings, hnull, find, FileSystem.filesBelow, FileSystem.entriesBelow]
  cases hstat : fs.stat outDir with
  | error e =>
    obtain ⟨cause, text⟩ := e
    obtain rfl : text = outDir.toString := path_of_stat_error hstat
    exact ⟨cause, rfl⟩
  | ok node =>
    cases node with
    | dir entries => exact absurd hstat (hnot entries)
    | file bytes => exact ⟨.notADirectory, rfl⟩
    | link target => exact ⟨.notADirectory, rfl⟩

end

-- ---------------------------------------------------------------------------
-- Outcomes
-- ---------------------------------------------------------------------------

/-- What a search for listings ends with. It is a failure of the walk that names the output
directory if that is no directory; otherwise it is a list, or else what obstructs the search. The
list is sorted strictly, and its elements are the listings. -/
theorem listings_outcome (htidy : (Node.dir fs.root).Tidy) :
    (outDir.hasNull = true → listings fs outDir = .error (.fault (.unresolved .nullName))) ∧
    (outDir.hasNull = false → (∀ entries, fs.stat outDir ≠ .ok (.dir entries)) →
      ∃ cause, listings fs outDir = .error (.audit (.directoryWalk (.ofString outDir.toString)
        ⟨cause, outDir.toString⟩))) ∧
    ∀ entries, outDir.hasNull = false → fs.stat outDir = .ok (.dir entries) →
      ((∃ found, listings fs outDir = .ok found) ↔
        ∀ failure, ¬ Obstructs fs outDir entries failure) ∧
      (∀ failure, listings fs outDir = .error failure → Obstructs fs outDir entries failure) ∧
      ∀ found, listings fs outDir = .ok found → found.Pairwise Path.Precedes ∧
        ∀ file, file ∈ found ↔ IsListing fs outDir entries file := by
  refine ⟨fun hnull => ?_, listings_of_not_dir, fun entries hnull hdir => ?_⟩
  · rw [listings, if_pos hnull]
  · have hbelow : (Node.dir entries).Tidy := by
      obtain ⟨loc, hleads⟩ := FileSystem.leadsTo_of_stat_ok hdir
      exact (Node.Tidy.of_entry htidy hleads.entry).2
    obtain ⟨hexists, hfails⟩ := exists_listings_iff_not_obstructs hbelow hdir hnull
    exact ⟨hexists, hfails, fun found h =>
      ⟨pairwise_listings hbelow hdir h, fun file => mem_listings_iff hbelow hdir h⟩⟩

end DepInfo

namespace FileSystem

open DepInfo (IsListing Obstructs)

theorem listings_outcome_listed :
    (Node.dir listed.root).Tidy ∧
    ∃ entries, listed.stat (.atRoot ["out"]) = .ok (.dir entries) ∧
      ∀ file, file ∈ [Path.atRoot ["out", "app.d"]] ↔
        IsListing listed (.atRoot ["out"]) entries file := by
  have htidy : (Node.dir listed.root).Tidy := by decide +kernel
  have hnull : (Path.atRoot ["out"]).hasNull = false := by decide +kernel
  obtain ⟨-, -, hfound⟩ := (DepInfo.listings_outcome htidy).2.2 _ hnull stat_listed.1
  exact ⟨htidy, _, stat_listed.1, (hfound _ listings_listed).2⟩

/-- The output directory is a directory, and still nothing is found in it, not even the empty
list. -/
theorem listings_refuses_to_look :
    (Node.dir refusing.root).Tidy ∧ (Path.atRoot ["out"]).hasNull = false ∧
    (∃ entries, refusing.stat (.atRoot ["out"]) = .ok (.dir entries)) ∧
    DepInfo.listings refusing (.atRoot ["out"]) =
      .error (.fault (.os ⟨.nameTooLong, "/out/x.d"⟩)) := by
  obtain ⟨⟨target, hdir⟩, -⟩ := stat_refusing
  exact ⟨by decide +kernel, by decide +kernel, ⟨_, hdir⟩, listings_refusing⟩

end FileSystem

end UnsafeAudit
