import UnsafeAudit.Build.CompiledFiles
import UnsafeAudit.Proofs.Build.Gathered
import UnsafeAudit.Proofs.DepInfo.Listings
import UnsafeAudit.Proofs.FileSystem.Canonical
import UnsafeAudit.Proofs.Search.FirstOccurrences

/-!
# The files of a build

The files of a build are its source roots and what the listings in its output
directories name (`compiledFiles_eq_union`). They are told all together or not
at all: what cannot be walked, read or resolved is a failure of the whole.
-/

namespace UnsafeAudit

variable {fs : FileSystem} {context : BuildContext} {outDirs : List Path}
  {outDir sub file path root : Path} {found : List Path} {failure : Failure}

theorem BuildContext.foldl_addPath_eq {paths : List Path} (h : paths.Nodup) (new : List Path) :
    new.foldl addPath paths = (paths ++ new).eraseDups := by
  induction new using List.reverseRecOn with
  | nil => rw [List.append_nil, eraseDups_of_nodup h, List.foldl_nil]
  | append_singleton new p ih =>
    rw [List.foldl_concat, ih, ← List.append_assoc, eraseDups_concat, addPath]
    simp only [List.mem_eraseDups]

theorem BuildContext.foldl_foldl_addPath (lists : List (List Path)) :
    lists.foldl (fun collected paths => paths.foldl addPath collected) [] =
      lists.flatten.eraseDups := by
  rw [← List.foldl_flatten, foldl_addPath_eq List.nodup_nil, List.nil_append]

namespace DepInfo

-- ---------------------------------------------------------------------------
-- One listing
-- ---------------------------------------------------------------------------

def Reads (fs : FileSystem) (file : Path) (entries : List Entry) : Prop :=
  ∃ bytes chars, fs.readBytes file = .ok bytes ∧ Text.Utf8.decode bytes = .ok chars ∧
    parse (String.ofList (Text.unifyNewlines chars)) = some entries

theorem Reads.unique {entries entries' : List Entry} (h : Reads fs file entries)
    (h' : Reads fs file entries') : entries = entries' := by
  obtain ⟨bytes, chars, hbytes, hchars, hparse⟩ := h
  obtain ⟨bytes', chars', hbytes', hchars', hparse'⟩ := h'
  obtain rfl := Except.ok.inj (hbytes.symm.trans hbytes')
  obtain rfl := Except.ok.inj (hchars.symm.trans hchars')
  exact Option.some.inj (hparse.symm.trans hparse')

theorem parseFile_ok_iff {entries : List Entry} :
    parseFile fs file = .ok entries ↔ Reads fs file entries := by
  rw [parseFile, readText, Reads]
  cases fs.readBytes file with
  | error e => simp
  | ok bytes =>
    cases hdecode : Text.Utf8.decode bytes with
    | error m => simp [hdecode]
    | ok chars =>
      cases hparse : parse (String.ofList (Text.unifyNewlines chars)) <;> simp [hdecode, hparse]

theorem of_parseFile_error {e : AuditError} (h : parseFile fs file = .error e) :
    ∃ reason, e = .dependencyFile reason file := by
  rw [parseFile] at h
  split at h
  · cases h
    exact ⟨_, rfl⟩
  · split at h
    · cases h
      exact ⟨_, rfl⟩
    · cases h

theorem canonicalize_ok_iff {dependency : String} : canonicalize fs dependency root = .ok path ↔
    fs.resolveStrict (root.join (.ofString dependency)) = .ok path := by
  rw [canonicalize]
  cases fs.resolveStrict (root.join (.ofString dependency)) with
  | ok result => simp
  | error e => cases e <;> simp

theorem of_canonicalize_error {dependency : String}
    (h : canonicalize fs dependency root = .error failure) :
    ∃ e, fs.resolveStrict (root.join (.ofString dependency)) = .error e ∧
      (failure = .audit (.pathResolution (root.join (.ofString dependency)) e) ∨
        e = .nullName ∧ failure = .fault (.unresolved .nullName)) := by
  rw [canonicalize] at h
  split at h
  · cases h
  · rename_i hresolve
    cases h
    exact ⟨_, hresolve, .inr ⟨rfl, rfl⟩⟩
  · rename_i e hne hresolve
    cases h
    exact ⟨e, hresolve, .inl rfl⟩

def named (fs : FileSystem) (root file : Path) : Except Failure (List Path) := do
  let entries ← (parseFile fs file).mapError .audit
  (entries.flatMap (·.dependencies)).mapM (canonicalize fs · root)

def namedBelow (fs : FileSystem) (root outDir : Path) : Except Failure (List Path) := do
  let files ← listings fs outDir
  return (← files.mapM (named fs root)).flatten

theorem addDependencies_eq (collected : List Path) (dependencies : List String) :
    addDependencies fs root collected dependencies =
      (dependencies.mapM (canonicalize fs · root)).map (·.foldl BuildContext.addPath collected) :=
  foldlM_eq_map_mapM (canonicalize fs · root) BuildContext.addPath dependencies collected

theorem collect_eq (fs : FileSystem) (outDir root : Path) :
    collect fs outDir root = (namedBelow fs root outDir).map List.eraseDups := by
  have hstep : ∀ collected file, (do
      let entries ← (parseFile fs file).mapError .audit
      addDependencies fs root collected (entries.flatMap (·.dependencies)) :
        Except Failure (List Path)) =
      do return (← named fs root file).foldl BuildContext.addPath collected := by
    intro collected file
    rw [named]
    cases parseFile fs file with
    | error e => rfl
    | ok entries =>
      show addDependencies fs root collected (entries.flatMap (·.dependencies)) =
        (entries.flatMap (·.dependencies)).mapM (canonicalize fs · root) >>= _
      rw [addDependencies_eq]
      cases (entries.flatMap (·.dependencies)).mapM (canonicalize fs · root) <;> rfl
  rw [collect, namedBelow]
  cases listings fs outDir with
  | error failure => rfl
  | ok files =>
    show files.foldlM _ [] = _
    simp only [hstep]
    rw [foldlM_eq_map_mapM (named fs root) fun collected paths =>
      paths.foldl BuildContext.addPath collected]
    cases hpaths : files.mapM (named fs root) with
    | error failure => simp [Except.map, bind, Except.bind, hpaths]
    | ok paths =>
      simp [Except.map, bind, Except.bind, hpaths, BuildContext.foldl_foldl_addPath, pure,
        Except.pure]

-- ---------------------------------------------------------------------------
-- What listings declare
-- ---------------------------------------------------------------------------

/-- A file is one of the listings that are found below an output directory. -/
def Lists (fs : FileSystem) (outDir file : Path) : Prop :=
  ∃ found, listings fs outDir = .ok found ∧ file ∈ found

def Declares (fs : FileSystem) (outDir : Path) (dependency : String) : Prop :=
  ∃ file entries, Lists fs outDir file ∧ Reads fs file entries ∧
    ∃ entry ∈ entries, dependency ∈ entry.dependencies

theorem named_ok_iff {paths : List Path} : named fs root file = .ok paths ↔
    ∃ entries, Reads fs file entries ∧
      (entries.flatMap (·.dependencies)).mapM (canonicalize fs · root) = .ok paths := by
  simp only [← parseFile_ok_iff]
  rw [named]
  cases parseFile fs file <;> simp [bind, Except.bind]

theorem namedBelow_ok_iff {paths : List Path} : namedBelow fs root outDir = .ok paths ↔
    ∃ files lists, listings fs outDir = .ok files ∧ files.mapM (named fs root) = .ok lists ∧
      paths = lists.flatten := by
  rw [namedBelow]
  cases listings fs outDir with
  | error e => simp [bind, Except.bind]
  | ok files =>
    cases hlists : files.mapM (named fs root) with
    | error e => simp [bind, Except.bind, hlists]
    | ok lists => simp [bind, Except.bind, hlists, pure, Except.pure, eq_comm]

theorem exists_namedBelow_iff : (∃ paths, namedBelow fs root outDir = .ok paths) ↔
    Walks fs outDir ∧ Answers fs outDir ∧
      (∀ file, Lists fs outDir file → ∃ entries, Reads fs file entries) ∧
      ∀ dependency, Declares fs outDir dependency →
        ∃ path, canonicalize fs dependency root = .ok path := by
  constructor
  · rintro ⟨paths, h⟩
    obtain ⟨files, lists, hfiles, hlists, rfl⟩ := namedBelow_ok_iff.mp h
    have hnamed : ∀ file, Lists fs outDir file → ∃ own, named fs root file = .ok own := by
      rintro file ⟨found, hfound, hfile⟩
      rw [hfiles] at hfound
      cases hfound
      exact exists_mapM_ok_iff.mp ⟨lists, hlists⟩ file hfile
    obtain ⟨hwalks, hanswers⟩ := exists_listings_iff.mp ⟨files, hfiles⟩
    refine ⟨hwalks, hanswers, fun file hfile => ?_, ?_⟩
    · obtain ⟨own, hown⟩ := hnamed file hfile
      obtain ⟨entries, hreads, -⟩ := named_ok_iff.mp hown
      exact ⟨entries, hreads⟩
    · rintro dependency ⟨file, entries, hfile, hreads, entry, he, hd⟩
      obtain ⟨own, hown⟩ := hnamed file hfile
      obtain ⟨entries', hreads', hcanonical⟩ := named_ok_iff.mp hown
      obtain rfl := hreads.unique hreads'
      exact exists_mapM_ok_iff.mp ⟨own, hcanonical⟩ dependency
        (List.mem_flatMap.mpr ⟨entry, he, hd⟩)
  · rintro ⟨hwalks, hanswers, hreads, hresolves⟩
    obtain ⟨files, hfiles⟩ := exists_listings_iff.mpr ⟨hwalks, hanswers⟩
    have hnamed : ∀ file ∈ files, ∃ own, named fs root file = .ok own := by
      intro file hfile
      obtain ⟨entries, hentries⟩ := hreads file ⟨files, hfiles, hfile⟩
      have hall : ∀ dependency ∈ entries.flatMap (·.dependencies),
          ∃ path, canonicalize fs dependency root = .ok path := by
        intro dependency hd
        obtain ⟨entry, he, hd⟩ := List.mem_flatMap.mp hd
        exact hresolves dependency ⟨file, entries, ⟨files, hfiles, hfile⟩, hentries, entry, he, hd⟩
      obtain ⟨own, hown⟩ := exists_mapM_ok_iff.mpr hall
      exact ⟨own, named_ok_iff.mpr ⟨entries, hentries, hown⟩⟩
    obtain ⟨lists, hlists⟩ := exists_mapM_ok_iff.mpr hnamed
    exact ⟨_, namedBelow_ok_iff.mpr ⟨files, lists, hfiles, hlists, rfl⟩⟩

/-- A walk from a real subdirectory leads to nothing that is not named anyway. -/
theorem exists_namedBelow_of_isRealBelow {paths : List Path} (hsub : IsRealBelow fs sub outDir)
    (h : namedBelow fs root outDir = .ok paths) :
    ∃ fewer, namedBelow fs root sub = .ok fewer ∧ fewer ⊆ paths := by
  obtain ⟨files, lists, hfiles, hlists, rfl⟩ := namedBelow_ok_iff.mp h
  obtain ⟨files', hfiles', hsubset⟩ := exists_listings_of_isRealBelow hsub hfiles
  obtain ⟨lists', hlists'⟩ := exists_mapM_ok_iff.mpr fun file hfile =>
    exists_mapM_ok_iff.mp ⟨lists, hlists⟩ file (hsubset hfile)
  refine ⟨_, namedBelow_ok_iff.mpr ⟨files', lists', hfiles', hlists', rfl⟩, fun path hpath => ?_⟩
  obtain ⟨own, hown, hpath⟩ := List.mem_flatten.mp hpath
  obtain ⟨file, hfile, hnamed⟩ := (mem_of_mapM_ok hlists').mp hown
  exact List.mem_flatten.mpr
    ⟨own, (mem_of_mapM_ok hlists).mpr ⟨file, hsubset hfile, hnamed⟩, hpath⟩

theorem mem_namedBelow {paths : List Path} (h : namedBelow fs root outDir = .ok paths) :
    path ∈ paths ↔ ∃ dependency, Declares fs outDir dependency ∧
      canonicalize fs dependency root = .ok path := by
  obtain ⟨files, lists, hfiles, hlists, rfl⟩ := namedBelow_ok_iff.mp h
  simp only [List.mem_flatten, mem_of_mapM_ok hlists]
  constructor
  · rintro ⟨own, ⟨file, hfile, hown⟩, hpath⟩
    obtain ⟨entries, hreads, hcanonical⟩ := named_ok_iff.mp hown
    obtain ⟨dependency, hd, hresolved⟩ := (mem_of_mapM_ok hcanonical).mp hpath
    obtain ⟨entry, he, hd⟩ := List.mem_flatMap.mp hd
    exact ⟨dependency, ⟨file, entries, ⟨files, hfiles, hfile⟩, hreads, entry, he, hd⟩, hresolved⟩
  · rintro ⟨dependency, ⟨file, entries, ⟨found, hfound, hfile⟩, hreads, entry, he, hd⟩, hresolved⟩
    rw [hfiles] at hfound
    cases hfound
    obtain ⟨own, hown⟩ := exists_mapM_ok_iff.mp ⟨lists, hlists⟩ file hfile
    obtain ⟨entries', hreads', hcanonical⟩ := named_ok_iff.mp hown
    obtain rfl := hreads.unique hreads'
    refine ⟨own, ⟨file, hfile, hown⟩, (mem_of_mapM_ok hcanonical).mpr ⟨dependency, ?_, hresolved⟩⟩
    exact List.mem_flatMap.mpr ⟨entry, he, hd⟩

/-- Why the files of a build with some output directories cannot be told. -/
inductive Blocks (fs : FileSystem) (outDirs : List Path) (root : Path) : Failure → Prop
  | walk {outDir path e} (hmem : outDir ∈ outDirs) (h : ¬ Walks fs outDir) :
    Blocks fs outDirs root (.audit (.directoryWalk path e))
  | listing {outDir file reason} (hmem : outDir ∈ outDirs) (hlists : Lists fs outDir file)
    (h : ∀ entries, ¬ Reads fs file entries) :
    Blocks fs outDirs root (.audit (.dependencyFile reason file))
  | dependency {outDir dependency e} (hmem : outDir ∈ outDirs)
    (hdeclares : Declares fs outDir dependency)
    (h : fs.resolveStrict (root.join (.ofString dependency)) = .error e) :
    Blocks fs outDirs root (.audit (.pathResolution (root.join (.ofString dependency)) e))
  | nullName {outDir dependency} (hmem : outDir ∈ outDirs)
    (hdeclares : Declares fs outDir dependency)
    (h : fs.resolveStrict (root.join (.ofString dependency)) = .error .nullName) :
    Blocks fs outDirs root (.fault (.unresolved .nullName))
  | nullDirectory {outDir : Path} (hmem : outDir ∈ outDirs) (h : outDir.hasNull = true) :
    Blocks fs outDirs root (.fault (.unresolved .nullName))
  /-- An entry is named, or is a link that is named, so long that the file system refuses to
  look. -/
  | unanswered {outDir e} (hmem : outDir ∈ outDirs) (h : ¬ Answers fs outDir)
    (hcause : e.cause = .nameTooLong) : Blocks fs outDirs root (.fault (.os e))

theorem blocks_of_named_error (hmem : outDir ∈ outDirs) (hlisted : Lists fs outDir file)
    (h : named fs root file = .error failure) : Blocks fs outDirs root failure := by
  rw [named] at h
  cases hparse : parseFile fs file with
  | error e =>
    obtain ⟨reason, rfl⟩ := of_parseFile_error hparse
    rw [hparse] at h
    cases h
    refine .listing hmem hlisted fun entries hreads => ?_
    rw [parseFile_ok_iff.mpr hreads] at hparse
    cases hparse
  | ok entries =>
    rw [hparse] at h
    obtain ⟨dependency, hd, hfails⟩ := exists_of_mapM_error h
    obtain ⟨entry, he, hd⟩ := List.mem_flatMap.mp hd
    have hdeclares : Declares fs outDir dependency :=
      ⟨file, entries, hlisted, parseFile_ok_iff.mp hparse, entry, he, hd⟩
    obtain ⟨e, hresolve, rfl | ⟨rfl, rfl⟩⟩ := of_canonicalize_error hfails
    · exact .dependency hmem hdeclares hresolve
    · exact .nullName hmem hdeclares hresolve

theorem blocks_of_namedBelow_error (hmem : outDir ∈ outDirs)
    (h : namedBelow fs root outDir = .error failure) : Blocks fs outDirs root failure := by
  rw [namedBelow] at h
  cases hfiles : listings fs outDir with
  | error first =>
    rw [hfiles] at h
    cases h
    rcases of_listings_error hfiles with
      ⟨hnull, rfl⟩ | ⟨path, e, rfl, hnot⟩ | ⟨e, rfl, hcause, hnot⟩
    · exact .nullDirectory hmem hnull
    · exact .walk hmem hnot
    · exact .unanswered hmem hnot hcause
  | ok files =>
    rw [hfiles] at h
    cases hlists : files.mapM (named fs root) with
    | ok lists => simp [bind, Except.bind, hlists, pure, Except.pure] at h
    | error first =>
      obtain ⟨file, hfile, hnamed⟩ := exists_of_mapM_error hlists
      have hfailure : first = failure := by simpa [bind, Except.bind, hlists] using h
      exact hfailure ▸ blocks_of_named_error hmem ⟨files, hfiles, hfile⟩ hnamed

end DepInfo

open DepInfo (namedBelow collect_eq)

/-- The files of a build are what the listings name, output directory by output directory, and then
the source roots, each at its first occurrence. -/
theorem FileSystem.compiledFiles_eq (fs : FileSystem) (context : BuildContext) (root : Path) :
    fs.compiledFiles context root = ((Path.sort context.outDirs).mapM (namedBelow fs root)).map
      fun paths => (paths.flatten ++ context.sourceRoots).eraseDups := by
  rw [compiledFiles, foldlM_eq_map_mapM (DepInfo.collect fs · root) fun files paths =>
    paths.foldl BuildContext.addPath files]
  simp only [collect_eq, mapM_map_result]
  cases hpaths : (Path.sort context.outDirs).mapM (namedBelow fs root) with
  | error failure => rfl
  | ok paths =>
    have hlisted : (paths.map List.eraseDups).flatten.eraseDups = paths.flatten.eraseDups := by
      rw [← List.flatMap_def, ← List.flatMap_id]
      exact eraseDups_flatMap_congr fun paths _ => eraseDups_eraseDups paths
    show Except.ok (List.foldl _ (List.foldl _ _ _) _) = Except.ok _
    rw [BuildContext.foldl_foldl_addPath, hlisted, BuildContext.foldl_addPath_eq (nodup_eraseDups _)]
    exact congrArg _ (eraseDups_append_congr (eraseDups_eraseDups _) rfl)

namespace FileSystem

open DepInfo (Walks Answers Lists Reads Declares Blocks IsRealBelow)

theorem exists_compiledFiles_iff : (∃ files, fs.compiledFiles context root = .ok files) ↔
    ∀ outDir ∈ context.outDirs, ∃ paths, namedBelow fs root outDir = .ok paths := by
  have hsort : ∀ dir, dir ∈ context.outDirs ↔ dir ∈ Path.sort context.outDirs :=
    fun _ => Path.mem_sort.symm
  rw [compiledFiles_eq]
  simp only [hsort, ← exists_mapM_ok_iff]
  cases (Path.sort context.outDirs).mapM (namedBelow fs root) <;> simp [Except.map]

theorem mem_of_compiledFiles_ok {files : List Path}
    (h : fs.compiledFiles context root = .ok files) :
    files.Nodup ∧ ∀ path, path ∈ files ↔ path ∈ context.sourceRoots ∨
      ∃ outDir ∈ context.outDirs, ∃ dependency, Declares fs outDir dependency ∧
        DepInfo.canonicalize fs dependency root = .ok path := by
  rw [compiledFiles_eq] at h
  cases hlists : (Path.sort context.outDirs).mapM (namedBelow fs root) with
  | error e => rw [hlists] at h; cases h
  | ok lists =>
    rw [hlists] at h
    cases h
    refine ⟨nodup_eraseDups _, fun path => ?_⟩
    rw [List.mem_eraseDups, List.mem_append, or_comm, List.mem_flatten]
    refine or_congr_right ⟨?_, ?_⟩
    · rintro ⟨paths, hpaths, hpath⟩
      obtain ⟨outDir, hmem, hnamed⟩ := (mem_of_mapM_ok hlists).mp hpaths
      exact ⟨outDir, Path.mem_sort.mp hmem, (DepInfo.mem_namedBelow hnamed).mp hpath⟩
    · rintro ⟨outDir, hmem, hdeclared⟩
      obtain ⟨paths, hpaths⟩ :=
        exists_mapM_ok_iff.mp ⟨lists, hlists⟩ outDir (Path.mem_sort.mpr hmem)
      exact ⟨paths, (mem_of_mapM_ok hlists).mpr ⟨outDir, Path.mem_sort.mpr hmem, hpaths⟩,
        (DepInfo.mem_namedBelow hpaths).mpr hdeclared⟩

theorem blocks_of_compiledFiles_error (h : fs.compiledFiles context root = .error failure) :
    Blocks fs context.outDirs root failure := by
  rw [compiledFiles_eq] at h
  cases hlists : (Path.sort context.outDirs).mapM (namedBelow fs root) with
  | ok lists => rw [hlists] at h; cases h
  | error first =>
    rw [hlists] at h
    cases h
    obtain ⟨outDir, hmem, hfails⟩ := exists_of_mapM_error hlists
    exact DepInfo.blocks_of_namedBelow_error (Path.mem_sort.mp hmem) hfails

/-- Output directories that are real subdirectories of others can be left out. The directory above
is walked first, so also a failure stays what it is. -/
theorem compiledFiles_addPath (hmem : outDir ∈ context.outDirs) (hsub : IsRealBelow fs sub outDir)
    (hseparated : ∀ dir ∈ sub :: context.outDirs, dir.Separated) :
    fs.compiledFiles { context with outDirs := BuildContext.addPath context.outDirs sub } root =
      fs.compiledFiles context root := by
  obtain ⟨hs, hall⟩ := List.forall_mem_cons.mp hseparated
  rw [BuildContext.addPath]
  split
  · rfl
  rename_i hnew
  obtain ⟨before, after, hsorted, hsorted', hbefore⟩ := Path.exists_sort_concat hall hs
  have hfirst : outDir ∈ before := by
    refine hbefore outDir hmem (fun heq => hnew (heq ▸ hmem)) ?_
    obtain ⟨_, names, _, rfl, -⟩ := hsub
    exact Path.le_descend outDir names
  rw [compiledFiles_eq, compiledFiles_eq, hsorted, hsorted', List.mapM_append, List.mapM_append,
    List.mapM_cons]
  cases hlists : before.mapM (namedBelow fs root) with
  | error failure => rfl
  | ok lists =>
    obtain ⟨paths, hpaths⟩ := exists_mapM_ok_iff.mp ⟨lists, hlists⟩ outDir hfirst
    obtain ⟨fewer, hfewer, hsubset⟩ := DepInfo.exists_namedBelow_of_isRealBelow hsub hpaths
    have hknown : fewer ⊆ lists.flatten := fun path hpath => List.mem_flatten.mpr
      ⟨paths, (mem_of_mapM_ok hlists).mpr ⟨outDir, hfirst, hpaths⟩, hsubset hpath⟩
    rw [hfewer]
    cases after.mapM (namedBelow fs root) with
    | error failure => rfl
    | ok rest =>
      show Except.ok ((lists ++ fewer :: rest).flatten ++ _).eraseDups =
        Except.ok ((lists ++ rest).flatten ++ _).eraseDups
      rw [List.flatten_append, List.flatten_append, List.flatten_cons, ← List.append_assoc]
      refine congrArg _ (eraseDups_append_congr (eraseDups_append_congr ?_ rfl) rfl)
      exact eraseDups_append_of_subset hknown

/-- The files of a build are told exactly if all output directories can be walked, the file system
says of every entry there what it leads to, all listings can be read and all that they name
resolves. They are then the source roots and the canonical paths of all that is named, each once.
Every failure has its reason. A real subdirectory of an output directory adds nothing, and without
an invocation there are no files. -/
theorem compiledFiles_eq_union (fs : FileSystem) (context : BuildContext) (root : Path) :
    ((∃ files, fs.compiledFiles context root = .ok files) ↔
      ∀ outDir ∈ context.outDirs, Walks fs outDir ∧ Answers fs outDir ∧
        (∀ file, Lists fs outDir file → ∃ entries, Reads fs file entries) ∧
        ∀ dependency, Declares fs outDir dependency →
          ∃ path, DepInfo.canonicalize fs dependency root = .ok path) ∧
    (∀ files, fs.compiledFiles context root = .ok files →
      files.Nodup ∧ ∀ path, path ∈ files ↔ path ∈ context.sourceRoots ∨
        ∃ outDir ∈ context.outDirs, ∃ dependency, Declares fs outDir dependency ∧
          DepInfo.canonicalize fs dependency root = .ok path) ∧
    (∀ failure, fs.compiledFiles context root = .error failure →
      Blocks fs context.outDirs root failure) ∧
    (∀ outDir ∈ context.outDirs, ∀ sub, IsRealBelow fs sub outDir →
      (∀ dir ∈ sub :: context.outDirs, dir.Separated) →
      fs.compiledFiles { context with outDirs := BuildContext.addPath context.outDirs sub } root =
        fs.compiledFiles context root) ∧
    fs.compiledFiles .empty root = .ok [] := by
  refine ⟨?_, fun files => mem_of_compiledFiles_ok, fun failure => blocks_of_compiledFiles_error,
    fun outDir hmem sub hsub => compiledFiles_addPath hmem hsub, ?_⟩
  · rw [exists_compiledFiles_iff]
    exact forall₂_congr fun outDir _ => DepInfo.exists_namedBelow_iff
  · rw [compiledFiles_eq]
    have hnone : Path.sort [] = [] := List.mergeSort_nil
    show Except.map _ ((Path.sort []).mapM (namedBelow fs root)) = _
    rw [hnone]
    rfl

/-- A listing, and an empty directory beside it, in an output directory. -/
def listed : FileSystem :=
  ⟨.cons "out" (.dir
      (.cons "app.d" (.file (Text.Utf8.encode "app: src/lib.rs".toList))
        (.cons "deep" (.dir .nil) .nil)))
    (.cons "src" (.dir (.cons "lib.rs" (.file []) .nil)) .nil), []⟩

theorem stat_listed :
    listed.stat (.atRoot ["out"]) = .ok (.dir
      (.cons "app.d" (.file (Text.Utf8.encode "app: src/lib.rs".toList))
        (.cons "deep" (.dir .nil) .nil))) ∧
    listed.stat (.atRoot ["out", "deep"]) = .ok (.dir .nil) ∧
    listed.stat (.atRoot ["out", "app.d"]) =
      .ok (.file (Text.Utf8.encode "app: src/lib.rs".toList)) :=
  ⟨stat_atRoot (by decide +kernel) rfl (by decide) (Node.dir_ne_link _),
    stat_atRoot (by decide +kernel) rfl (by decide) (Node.dir_ne_link _),
    stat_atRoot (by decide +kernel) rfl (by decide) (Node.file_ne_link _)⟩

theorem listings_listed :
    DepInfo.listings listed (.atRoot ["out"]) = .ok [.atRoot ["out", "app.d"]] := by
  obtain ⟨hout, hdeep, happ⟩ := stat_listed
  have hfound : DepInfo.find listed (.atRoot ["out"]) = .ok [.atRoot ["out", "app.d"]] := by
    have hentries : listed.entriesBelow (.atRoot ["out"]) = .ok [.atRoot ["out", "app.d"]] := by
      rw [entriesBelow, hout]
      rfl
    have hfile : listed.isFileWithSuffix DepInfo.suffix (.atRoot ["out", "app.d"]) = true := by
      have hsuffix : (Path.atRoot ["out", "app.d"]).suffix = DepInfo.suffix := by decide +kernel
      rw [isFileWithSuffix, isFile, happ, hsuffix]
      rfl
    rw [DepInfo.find, filesBelow, hentries, Except.map, List.filter_singleton, hfile]
    exact congrArg Except.ok (List.mergeSort_singleton _)
  have hlooks : listed.looks (.atRoot ["out"]) = [.directory (.atRoot ["out"]),
      .entry (.atRoot ["out", "app.d"]), .directory (.atRoot ["out", "deep"])] := by
    rw [looks, hout]
    rfl
  refine DepInfo.listings_ok_iff.mpr ⟨by decide +kernel, hfound, ?_⟩
  rw [hlooks]
  simp [DepInfo.refusal?, pathExists, hout, hdeep, happ]

theorem compiledFiles_listed : listed.compiledFiles ⟨[], [.atRoot ["out"]], 1⟩ (.atRoot []) =
    .ok [.atRoot ["src", "lib.rs"]] := by
  have hreads : Reads listed (.atRoot ["out", "app.d"]) [⟨"app", ["src/lib.rs"]⟩] := by
    refine ⟨Text.Utf8.encode "app: src/lib.rs".toList, "app: src/lib.rs".toList, ?_,
      by decide +kernel, by decide +kernel⟩
    rw [readBytes, stat_listed.2.2]
  have hresolves : DepInfo.canonicalize listed "src/lib.rs" (.atRoot []) =
      .ok (.atRoot ["src", "lib.rs"]) := by
    have hfs : listed.WellFormed := ⟨by decide +kernel, _, rfl⟩
    have hsrc : listed.Names [] "src" (.dir (.cons "lib.rs" (.file []) .nil)) :=
      .of_entry rfl (by decide) (by decide)
    have hlib : listed.Names ["src"] "lib.rs" (.file []) := .of_entry rfl (by decide) (by decide)
    have harrives : listed.ArrivesAt ((Path.atRoot []).join (.ofString "src/lib.rs"))
        ["src", "lib.rs"] :=
      ⟨0, .step hsrc (Node.dir_ne_link _) (.step hlib (Node.file_ne_link _) .done)⟩
    exact DepInfo.canonicalize_ok_iff.mpr ((resolveStrict_ok_iff hfs).mpr ⟨_, harrives, rfl⟩)
  have hnamed : DepInfo.named listed (.atRoot []) (.atRoot ["out", "app.d"]) =
      .ok [.atRoot ["src", "lib.rs"]] := by
    refine DepInfo.named_ok_iff.mpr ⟨_, hreads, ?_⟩
    show ["src/lib.rs"].mapM _ = _
    rw [List.mapM_cons, hresolves]
    rfl
  have hbelow : DepInfo.namedBelow listed (.atRoot []) (.atRoot ["out"]) =
      .ok [.atRoot ["src", "lib.rs"]] := by
    refine DepInfo.namedBelow_ok_iff.mpr
      ⟨_, [[.atRoot ["src", "lib.rs"]]], listings_listed, ?_, rfl⟩
    rw [List.mapM_cons, hnamed]
    rfl
  have hsort : Path.sort [.atRoot ["out"]] = [.atRoot ["out"]] := List.mergeSort_singleton _
  rw [compiledFiles_eq, hsort, List.mapM_cons, hbelow]
  rfl

theorem compiledFiles_eq_union_listed :
    listed.compiledFiles ⟨[], [.atRoot ["out"]], 1⟩ (.atRoot []) = .ok [.atRoot ["src", "lib.rs"]] ∧
    IsRealBelow listed (.atRoot ["out", "deep"]) (.atRoot ["out"]) ∧
    listed.compiledFiles ⟨[], [.atRoot ["out"], .atRoot ["out", "deep"]], 1⟩ (.atRoot []) =
      listed.compiledFiles ⟨[], [.atRoot ["out"]], 1⟩ (.atRoot []) := by
  have hbelow : IsRealBelow listed (.atRoot ["out", "deep"]) (.atRoot ["out"]) :=
    ⟨_, ["deep"], .nil, rfl, by decide, stat_listed.1, rfl⟩
  have hseparated : ∀ dir ∈ [Path.atRoot ["out", "deep"], .atRoot ["out"]], dir.Separated := by
    simp [Path.Separated, Path.atRoot]
  exact ⟨compiledFiles_listed, hbelow,
    (compiledFiles_eq_union listed ⟨[], [.atRoot ["out"]], 1⟩ (.atRoot [])).2.2.2.1
      _ (List.mem_singleton_self _) _ hbelow hseparated⟩

/-- A link in an output directory, to a name that is longer than any file has. -/
def refusing : FileSystem :=
  ⟨.cons "out" (.dir (.cons "x.d" (.link (String.ofList (List.replicate 256 'a'))) .nil))
    (.cons "src" (.dir (.cons "lib.rs" (.file []) .nil)) .nil), []⟩

theorem stat_refusing :
    (∃ target, refusing.stat (.atRoot ["out"]) = .ok (.dir (.cons "x.d" (.link target) .nil))) ∧
    refusing.stat (.atRoot ["out", "x.d"]) = .error ⟨.nameTooLong, "/out/x.d"⟩ := by
  let long := String.ofList (List.replicate 256 'a')
  let below := Entries.cons "x.d" (.link long) .nil
  have hout : refusing.Names [] "out" (.dir below) := .of_entry rfl (by decide) (by decide)
  have hlink : refusing.Names ["out"] "x.d" (.link long) := .of_entry rfl (by decide) (by decide)
  have hdir : refusing.find (.atRoot ["out"]) true = .ok (["out"], .dir below) :=
    find_atRoot (by decide +kernel) hout.entry_child (by decide) (Node.dir_ne_link below)
  have hrefused : refusing.find (.atRoot ["out", "x.d"]) true = .error .nameTooLong := by
    have hlong : maxName < long.utf8ByteSize := by
      rw [Text.utf8ByteSize_replicate rfl 256]
      decide
    have hsteps : steps long = [long] := by
      apply steps_of_not_mem
      · intro hempty
        rw [hempty] at hlong
        exact absurd hlong (by decide)
      · rw [String.toList_ofList]
        exact fun hmem => absurd (List.eq_of_mem_replicate hmem) (by decide)
    -- the target is looked up where the link is, or at the root if its text begins there
    have horigin : ∃ entries, refusing.entry (origin long ["out"]) = .ok (.dir entries) := by
      rw [origin]
      split
      · exact ⟨_, rfl⟩
      · exact ⟨_, hout.entry_child⟩
    obtain ⟨entries, horigin⟩ := horigin
    rw [find_eq (by decide +kernel)]
    show refusing.findFrom true maxLinks [] ["out", "x.d"] = _
    rw [findFrom_step hout (Node.dir_ne_link below), List.nil_append, maxLinks,
      findFrom_follow hlink, hsteps]
    exact findFrom_long horigin hlong _ _
  have htext : (Path.atRoot ["out", "x.d"]).toString = "/out/x.d" := by decide +kernel
  rw [stat, stat, hdir, hrefused, htext]
  exact ⟨⟨long, rfl⟩, rfl⟩

theorem looks_refusing : refusing.looks (.atRoot ["out"]) =
    [.directory (.atRoot ["out"]), .entry (.atRoot ["out", "x.d"])] := by
  obtain ⟨⟨target, hdir⟩, hrefused⟩ := stat_refusing
  have hisDir : refusing.isDir (.atRoot ["out", "x.d"]) = false := by rw [isDir, hrefused]
  rw [looks, hdir]
  show _ :: (List.map _ (if refusing.isDir (.atRoot ["out", "x.d"]) then [] else _) ++ []) = _
  rw [hisDir]
  rfl

theorem find_refusing : DepInfo.find refusing (.atRoot ["out"]) = .ok [] := by
  obtain ⟨⟨target, hdir⟩, hrefused⟩ := stat_refusing
  have hisDir : refusing.isDir (.atRoot ["out", "x.d"]) = false := by rw [isDir, hrefused]
  have hisFile : refusing.isFile (.atRoot ["out", "x.d"]) = false := by rw [isFile, hrefused]
  have hentries : refusing.entriesBelow (.atRoot ["out"]) = .ok [.atRoot ["out", "x.d"]] := by
    rw [entriesBelow, hdir]
    show Except.ok (if refusing.isDir (.atRoot ["out", "x.d"]) then [] else _) = _
    rw [hisDir]
    rfl
  rw [DepInfo.find, filesBelow, hentries, Except.map, List.filter_singleton, isFileWithSuffix,
    hisFile]
  exact congrArg Except.ok List.mergeSort_nil

theorem listings_refusing : DepInfo.listings refusing (.atRoot ["out"]) =
    .error (.fault (.os ⟨.nameTooLong, "/out/x.d"⟩)) := by
  obtain ⟨⟨target, hdir⟩, hrefused⟩ := stat_refusing
  have hnull : ¬ (Path.atRoot ["out"]).hasNull = true := by decide +kernel
  rw [DepInfo.listings, if_neg hnull, find_refusing, looks_refusing]
  simp [List.findSome?, DepInfo.refusal?, pathExists, hdir, hrefused, bind, Except.bind,
    Except.mapError]

/-- The output directory can be walked and there is no listing in it, and still there is no answer:
the file system does not say what the link leads to. -/
theorem compiledFiles_refuses_to_look :
    Walks refusing (.atRoot ["out"]) ∧ DepInfo.find refusing (.atRoot ["out"]) = .ok [] ∧
    refusing.compiledFiles ⟨[.atRoot ["src", "lib.rs"]], [.atRoot ["out"]], 1⟩ (.atRoot []) =
      .error (.fault (.os ⟨.nameTooLong, "/out/x.d"⟩)) := by
  obtain ⟨⟨target, hdir⟩, -⟩ := stat_refusing
  have hnone : namedBelow refusing (.atRoot []) (.atRoot ["out"]) =
      .error (.fault (.os ⟨.nameTooLong, "/out/x.d"⟩)) := by
    rw [namedBelow, listings_refusing]
    rfl
  have hsort : Path.sort [.atRoot ["out"]] = [.atRoot ["out"]] := List.mergeSort_singleton _
  refine ⟨⟨⟨_, hdir⟩, ?_, by decide +kernel⟩, find_refusing, ?_⟩
  · rw [looks_refusing]
    intro path hpath
    obtain rfl : path = .atRoot ["out"] := by simpa using hpath
    exact ⟨_, hdir⟩
  · rw [compiledFiles_eq, hsort, List.mapM_cons, hnone]
    rfl

end FileSystem

end UnsafeAudit
