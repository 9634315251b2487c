import Mathlib.Data.List.Induction
import UnsafeAudit.Config.Load
import UnsafeAudit.Proofs.FileSystem.Resolvable
import UnsafeAudit.Proofs.FileSystem.Writing

/-!
# The nearest settings file

A search for settings looks into the directories on the way up from where it
starts. It comes to what the first of them says that has anything to say
(`findFrom_eq_iff`): that it has a settings file, or that a look into it is
refused. The root directory is never looked into, and below a name that is too
long every look is refused.
-/

namespace UnsafeAudit.Config

variable {fs : FileSystem} {directory path start : Path} {names : List String} {name : String}
  {answer : Except OsError (Option Path)}

open FileSystem (pathExists_true_iff pathExists_false_iff pathExists_error_iff)

-- ---------------------------------------------------------------------------
-- One directory
-- ---------------------------------------------------------------------------

def yamlIn (directory : Path) : Path := directory.child ".crate-safety-audit.yaml"

def ymlIn (directory : Path) : Path := directory.child ".crate-safety-audit.yml"

/-- What a directory says when it is asked for its settings file: which of the two it is, that
there is none, or that a look for one of them is refused. -/
inductive Replies (fs : FileSystem) (directory : Path) : Except OsError (Option Path) → Prop
  | preferred (hyaml : fs.Present (yamlIn directory)) :
    Replies fs directory (.ok (some (yamlIn directory)))
  | other (hyaml : fs.Absent (yamlIn directory)) (hyml : fs.Present (ymlIn directory)) :
    Replies fs directory (.ok (some (ymlIn directory)))
  | nothing (hyaml : fs.Absent (yamlIn directory)) (hyml : fs.Absent (ymlIn directory)) :
    Replies fs directory (.ok none)
  | yamlRefused {e : OsError} (hyaml : fs.Refused (yamlIn directory) e) :
    Replies fs directory (.error e)
  | ymlRefused {e : OsError} (hyaml : fs.Absent (yamlIn directory))
    (hyml : fs.Refused (ymlIn directory) e) : Replies fs directory (.error e)

def ask (fs : FileSystem) (directory : Path) : Except OsError (Option Path) :=
  (fileNames.map directory.child).findM? fs.pathExists

theorem ask_eq (fs : FileSystem) (directory : Path) : ask fs directory =
    match fs.pathExists (yamlIn directory) with
    | .error e => .error e
    | .ok true => .ok (some (yamlIn directory))
    | .ok false =>
      match fs.pathExists (ymlIn directory) with
      | .error e => .error e
      | .ok true => .ok (some (ymlIn directory))
      | .ok false => .ok none := by
  show List.findM? fs.pathExists [yamlIn directory, ymlIn directory] = _
  simp only [List.findM?]
  rcases fs.pathExists (yamlIn directory) with e | (_ | _)
  · rfl
  · rcases fs.pathExists (ymlIn directory) with e | (_ | _) <;> rfl
  · rfl

theorem ask_eq_iff : ask fs directory = answer ↔ Replies fs directory answer := by
  rw [ask_eq]
  constructor
  · rintro rfl
    rcases hyaml : fs.pathExists (yamlIn directory) with e | (_ | _)
    · exact .yamlRefused (pathExists_error_iff.mp hyaml)
    · have habsent := pathExists_false_iff.mp hyaml
      rcases hyml : fs.pathExists (ymlIn directory) with e | (_ | _)
      · exact .ymlRefused habsent (pathExists_error_iff.mp hyml)
      · exact .nothing habsent (pathExists_false_iff.mp hyml)
      · exact .other habsent (pathExists_true_iff.mp hyml)
    · exact .preferred (pathExists_true_iff.mp hyaml)
  · rintro (hyaml | ⟨hyaml, hyml⟩ | ⟨hyaml, hyml⟩ | hyaml | ⟨hyaml, hyml⟩)
    · rw [pathExists_true_iff.mpr hyaml]
    · rw [pathExists_false_iff.mpr hyaml, pathExists_true_iff.mpr hyml]
    · rw [pathExists_false_iff.mpr hyaml, pathExists_false_iff.mpr hyml]
    · rw [pathExists_error_iff.mpr hyaml]
    · rw [pathExists_false_iff.mpr hyaml, pathExists_error_iff.mpr hyml]

-- ---------------------------------------------------------------------------
-- The way up
-- ---------------------------------------------------------------------------

/-- Below `depth`, every directory on the way to a location says that it has no settings file. -/
def SilentBelow (fs : FileSystem) (names : List String) (depth : Nat) : Prop :=
  ∀ deeper, depth < deeper → deeper ≤ names.length →
    Replies fs (.atRoot (names.take deeper)) (.ok none)

/-- The answer of the nearest directory that does not say that it has no settings file. The root
directory, of depth zero, is not asked. -/
def Nearest (fs : FileSystem) (names : List String) (answer : Except OsError (Option Path)) :
    Prop :=
  ∃ depth, 0 < depth ∧ depth ≤ names.length ∧ Replies fs (.atRoot (names.take depth)) answer ∧
    SilentBelow fs names depth

theorem silentBelow_length : SilentBelow fs names names.length :=
  fun _ hbelow hle => absurd hle (Nat.not_le.mpr hbelow)

theorem silentBelow_concat {depth : Nat} (h : depth ≤ names.length) :
    SilentBelow fs (names ++ [name]) depth ↔
      Replies fs (.atRoot (names ++ [name])) (.ok none) ∧ SilentBelow fs names depth := by
  constructor
  · intro hsilent
    have hlast := hsilent (names ++ [name]).length (by simp; omega) le_rfl
    rw [List.take_length] at hlast
    refine ⟨hlast, fun deeper hbelow hle => ?_⟩
    have hhere := hsilent deeper hbelow (by simp; omega)
    rwa [List.take_append_of_le_length hle] at hhere
  · rintro ⟨hlast, hsilent⟩ deeper hbelow hle
    rcases Nat.lt_or_ge names.length deeper with hlong | hshort
    · rwa [List.take_of_length_le (by simp; omega)]
    · rw [List.take_append_of_le_length hshort]
      exact hsilent deeper hbelow hshort

theorem nearest_of_replies (h : Replies fs (.atRoot names) answer) (hnames : names ≠ []) :
    Nearest fs names answer :=
  ⟨names.length, List.length_pos_iff.mpr hnames, le_rfl, by rwa [List.take_length],
    silentBelow_length⟩

theorem not_nearest_nil : ¬ Nearest fs [] answer := by
  rintro ⟨depth, hpos, hle, -⟩
  exact absurd hle (Nat.not_le.mpr hpos)

theorem nearest_concat : Nearest fs (names ++ [name]) answer ↔
    Replies fs (.atRoot (names ++ [name])) answer ∨
      Replies fs (.atRoot (names ++ [name])) (.ok none) ∧ Nearest fs names answer := by
  constructor
  · rintro ⟨depth, hpos, hle, hreply, hsilent⟩
    rcases Nat.lt_or_ge names.length depth with hlong | hshort
    · rw [List.take_of_length_le (by simp; omega)] at hreply
      exact .inl hreply
    · rw [List.take_append_of_le_length hshort] at hreply
      obtain ⟨hlast, hsilent⟩ := (silentBelow_concat hshort).mp hsilent
      exact .inr ⟨hlast, depth, hpos, hshort, hreply, hsilent⟩
  · rintro (hreply | ⟨hlast, depth, hpos, hle, hreply, hsilent⟩)
    · exact nearest_of_replies hreply (List.concat_ne_nil _ _)
    · refine ⟨depth, hpos, by simp; omega, ?_, (silentBelow_concat hle).mpr ⟨hlast, hsilent⟩⟩
      rwa [List.take_append_of_le_length hle]

theorem findFrom_concat : findFrom fs .root (names ++ [name]).reverse =
    ask fs (.atRoot (names ++ [name])) >>= fun
      | some path => .ok (some path)
      | none => findFrom fs .root names.reverse := by
  rw [List.reverse_append]
  show findFrom fs .root (name :: names.reverse) = _
  rw [findFrom, List.reverse_cons, List.reverse_reverse]
  rfl

theorem Replies.unique {other : Except OsError (Option Path)} (h : Replies fs directory answer)
    (h' : Replies fs directory other) : answer = other :=
  (ask_eq_iff.mpr h).symm.trans (ask_eq_iff.mpr h')

theorem findFrom_of_replies (h : Replies fs (.atRoot (names ++ [name])) answer)
    (hanswer : answer ≠ .ok none) : findFrom fs .root (names ++ [name]).reverse = answer := by
  rw [findFrom_concat, ask_eq_iff.mpr h]
  rcases answer with e | (_ | path)
  · rfl
  · exact absurd rfl hanswer
  · rfl

theorem findFrom_of_silent (h : Replies fs (.atRoot (names ++ [name])) (.ok none)) :
    findFrom fs .root (names ++ [name]).reverse = findFrom fs .root names.reverse := by
  rw [findFrom_concat, ask_eq_iff.mpr h]
  rfl

/-- The search goes on until a directory says something else than that it has no settings file. -/
theorem findFrom_eq_iff (hanswer : answer ≠ .ok none) :
    findFrom fs .root names.reverse = answer ↔ Nearest fs names answer := by
  induction names using List.reverseRecOn with
  | nil =>
    refine iff_of_false (fun h => ?_) not_nearest_nil
    rw [List.reverse_nil, findFrom] at h
    exact hanswer h.symm
  | append_singleton names name ih =>
    have hreply := ask_eq_iff.mp (rfl : ask fs (.atRoot (names ++ [name])) = _)
    rw [nearest_concat]
    by_cases hsilent : ask fs (.atRoot (names ++ [name])) = .ok none
    · rw [hsilent] at hreply
      rw [findFrom_of_silent hreply, ih]
      exact ⟨fun h => .inr ⟨hreply, h⟩, fun h => h.elim (fun h => absurd (h.unique hreply) hanswer)
        And.right⟩
    · rw [findFrom_of_replies hreply hsilent]
      exact ⟨fun h => .inl (h ▸ hreply), fun h => h.elim hreply.unique
        fun h => absurd (hreply.unique h.1) hsilent⟩

theorem findFrom_none_iff :
    findFrom fs .root names.reverse = .ok none ↔ SilentBelow fs names 0 := by
  induction names using List.reverseRecOn with
  | nil => exact iff_of_true (by rw [List.reverse_nil, findFrom]) silentBelow_length
  | append_singleton names name ih =>
    have hreply := ask_eq_iff.mp (rfl : ask fs (.atRoot (names ++ [name])) = _)
    rw [silentBelow_concat (Nat.zero_le _)]
    by_cases hsilent : ask fs (.atRoot (names ++ [name])) = .ok none
    · rw [hsilent] at hreply
      rw [findFrom_of_silent hreply, ih]
      exact ⟨fun h => ⟨hreply, h⟩, And.right⟩
    · rw [findFrom_of_replies hreply hsilent]
      exact iff_of_false hsilent fun h => hsilent (hreply.unique h.1)

-- ---------------------------------------------------------------------------
-- The search
-- ---------------------------------------------------------------------------

theorem find_of_resolve (h : fs.resolve start = .ok (.atRoot names)) :
    find fs start = (findFrom fs .root names.reverse).mapError .os := by
  rw [find, h]
  rfl

theorem find_of_unresolved {e : ResolveError} (h : fs.resolve start = .error e) :
    find fs start = .error (.unresolved e) := by
  rw [find, h]
  rfl

/-- A start with a canonical path, as one without loops has, is searched from up to the root, which
is left out. What is found is the settings file of the nearest directory that has one, unless the
file system refuses to say whether one of those below has one. -/
theorem find_nearest (fs : FileSystem) (start : Path) :
    (fs.WellFormed → fs.CleanLinks → ¬ fs.ComesBack start →
      ((∃ directory, fs.resolve start = .ok directory) ↔ start.hasNull = false)) ∧
    (∀ e, fs.resolve start = .error e → find fs start = .error (.unresolved e)) ∧
    ∀ directory, fs.resolve start = .ok directory → ∃ names, directory = .atRoot names ∧
      (∀ path, find fs start = .ok (some path) ↔ Nearest fs names (.ok (some path))) ∧
      (find fs start = .ok none ↔ SilentBelow fs names 0) ∧
      ∀ fault, find fs start = .error fault ↔ ∃ e, fault = .os e ∧ Nearest fs names (.error e) := by
  refine ⟨FileSystem.exists_resolve_iff, fun e => find_of_unresolved, fun directory h => ?_⟩
  obtain ⟨names, rfl⟩ := FileSystem.resolve_ok h
  rw [find_of_resolve h]
  refine ⟨names, rfl, fun path => ?_, ?_, fun fault => ?_⟩
  · rw [← findFrom_eq_iff (by simp)]
    exact ⟨of_mapError_ok, fun h => by rw [h]; rfl⟩
  · rw [← findFrom_none_iff]
    exact ⟨of_mapError_ok, fun h => by rw [h]; rfl⟩
  · rw [mapError_eq_error_iff]
    refine exists_congr fun e => ?_
    rw [← findFrom_eq_iff (by simp), and_comm, eq_comm]

def settled : FileSystem :=
  ⟨.cons "w" (.dir (.cons ".crate-safety-audit.yml" (.file []) .nil)) .nil, []⟩

theorem entry_settled : settled.entry ["w"] =
    .ok (.dir (.cons ".crate-safety-audit.yml" (.file []) .nil)) := rfl

theorem present_settled : settled.Present (ymlIn (.atRoot ["w"])) := by
  have hentry : settled.entry ["w", ".crate-safety-audit.yml"] = .ok (.file []) := rfl
  exact ⟨_, FileSystem.stat_atRoot (by decide +kernel) hentry (by decide) (Node.file_ne_link _)⟩

theorem absent_settled {rest : List String} (hname : FileSystem.Fits name)
    (hother : name ≠ ".crate-safety-audit.yml")
    (hshort : (Path.atRoot (["w"] ++ name :: rest)).toString.utf8ByteSize < maxPath) :
    settled.Absent (.atRoot (["w"] ++ name :: rest)) := by
  have hfind : settled.find (.atRoot (["w"] ++ name :: rest)) true = .error .noSuchFile := by
    rw [FileSystem.find_through entry_settled (by decide) hshort]
    refine FileSystem.findFrom_missing entry_settled hname.isPlain hname.size_le ?_ _ _
    rw [Entries.lookup, if_neg hother.symm, Entries.lookup]
  rw [FileSystem.Absent, FileSystem.stat, hfind]
  exact ⟨_, rfl, by rintro ⟨⟩⟩

theorem nearest_settled :
    Nearest settled ["w", "a", "b"] (.ok (some (ymlIn (.atRoot ["w"])))) := by
  have ha : FileSystem.Fits "a" := ⟨by decide, by decide⟩
  refine ⟨1, by decide, by decide, .other ?_ present_settled, fun deeper hbelow hle => ?_⟩
  · exact absent_settled ⟨by decide, by decide⟩ (by decide) (by decide +kernel)
  · obtain rfl | rfl : deeper = 2 ∨ deeper = 3 := by
      rw [List.length_cons, List.length_cons, List.length_singleton] at hle
      omega
    · exact .nothing (absent_settled ha (by decide) (by decide +kernel))
        (absent_settled ha (by decide) (by decide +kernel))
    · exact .nothing (absent_settled ha (by decide) (by decide +kernel))
        (absent_settled ha (by decide) (by decide +kernel))

theorem find_nearest_settled :
    let start := Path.atRoot ["w", "a", "b"]
    (settled.WellFormed ∧ settled.CleanLinks ∧ ¬ settled.ComesBack start ∧
      ∃ directory, settled.resolve start = .ok directory) ∧
    settled.resolve start = .ok start ∧
    find settled start = .ok (some (ymlIn (.atRoot ["w"]))) ∧
    find settled (.atRoot ["\x00"]) = .error (.unresolved .nullName) := by
  intro start
  have hfs : settled.WellFormed := ⟨by decide +kernel, _, rfl⟩
  have hclean : settled.CleanLinks := FileSystem.cleanLinks_of_links rfl
  have hunlinked : settled.Unlinked ["w", "a", "b"] := FileSystem.unlinked_of_links rfl (by decide)
  have hexists := ((find_nearest settled start).1 hfs hclean hunlinked.not_comesBack).mpr
    (by decide +kernel)
  obtain ⟨names, heq, hfound, -⟩ := (find_nearest settled start).2.2 _ hunlinked.resolve
  obtain rfl : ["w", "a", "b"] = names := congrArg Path.parts heq
  have hwalk : settled.walkLinks false [] (settled.startOf (.atRoot ["\x00"]))
      ((Path.atRoot ["\x00"]).parts.map .name) = .nullName := by
    show settled.walkLinks false [] _ [.name "\x00"] = .nullName
    rw [FileSystem.walkLinks, if_neg (by decide), if_neg (by decide), if_pos (by simp)]
  have hnull : settled.resolve (.atRoot ["\x00"]) = .error .nullName := by
    rw [FileSystem.resolve, hwalk]
  exact ⟨⟨hfs, hclean, hunlinked.not_comesBack, hexists⟩, hunlinked.resolve,
    (hfound _).mpr nearest_settled, (find_nearest settled _).2.1 _ hnull⟩

-- ---------------------------------------------------------------------------
-- What is not found
-- ---------------------------------------------------------------------------

section Long

variable {loc : Location} {entries : Entries} {rest : List String}

theorem isPlain_of_long (hlong : maxName < name.utf8ByteSize) (hnull : '\x00' ∉ name.toList) :
    FileSystem.IsPlain name := by
  refine ⟨?_, ?_, ?_, hnull⟩
  all_goals
    rintro rfl
    exact absurd hlong (by decide)

/-- A lookup gets no further than to a name that is too long. -/
theorem find_long (hdir : fs.entry loc = .ok (.dir entries))
    (hplain : ∀ name ∈ loc, FileSystem.IsPlain name) (hlong : maxName < name.utf8ByteSize) :
    fs.find (.atRoot (loc ++ name :: rest)) true = .error .nameTooLong := by
  by_cases hshort : (Path.atRoot (loc ++ name :: rest)).toString.utf8ByteSize < maxPath
  · rw [FileSystem.find_through hdir hplain hshort, FileSystem.findFrom_long hdir hlong]
  · rw [FileSystem.find, if_pos (Nat.not_lt.mp hshort)]

/-- From below a name that is too long nothing is found, whatever the directories above hold. -/
theorem find_of_long (hdir : fs.entry loc = .ok (.dir entries))
    (hplain : ∀ name ∈ loc, FileSystem.IsPlain name) (hlong : maxName < name.utf8ByteSize)
    (hstart : fs.resolve start = .ok (.atRoot (loc ++ name :: rest))) :
    find fs start = .error (.os ⟨.nameTooLong,
      (yamlIn (.atRoot (loc ++ name :: rest))).toString⟩) := by
  have hyaml : yamlIn (.atRoot (loc ++ name :: rest)) =
      .atRoot (loc ++ name :: (rest ++ [".crate-safety-audit.yaml"])) := by
    simp [yamlIn, Path.child, Path.atRoot]
  have hrefused : fs.Refused (yamlIn (.atRoot (loc ++ name :: rest)))
      ⟨.nameTooLong, (yamlIn (.atRoot (loc ++ name :: rest))).toString⟩ := by
    rw [hyaml, FileSystem.Refused, FileSystem.stat, find_long hdir hplain hlong]
    exact ⟨rfl, rfl⟩
  have hnearest := nearest_of_replies (.yamlRefused hrefused) (by simp)
  rw [find_of_resolve hstart, (findFrom_eq_iff (by simp)).mpr hnearest, mapError_error]

end Long

/-- A name of a length that no directory admits. -/
def longName : String := String.ofList (List.replicate 256 'a')

def rooted : FileSystem := ⟨.cons ".crate-safety-audit.yaml" (.file []) .nil, []⟩

/-- A settings file stands in a directory above the start, and the search fails. One stands in the
root directory, and the search from there finds nothing. -/
theorem find_misses_settings :
    (settled.Present (ymlIn (.atRoot ["w"])) ∧
      settled.resolve (.atRoot ["w", longName]) = .ok (.atRoot ["w", longName]) ∧
      find settled (.atRoot ["w", longName]) =
        .error (.os ⟨.nameTooLong, (yamlIn (.atRoot ["w", longName])).toString⟩)) ∧
    rooted.Present (yamlIn (.atRoot [])) ∧ rooted.resolve (.atRoot []) = .ok (.atRoot []) ∧
      find rooted (.atRoot []) = .ok none := by
  have hsize : longName.utf8ByteSize = 256 := Text.utf8ByteSize_replicate rfl 256
  have hlong : maxName < longName.utf8ByteSize := by
    rw [hsize]
    decide
  have hchars : longName.toList = List.replicate 256 'a' := String.toList_ofList
  have hnull : '\x00' ∉ longName.toList := by
    rw [hchars]
    exact fun hmem => absurd (List.eq_of_mem_replicate hmem) (by decide)
  have hplain : ∀ name ∈ ["w", longName], FileSystem.IsPlain name := by
    simpa using ⟨by decide, isPlain_of_long hlong hnull⟩
  have hunlinked : settled.Unlinked ["w", longName] := FileSystem.unlinked_of_links rfl hplain
  have hrefused := find_of_long entry_settled (by decide) hlong hunlinked.resolve
  have hroot : rooted.resolve (.atRoot []) = .ok (.atRoot []) := FileSystem.unlinked_nil.resolve
  have hentry : rooted.entry [".crate-safety-audit.yaml"] = .ok (.file []) := rfl
  have hpresent : rooted.Present (yamlIn (.atRoot [])) :=
    ⟨_, FileSystem.stat_atRoot (by decide +kernel) hentry (by decide) (Node.file_ne_link _)⟩
  refine ⟨⟨present_settled, hunlinked.resolve, hrefused⟩, hpresent, hroot, ?_⟩
  rw [find_of_resolve hroot, findFrom_none_iff.mpr silentBelow_length, mapError_ok]

end UnsafeAudit.Config
