import Mathlib.Logic.Function.Basic
import UnsafeAudit.Proofs.FileSystem.Frame

/-!
# Writing files

Files are written, removed and put into a directory that no link leads to. What
then stands in the directory is told by the names in it (`Entries.lookup_insert`,
`Entries.lookup_erase`), and the rest of the state keeps its shape
(`sameTree_update`).
-/

namespace UnsafeAudit

variable {name other : String} {node inner : Node}

-- ---------------------------------------------------------------------------
-- Entries
-- ---------------------------------------------------------------------------

namespace Entries

variable {entries : Entries}

theorem lookup_insert (node : Node) (name other : String) : ∀ entries : Entries,
    (entries.insert name node).lookup other =
      if name = other then some node else entries.lookup other
  | .nil => by simp [insert, lookup]
  | .cons first old rest => by
    rw [insert]
    split
    · subst name
      by_cases hother : first = other <;> simp [lookup, hother]
    · rename_i hfirst
      rw [lookup, lookup, lookup_insert node name other rest]
      by_cases hother : first = other
      · have hne : name ≠ other := fun h => hfirst (hother.trans h.symm)
        simp [hother, hne]
      · simp [hother]

theorem mem_names_iff : ∀ {entries : Entries},
    name ∈ entries.names ↔ ∃ node, entries.lookup name = some node
  | .nil => by simp [names, lookup]
  | .cons first old rest => by
    rw [names, lookup, List.mem_cons, mem_names_iff]
    by_cases h : first = name
    · simp [h]
    · simp [h, Ne.symm h]

theorem names_insert (node : Node) (name : String) : ∀ entries : Entries,
    (entries.insert name node).names =
      if name ∈ entries.names then entries.names else entries.names ++ [name]
  | .nil => by simp [insert, names]
  | .cons first old rest => by
    rw [insert]
    split
    · simp [names, *]
    · rename_i hfirst
      simp only [names, names_insert node name rest, List.mem_cons, Ne.symm hfirst, false_or]
      split <;> rfl

theorem names_erase (name : String) : ∀ entries : Entries,
    (entries.erase name).names = entries.names.erase name
  | .nil => rfl
  | .cons first old rest => by
    rw [erase, names, List.erase_cons]
    by_cases h : first = name
    · simp [h]
    · simp [h, names, names_erase name rest]

theorem nodup_insert (h : entries.names.Nodup) (name : String) (node : Node) :
    (entries.insert name node).names.Nodup := by
  rw [names_insert]
  split
  · exact h
  · rename_i hnew
    refine List.nodup_append.mpr ⟨h, by simp, fun a ha b hb => ?_⟩
    rintro rfl
    exact hnew (List.mem_singleton.mp hb ▸ ha)

theorem nodup_erase (h : entries.names.Nodup) (name : String) :
    (entries.erase name).names.Nodup := by
  rw [names_erase]
  exact h.erase name

theorem lookup_of_not_mem (h : name ∉ entries.names) : entries.lookup name = none := by
  cases hlookup : entries.lookup name with
  | none => rfl
  | some node => exact absurd (mem_names_iff.mpr ⟨node, hlookup⟩) h

theorem lookup_erase (name other : String) : ∀ {entries : Entries}, entries.names.Nodup →
    (entries.erase name).lookup other = if name = other then none else entries.lookup other
  | .nil, _ => by simp [erase, lookup]
  | .cons first old rest, h => by
    obtain ⟨hfirst, hrest⟩ := List.nodup_cons.mp h
    rw [erase]
    split
    · subst name
      by_cases hother : first = other
      · simp [hother, lookup_of_not_mem (hother ▸ hfirst)]
      · simp [lookup, hother]
    · rename_i hname
      rw [lookup, lookup, lookup_erase name other hrest]
      by_cases hother : first = other
      · simp [hother, Ne.symm (hother ▸ hname)]
      · simp [hother]

def alter (change : Option Node → Option Node) (name : String) (entries : Entries) : Entries :=
  match change (entries.lookup name) with
  | some inner => entries.insert name inner
  | none => entries.erase name

theorem lookup_alter (h : entries.names.Nodup) (change : Option Node → Option Node)
    (name other : String) : (entries.alter change name).lookup other =
      if name = other then change (entries.lookup name) else entries.lookup other := by
  rw [alter]
  cases change (entries.lookup name) with
  | some inner => exact lookup_insert inner name other entries
  | none => exact lookup_erase name other h

theorem nodup_alter (h : entries.names.Nodup) (change : Option Node → Option Node)
    (name : String) : (entries.alter change name).names.Nodup := by
  rw [alter]
  split
  · exact nodup_insert h name _
  · exact nodup_erase h name

end Entries

-- ---------------------------------------------------------------------------
-- Updates
-- ---------------------------------------------------------------------------

namespace Node

variable {entries : Entries} {here : Location} {change : Option Node → Option Node}

theorem update_single :
    (Node.dir entries).update change [name] = .dir (entries.alter change name) := by
  rw [update, Entries.alter]
  cases change (entries.lookup name) <;> rfl

theorem update_cons {rest : Location} (h : entries.lookup name = some inner) (hrest : rest ≠ []) :
    (Node.dir entries).update change (name :: rest) =
      .dir (entries.insert name (inner.update change rest)) := by
  cases rest with
  | nil => contradiction
  | cons next rest => rw [update, h]

theorem entry_update (h : node.entry here = .ok (.dir entries)) :
    (node.update change (here ++ [name])).entry here = .ok (.dir (entries.alter change name)) := by
  induction here generalizing node with
  | nil =>
    cases h
    exact congrArg Except.ok update_single
  | cons first rest ih =>
    obtain ⟨above, next, rfl, hlen, hlookup, hnext⟩ := entry_cons_ok_iff.mp h
    rw [List.cons_append, update_cons hlookup (by simp), entry_cons_ok_iff]
    refine ⟨_, next.update change (rest ++ [name]), rfl, hlen, ?_, ih hnext⟩
    rw [Entries.lookup_insert, if_pos rfl]

theorem entry_update_of_ne {first : String} {rest loc : Location}
    (h : node.entry (first :: rest) = .ok (.dir entries)) (hother : other ≠ first) :
    (node.update change (first :: rest ++ [name])).entry (other :: loc) =
      node.entry (other :: loc) := by
  obtain ⟨above, next, rfl, -, hlookup, -⟩ := entry_cons_ok_iff.mp h
  rw [List.cons_append, update_cons hlookup (by simp), entry, entry, Entries.lookup_insert,
    if_neg hother.symm]

theorem exists_update_eq (h : node.entry here = .ok (.dir entries)) :
    ∃ after, node.update change (here ++ [name]) = .dir after := by
  cases here with
  | nil =>
    cases h
    exact ⟨_, update_single⟩
  | cons first rest =>
    obtain ⟨above, next, rfl, -, hlookup, -⟩ := entry_cons_ok_iff.mp h
    exact ⟨_, update_cons hlookup (by simp)⟩

def IsFile (node : Node) : Prop := ∃ bytes, node = .file bytes

theorem shapeAt_dir_cons (entries : Entries) (name : String) (rest : Location) :
    (Node.dir entries).shapeAt (name :: rest) =
      if name.utf8ByteSize > maxName then none
      else (entries.lookup name).bind (·.shapeAt rest) := by
  rw [shapeAt, entry]
  by_cases hlong : name.utf8ByteSize > maxName
  · rw [if_pos hlong, if_pos hlong]
  · rw [if_neg hlong, if_neg hlong]
    cases entries.lookup name <;> rfl

theorem IsFile.shapeAt_eq (h : node.IsFile) (loc : Location) : node.shapeAt loc = none := by
  obtain ⟨bytes, rfl⟩ := h
  cases loc <;> rfl

theorem shapeAt_update (h : node.entry here = .ok (.dir entries)) (hnodup : entries.names.Nodup)
    (hbefore : ∀ inner ∈ entries.lookup name, inner.IsFile)
    (hafter : ∀ inner ∈ change (entries.lookup name), inner.IsFile) (loc : Location) :
    (node.update change (here ++ [name])).shapeAt loc = node.shapeAt loc := by
  induction here generalizing node loc with
  | nil =>
    cases h
    rw [List.nil_append, update_single]
    cases loc with
    | nil => rfl
    | cons first rest =>
      have hnone : ∀ inner? : Option Node, (∀ inner ∈ inner?, inner.IsFile) →
          inner?.bind (·.shapeAt rest) = none := by
        intro inner? hfile
        cases inner? with
        | none => rfl
        | some inner => exact (hfile inner rfl).shapeAt_eq rest
      rw [shapeAt_dir_cons, shapeAt_dir_cons, Entries.lookup_alter hnodup]
      by_cases hfirst : name = first
      · subst first
        rw [if_pos rfl, hnone _ hbefore, hnone _ hafter]
      · rw [if_neg hfirst]
  | cons first more ih =>
    obtain ⟨above, next, rfl, hlen, hlookup, hnext⟩ := entry_cons_ok_iff.mp h
    rw [List.cons_append, update_cons hlookup (by simp)]
    cases loc with
    | nil => rfl
    | cons other rest =>
      rw [shapeAt_dir_cons, shapeAt_dir_cons, Entries.lookup_insert]
      by_cases hother : first = other
      · subst other
        rw [if_pos rfl, hlookup, Option.bind_some, Option.bind_some, ih hnext]
      · rw [if_neg hother]

end Node

namespace FileSystem

variable {fs : FileSystem} {entries : Entries} {here : Location}
  {change : Option Node → Option Node}

theorem update_root (h : fs.entry here = .ok (.dir entries)) :
    Node.dir (fs.update (here ++ [name]) change).root =
      (Node.dir fs.root).update change (here ++ [name]) := by
  obtain ⟨root, hroot⟩ : ∃ root, (Node.dir fs.root).update change (here ++ [name]) = .dir root :=
    Node.exists_update_eq h
  rw [update, hroot]

theorem entry_update (h : fs.entry here = .ok (.dir entries)) :
    (fs.update (here ++ [name]) change).entry here = .ok (.dir (entries.alter change name)) := by
  rw [entry, update_root h]
  exact Node.entry_update h

theorem entry_update_of_ne {first : String} {rest loc : Location}
    (h : fs.entry (first :: rest) = .ok (.dir entries)) (hother : other ≠ first) :
    (fs.update (first :: rest ++ [name]) change).entry (other :: loc) =
      fs.entry (other :: loc) := by
  rw [entry, update_root h]
  exact Node.entry_update_of_ne h hother

theorem cwd_update (fs : FileSystem) (location : Location) (change : Option Node → Option Node) :
    (fs.update location change).cwd = fs.cwd := by
  rw [update]
  split <;> rfl

theorem sameTree_update (h : fs.entry here = .ok (.dir entries)) (hnodup : entries.names.Nodup)
    (hbefore : ∀ inner ∈ entries.lookup name, inner.IsFile)
    (hafter : ∀ inner ∈ change (entries.lookup name), inner.IsFile) :
    SameTree fs (fs.update (here ++ [name]) change) where
  cwd_eq := (cwd_update fs _ _).symm
  shapeAt_eq loc := by
    rw [shapeAt, shapeAt, update_root h, Node.shapeAt_update h hnodup hbefore hafter]

-- ---------------------------------------------------------------------------
-- Lookups through real directories
-- ---------------------------------------------------------------------------

theorem findFrom_through {follow : Bool} {names : List String} (h : fs.entry here = .ok node)
    (hnames : node.entry names = .ok (.dir entries)) (hplain : ∀ name ∈ names, IsPlain name)
    (budget : Nat) (rest : List String) : fs.findFrom follow budget here (names ++ rest) =
      fs.findFrom follow budget (here ++ names) rest := by
  induction names generalizing here node with
  | nil => simp
  | cons name names ih =>
    obtain ⟨⟨-, hdot, hdots, -⟩, hnamesPlain⟩ := List.forall_mem_cons.mp hplain
    obtain ⟨above, next, rfl, hlen, hlookup, hnext⟩ := Node.entry_cons_ok_iff.mp hnames
    have hname : fs.Names here name next := ⟨hdot, hdots, above, h, hlen, hlookup⟩
    have hlink : ∀ target, next ≠ .link target := by
      rintro target rfl
      cases names <;> cases hnext
    rw [List.cons_append, findFrom_step hname hlink, ih hname.entry_child hnext hnamesPlain,
      List.append_assoc]
    rfl

theorem findFrom_missing {follow : Bool} (h : fs.entry here = .ok (.dir entries))
    (hname : IsPlain name) (hlen : name.utf8ByteSize ≤ maxName)
    (hlookup : entries.lookup name = none) (budget : Nat) (rest : List String) :
    fs.findFrom follow budget here (name :: rest) = .error .noSuchFile := by
  obtain ⟨-, hdot, hdots, -⟩ := hname
  rw [findFrom, h]
  simp [hdot, hdots, Nat.not_lt.mpr hlen, hlookup]

structure Fits (name : String) : Prop where
  isPlain : IsPlain name
  size_le : name.utf8ByteSize ≤ maxName

/-- From the root, a lookup goes on in the directory that the first names lead to. -/
theorem find_through {follow : Bool} {rest : List String} (h : fs.entry here = .ok (.dir entries))
    (hplain : ∀ name ∈ here, IsPlain name)
    (hshort : (Path.atRoot (here ++ rest)).toString.utf8ByteSize < maxPath) :
    fs.find (.atRoot (here ++ rest)) follow = fs.findFrom follow maxLinks here rest := by
  have hroot : fs.entry [] = .ok (.dir fs.root) := rfl
  rw [find_eq hshort]
  exact findFrom_through hroot h hplain maxLinks rest

theorem find_missing {follow : Bool} (h : fs.entry here = .ok (.dir entries))
    (hplain : ∀ name ∈ here, IsPlain name) (hname : Fits name)
    (hshort : ((Path.atRoot here).child name).toString.utf8ByteSize < maxPath)
    (hlookup : entries.lookup name = none) :
    fs.find ((Path.atRoot here).child name) follow = .error .noSuchFile :=
  (find_through h hplain hshort).trans
    (findFrom_missing h hname.isPlain hname.size_le hlookup maxLinks [])

-- ---------------------------------------------------------------------------
-- New directories
-- ---------------------------------------------------------------------------

def makeDir (state : FileSystem × Path) (name : String) : FileSystem × Path :=
  let here := state.2.child name
  match state.1.find here true with
  | .ok _ => (state.1, here)
  | .error _ =>
    match state.1.find here.parent true with
    | .ok (location, .dir _) =>
      (state.1.update (location ++ [name]) fun
        | some node => some node
        | none => some (.dir .nil), here)
    | _ => (state.1, here)

theorem makeDirs_eq (fs : FileSystem) (path : Path) :
    fs.makeDirs path = (path.parts.foldl makeDir (fs, ⟨path.anchor, []⟩)).1 := rfl

theorem parent_child (here : Location) (name : String) :
    ((Path.atRoot here).child name).parent = .atRoot here := by
  simp [Path.child, Path.parent, Path.atRoot]

theorem makeDir_of_find {path : Path} (h : fs.find (path.child name) true = .ok (here, node)) :
    makeDir (fs, path) name = (fs, path.child name) := by
  simp only [makeDir, h]

theorem exists_makeDir (h : fs.entry here = .ok (.dir entries))
    (hplain : ∀ name ∈ here, IsPlain name) (hname : Fits name)
    (hhere : (Path.atRoot here).toString.utf8ByteSize < maxPath)
    (hshort : ((Path.atRoot here).child name).toString.utf8ByteSize < maxPath)
    (hlookup : entries.lookup name = none) :
    ∃ fs', makeDir (fs, .atRoot here) name = (fs', (Path.atRoot here).child name) ∧
      fs'.entry (here ++ [name]) = .ok (.dir .nil) ∧ fs'.cwd = fs.cwd ∧
      ∀ first ∈ here.head?, ∀ other ≠ first, ∀ loc,
        fs'.entry (other :: loc) = fs.entry (other :: loc) := by
  have hself : fs.find (.atRoot here) true = .ok (here, .dir entries) :=
    find_atRoot hhere h hplain (Node.dir_ne_link entries)
  refine ⟨fs.update (here ++ [name]) fun
    | some node => some node
    | none => some (.dir .nil), ?_, ?_, cwd_update fs _ _, ?_⟩
  · simp only [makeDir, find_missing h hplain hname hshort hlookup, parent_child, hself]
  · rw [entry_append_ok (entry_update h), Node.entry_cons_ok_iff]
    refine ⟨_, _, rfl, hname.size_le, ?_, rfl⟩
    rw [Entries.alter, hlookup, Entries.lookup_insert, if_pos rfl]
  · intro first hfirst other hother loc
    cases here with
    | nil => cases hfirst
    | cons top rest =>
      cases hfirst
      exact entry_update_of_ne h hother

-- ---------------------------------------------------------------------------
-- A directory with room
-- ---------------------------------------------------------------------------

/-- A directory that is reached without following a link, and where the path of an entry is never
too long. -/
structure Room (fs : FileSystem) (here : Location) (entries : Entries) : Prop where
  entry : fs.entry here = .ok (.dir entries)
  isPlain : ∀ name ∈ here, IsPlain name
  short : (Path.atRoot here).toString.utf8ByteSize + 1 + maxName < maxPath
  nodup : entries.names.Nodup

theorem size_joinWith_concat (names : List String) (name : String) :
    (Text.joinWith "/" (names ++ [name])).utf8ByteSize ≤
      (Text.joinWith "/" names).utf8ByteSize + 1 + name.utf8ByteSize := by
  have hslash : "/".utf8ByteSize = 1 := rfl
  induction names with
  | nil => simp [Text.joinWith]
  | cons first rest ih =>
    cases rest with
    | nil => simp [Text.joinWith, String.utf8ByteSize_append, hslash]
    | cons next more =>
      simp only [List.cons_append, Text.joinWith, String.utf8ByteSize_append] at ih ⊢
      omega

theorem size_child (here : Location) (name : String) :
    ((Path.atRoot here).child name).toString.utf8ByteSize ≤
      (Path.atRoot here).toString.utf8ByteSize + 1 + name.utf8ByteSize := by
  have hsize := size_joinWith_concat here name
  have htext : ∀ names, (Path.atRoot names).toString = "/" ++ Text.joinWith "/" names :=
    fun _ => rfl
  show (Path.atRoot (here ++ [name])).toString.utf8ByteSize ≤ _
  rw [htext, htext, String.utf8ByteSize_append, String.utf8ByteSize_append]
  omega

namespace Room

variable (h : fs.Room here entries)

include h

theorem child_short (hname : Fits name) :
    ((Path.atRoot here).child name).toString.utf8ByteSize < maxPath := by
  have hshort := h.short
  have hchild := size_child here name
  have hsize := hname.size_le
  omega

theorem find_self : fs.find (.atRoot here) true = .ok (here, .dir entries) := by
  have hshort := h.short
  exact find_atRoot (by omega) h.entry h.isPlain (Node.dir_ne_link entries)

theorem find_child {follow : Bool} (hname : Fits name)
    (hfile : ∀ inner ∈ entries.lookup name, inner.IsFile) :
    fs.find ((Path.atRoot here).child name) follow =
      match entries.lookup name with
      | some inner => .ok (here ++ [name], inner)
      | none => .error .noSuchFile := by
  cases hlookup : entries.lookup name with
  | some inner =>
    obtain ⟨bytes, rfl⟩ := hfile inner hlookup
    have hentry : fs.entry (here ++ [name]) = .ok (.file bytes) := by
      rw [entry_append_ok h.entry, Node.entry_cons_ok_iff]
      exact ⟨entries, _, rfl, hname.size_le, hlookup, rfl⟩
    refine find_atRoot (h.child_short hname) hentry ?_ (Node.file_ne_link bytes)
    intro other hother
    rcases List.mem_append.mp hother with hother | hother
    · exact h.isPlain other hother
    · exact List.mem_singleton.mp hother ▸ hname.isPlain
  | none =>
    exact find_missing h.entry h.isPlain hname (h.child_short hname) hlookup

theorem writeBytes_child (hname : Fits name)
    (hfile : ∀ inner ∈ entries.lookup name, inner.IsFile) (bytes : List UInt8) :
    fs.writeBytes ((Path.atRoot here).child name) bytes =
      .ok (fs.update (here ++ [name]) fun _ => some (.file bytes)) := by
  have hplace : FileSystem.writeBytes.place fs maxLinks ((Path.atRoot here).child name) =
      .ok (here ++ [name]) := by
    rw [writeBytes.place, h.find_child hname hfile]
    cases hlookup : entries.lookup name with
    | some inner =>
      obtain ⟨bytes, rfl⟩ := hfile inner hlookup
      rfl
    | none =>
      have hlast : ((Path.atRoot here).child name).parts.getLast? = some name := by
        simp [Path.child]
      have hdots : name ≠ ".." := hname.isPlain.2.2.1
      simp only [hlast, parent_child, h.find_self]
  rw [writeBytes, hplace]

theorem remove_child (hname : Fits name) {bytes : List UInt8}
    (hlookup : entries.lookup name = some (.file bytes)) :
    fs.remove ((Path.atRoot here).child name) =
      .ok (fs.update (here ++ [name]) fun _ => none) := by
  have hfile : ∀ inner ∈ entries.lookup name, inner.IsFile := by
    rw [hlookup]
    rintro _ ⟨⟩
    exact ⟨bytes, rfl⟩
  rw [remove, h.find_child hname hfile, hlookup]

theorem put_child (name : String) (node : Node) :
    fs.put ((Path.atRoot here).child name) node =
      fs.update (here ++ [name]) fun _ => some node := by
  have hlast : ((Path.atRoot here).child name).name = name := by
    simp [Path.child, Path.name]
  rw [put, parent_child, h.find_self, hlast]

theorem update (change : Option Node → Option Node) (name : String) :
    (fs.update (here ++ [name]) change).Room here (entries.alter change name) :=
  ⟨entry_update h.entry, h.isPlain, h.short, Entries.nodup_alter h.nodup change name⟩

end Room

-- ---------------------------------------------------------------------------
-- A directory of files
-- ---------------------------------------------------------------------------

/-- A directory with room holds nothing but the files with some contents. -/
def HoldsFiles (fs : FileSystem) (here : Location) (contents : String → Option (List UInt8)) :
    Prop :=
  ∃ entries, fs.Room here entries ∧ ∀ name, entries.lookup name = (contents name).map .file

namespace HoldsFiles

variable {contents : String → Option (List UInt8)} {bytes : List UInt8}

theorem isFile_of_mem_map {bytes? : Option (List UInt8)} (h : inner ∈ bytes?.map Node.file) :
    inner.IsFile := by
  obtain ⟨bytes, -, rfl⟩ := Option.map_eq_some_iff.mp h
  exact ⟨bytes, rfl⟩

theorem isFile_of_mem_lookup (hlookup : ∀ name, entries.lookup name = (contents name).map .file)
    (hinner : inner ∈ entries.lookup name) : inner.IsFile := by
  rw [hlookup] at hinner
  exact isFile_of_mem_map hinner

theorem update (h : fs.HoldsFiles here contents) (name : String) (bytes? : Option (List UInt8)) :
    (fs.update (here ++ [name]) fun _ => bytes?.map .file).HoldsFiles here
        (Function.update contents name bytes?) ∧
      SameTree fs (fs.update (here ++ [name]) fun _ => bytes?.map .file) := by
  obtain ⟨entries, hroom, hlookup⟩ := h
  refine ⟨⟨_, hroom.update _ name, fun other => ?_⟩, sameTree_update hroom.entry hroom.nodup
    (fun inner => isFile_of_mem_lookup hlookup) (fun inner => isFile_of_mem_map)⟩
  · rw [Entries.lookup_alter hroom.nodup, hlookup]
    by_cases hother : name = other
    · subst other
      simp
    · rw [if_neg hother, Function.update_of_ne (Ne.symm hother)]

theorem writeBytes (h : fs.HoldsFiles here contents) (hname : Fits name) (bytes : List UInt8) :
    ∃ fs', fs.writeBytes ((Path.atRoot here).child name) bytes = .ok fs' ∧
      fs'.HoldsFiles here (Function.update contents name (some bytes)) ∧ SameTree fs fs' := by
  obtain ⟨entries, hroom, hlookup⟩ := h
  exact ⟨_, hroom.writeBytes_child hname (fun _ => isFile_of_mem_lookup hlookup) bytes,
    update ⟨entries, hroom, hlookup⟩ name (some bytes)⟩

theorem stat (h : fs.HoldsFiles here contents) (hname : Fits name)
    (hbytes : contents name = some bytes) :
    fs.stat ((Path.atRoot here).child name) = .ok (.file bytes) := by
  obtain ⟨entries, hroom, hlookup⟩ := h
  rw [FileSystem.stat, hroom.find_child hname (fun _ => isFile_of_mem_lookup hlookup), hlookup,
    hbytes]
  rfl

theorem readBytes (h : fs.HoldsFiles here contents) (hname : Fits name)
    (hbytes : contents name = some bytes) :
    fs.readBytes ((Path.atRoot here).child name) = .ok bytes := by
  rw [FileSystem.readBytes, h.stat hname hbytes]

theorem remove (h : fs.HoldsFiles here contents) (hname : Fits name)
    (hbytes : contents name = some bytes) :
    ∃ fs', fs.remove ((Path.atRoot here).child name) = .ok fs' ∧
      fs'.HoldsFiles here (Function.update contents name none) ∧ SameTree fs fs' := by
  obtain ⟨entries, hroom, hlookup⟩ := h
  exact ⟨_, hroom.remove_child hname ((hlookup name).trans (congrArg _ hbytes)),
    update ⟨entries, hroom, hlookup⟩ name none⟩

theorem put (h : fs.HoldsFiles here contents) (name : String) (bytes : List UInt8) :
    (fs.put ((Path.atRoot here).child name) (.file bytes)).HoldsFiles here
        (Function.update contents name (some bytes)) ∧
      SameTree fs (fs.put ((Path.atRoot here).child name) (.file bytes)) := by
  obtain ⟨entries, hroom, hlookup⟩ := h
  rw [hroom.put_child]
  exact update ⟨entries, hroom, hlookup⟩ name (some bytes)

theorem exists_names (h : fs.HoldsFiles here contents) : ∃ entries,
    fs.stat (.atRoot here) = .ok (.dir entries) ∧ entries.names.Nodup ∧
      ∀ name, name ∈ entries.names ↔ ∃ bytes, contents name = some bytes := by
  obtain ⟨entries, hroom, hlookup⟩ := h
  refine ⟨entries, ?_, hroom.nodup, fun name => ?_⟩
  · rw [FileSystem.stat, hroom.find_self]
  · rw [Entries.mem_names_iff, hlookup]
    cases contents name <;> simp

theorem of_entry_eq {fs' : FileSystem} (h : fs.HoldsFiles here contents)
    (hentry : fs'.entry here = fs.entry here) : fs'.HoldsFiles here contents := by
  obtain ⟨entries, hroom, hlookup⟩ := h
  exact ⟨entries, ⟨hentry.trans hroom.entry, hroom.isPlain, hroom.short, hroom.nodup⟩, hlookup⟩

end HoldsFiles

end FileSystem

end UnsafeAudit
