import UnsafeAudit.Proofs.FileSystem.Unresolved

/-!
# A file system in which there is nothing

Where nothing is there, no part of a path is a link, and a path of plain names
is its own canonical path (`canonical_bare`).
-/

namespace UnsafeAudit.FileSystem

def bare : FileSystem := ⟨.nil, []⟩

variable {names : List String} {name : String}

theorem entry_bare (here : Location) (name : String) :
    ∃ cause, bare.entry (here ++ [name]) = .error cause := by
  have hcons : ∀ first rest, ∃ cause, bare.entry (first :: rest) = .error cause := by
    intro first rest
    by_cases hlong : first.utf8ByteSize > maxName
    · exact ⟨.nameTooLong, by simp [entry, Node.entry, hlong]⟩
    · exact ⟨.noSuchFile, by simp [entry, Node.entry, hlong, bare, Entries.lookup]⟩
  cases here with
  | nil => exact hcons name []
  | cons first rest => exact hcons first (rest ++ [name])

theorem eq_dir_of_entry_bare {loc : Location} {node : Node} (h : bare.entry loc = .ok node) :
    node = .dir .nil := by
  rcases List.eq_nil_or_concat loc with rfl | ⟨front, name, rfl⟩
  · exact (Except.ok.inj h).symm
  · obtain ⟨cause, hnone⟩ := entry_bare front name
    rw [List.concat_eq_append, hnone] at h
    cases h

theorem walkLinks_bare_strict (h : IsPlain name) (here : Reached) (rest : List Todo) :
    ∃ cause, bare.walkLinks true [] here (.name name :: rest) =
      .refused cause (here.into name) := by
  obtain ⟨cause, hentry⟩ := entry_bare here.place name
  exact ⟨cause, walkLinks_missing h hentry⟩

theorem resolve_bare (h : ∀ name ∈ names, IsPlain name) :
    bare.resolve (.atRoot names) = .ok (.atRoot names) := (unlinked_of_links rfl h).resolve

/-- A path of plain names is its own canonical path. Strict resolution fails at its first name,
and the lenient one keeps them all. -/
theorem canonical_bare (h : ∀ name ∈ names, IsPlain name) :
    bare.canonical (.atRoot names) = .ok (.atRoot names) := by
  cases names with
  | nil =>
    have hroot : bare.entry [] = .ok (.dir .nil) := rfl
    exact canonical_atRoot hroot h (Node.dir_ne_link _)
  | cons name rest =>
    obtain ⟨cause, hwalk⟩ := walkLinks_bare_strict (h name List.mem_cons_self)
      (bare.startOf (.atRoot (name :: rest))) (rest.map .name)
    exact (canonical_of_refused hwalk).trans (resolve_bare h)

theorem stat_bare_ne_file (path : Path) (bytes : List UInt8) :
    bare.stat path ≠ .ok (.file bytes) := by
  intro h
  obtain ⟨loc, hleads⟩ := leadsTo_of_stat_ok h
  cases eq_dir_of_entry_bare hleads.entry

end UnsafeAudit.FileSystem
