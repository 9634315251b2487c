import Mathlib.Tactic.SplitIfs
import UnsafeAudit.Proofs.Table.Keys
import UnsafeAudit.Verdict.Basic

/-!
# Verdicts on further files

What metrics must list for each of the verdicts, and what becomes of a verdict
when further files are listed. Unsafe code that was found stays found, whatever is
listed besides (`unsafe_of_subset`), and the order of the files does not matter
(`verdict_eq_of_perm`). Where the further files are no entry points, whether unsafe
code is forbidden stays as it is too (`PackageMetrics.Within`).
-/

namespace UnsafeAudit

namespace Verdict

variable {metrics : PackageMetrics}

theorem ofMetrics_eq_forbids_iff :
    ofMetrics (some metrics) = .forbidsUnsafeEverywhere ↔
      (∃ entry, entry ∈ metrics.entryPoints) ∧
        ∀ entry ∈ metrics.entryPoints, entry.usage.forbidsUnsafe = true := by
  have hne : (∃ entry, entry ∈ metrics.entryPoints) ↔ metrics.entryPoints ≠ [] :=
    ⟨fun ⟨_, h⟩ => List.ne_nil_of_mem h, List.exists_mem_of_ne_nil _⟩
  rw [hne, ofMetrics]
  split_ifs with hnone hforbids hunsafe
  · simp [hnone]
  · exact ⟨fun _ => ⟨hnone, hforbids⟩, fun _ => rfl⟩
  · exact ⟨nofun, fun h => absurd h.2 hforbids⟩
  · exact ⟨nofun, fun h => absurd h.2 hforbids⟩

theorem ofMetrics_eq_unsafe_iff :
    ofMetrics (some metrics) = .unsafeDetected ↔
      (∃ entry ∈ metrics.entryPoints, entry.usage.forbidsUnsafe = false) ∧
        ∃ listed ∈ metrics.files, listed.2.usage.counts.hasUnsafe = true := by
  rw [ofMetrics]
  split_ifs with hnone hforbids hunsafe
  · simp [hnone]
  · refine ⟨nofun, ?_⟩
    rintro ⟨⟨entry, hentry, hallows⟩, -⟩
    rw [hforbids entry hentry] at hallows
    cases hallows
  · exact ⟨fun _ => ⟨by simpa using hforbids, hunsafe⟩, fun _ => rfl⟩
  · exact ⟨nofun, fun h => absurd h.2 hunsafe⟩

theorem eq_none_of_ne {verdict : Verdict} (hf : verdict ≠ .forbidsUnsafeEverywhere)
    (hu : verdict ≠ .unsafeDetected) : verdict = .noneDetectedButNotForbidden := by
  cases verdict with
  | forbidsUnsafeEverywhere => exact absurd rfl hf
  | noneDetectedButNotForbidden => rfl
  | unsafeDetected => exact absurd rfl hu

end Verdict

namespace PackageMetrics

theorem forbids_iff_of_entryPoints {metrics others : PackageMetrics}
    (h : ∀ entry, entry ∈ metrics.entryPoints ↔ entry ∈ others.entryPoints) :
    Verdict.ofMetrics (some metrics) = .forbidsUnsafeEverywhere ↔
      Verdict.ofMetrics (some others) = .forbidsUnsafeEverywhere := by
  simp only [Verdict.ofMetrics_eq_forbids_iff, h]

theorem mem_entryPoints {metrics : PackageMetrics} {entry : FileMetrics} :
    entry ∈ metrics.entryPoints ↔
      (∃ listed ∈ metrics.files, listed.2 = entry) ∧ entry.isEntryPoint = true := by
  rw [entryPoints, List.mem_filter, List.mem_map]

theorem unsafe_of_subset {few many : PackageMetrics} (h : ∀ listed ∈ few.files, listed ∈ many.files)
    (hfew : Verdict.ofMetrics (some few) = .unsafeDetected) :
    Verdict.ofMetrics (some many) = .unsafeDetected := by
  rw [Verdict.ofMetrics_eq_unsafe_iff] at hfew ⊢
  obtain ⟨⟨entry, hentry, hallows⟩, listed, hlisted, hunsafe⟩ := hfew
  obtain ⟨⟨source, hsource, heq⟩, hrole⟩ := mem_entryPoints.mp hentry
  exact ⟨⟨entry, mem_entryPoints.mpr ⟨⟨source, h source hsource, heq⟩, hrole⟩, hallows⟩,
    listed, h listed hlisted, hunsafe⟩

/-- All files of `few` are listed in `many` as well, and what `many` lists besides are no entry
points. -/
structure Within (few many : PackageMetrics) : Prop where
  subset : ∀ listed ∈ few.files, listed ∈ many.files
  entry : ∀ listed ∈ many.files, listed.2.isEntryPoint = true → listed ∈ few.files

namespace Within

variable {few many : PackageMetrics}

theorem mem_entryPoints (h : few.Within many) (entry : FileMetrics) :
    entry ∈ few.entryPoints ↔ entry ∈ many.entryPoints := by
  simp only [entryPoints, List.mem_filter, List.mem_map]
  constructor
  · rintro ⟨⟨listed, hmem, rfl⟩, hentry⟩
    exact ⟨⟨listed, h.subset listed hmem, rfl⟩, hentry⟩
  · rintro ⟨⟨listed, hmem, rfl⟩, hentry⟩
    exact ⟨⟨listed, h.entry listed hmem hentry, rfl⟩, hentry⟩

theorem forbids_iff (h : few.Within many) :
    Verdict.ofMetrics (some few) = .forbidsUnsafeEverywhere ↔
      Verdict.ofMetrics (some many) = .forbidsUnsafeEverywhere :=
  forbids_iff_of_entryPoints h.mem_entryPoints

theorem unsafe_of_unsafe (h : few.Within many)
    (hfew : Verdict.ofMetrics (some few) = .unsafeDetected) :
    Verdict.ofMetrics (some many) = .unsafeDetected := unsafe_of_subset h.subset hfew

theorem none_of_none (h : few.Within many)
    (hmany : Verdict.ofMetrics (some many) = .noneDetectedButNotForbidden) :
    Verdict.ofMetrics (some few) = .noneDetectedButNotForbidden := by
  refine Verdict.eq_none_of_ne (fun hf => ?_) fun hu => ?_
  · rw [h.forbids_iff.mp hf] at hmany
    cases hmany
  · rw [h.unsafe_of_unsafe hu] at hmany
    cases hmany

/-- With further files a verdict stays, or unsafe code is found where none was. -/
theorem eq_or_unsafe (h : few.Within many) :
    Verdict.ofMetrics (some many) = Verdict.ofMetrics (some few) ∨
      Verdict.ofMetrics (some many) = .unsafeDetected ∧
        Verdict.ofMetrics (some few) = .noneDetectedButNotForbidden := by
  cases hfew : Verdict.ofMetrics (some few) with
  | forbidsUnsafeEverywhere => exact .inl (h.forbids_iff.mp hfew)
  | unsafeDetected => exact .inl (h.unsafe_of_unsafe hfew)
  | noneDetectedButNotForbidden =>
    cases hmany : Verdict.ofMetrics (some many) with
    | noneDetectedButNotForbidden => exact .inl rfl
    | unsafeDetected => exact .inr ⟨rfl, rfl⟩
    | forbidsUnsafeEverywhere =>
      rw [h.forbids_iff.mpr hmany] at hfew
      cases hfew

theorem verdict_eq (h : few.Within many) (h' : many.Within few) :
    Verdict.ofMetrics (some many) = Verdict.ofMetrics (some few) := by
  refine h.eq_or_unsafe.resolve_right fun ⟨hmany, hfew⟩ => ?_
  rw [h'.unsafe_of_unsafe hmany] at hfew
  cases hfew

end Within

theorem verdict_eq_of_perm {metrics others : PackageMetrics} (h : metrics.files.Perm others.files) :
    Verdict.ofMetrics (some others) = Verdict.ofMetrics (some metrics) := by
  have hwithin : metrics.Within others :=
    ⟨fun listed => h.mem_iff.mp, fun listed hlisted _ => h.mem_iff.mpr hlisted⟩
  have hwithin' : others.Within metrics :=
    ⟨fun listed => h.mem_iff.mpr, fun listed hlisted _ => h.mem_iff.mp hlisted⟩
  exact hwithin.verdict_eq hwithin'

-- ---------------------------------------------------------------------------
-- Adding files
-- ---------------------------------------------------------------------------

/-- Lists a file, in the place of what is listed for the path already. -/
def add (metrics : PackageMetrics) (listed : Path × FileMetrics) : PackageMetrics :=
  { metrics with files := Table.put (fun a b => a.1 = b.1) listed metrics.files }

variable {metrics : PackageMetrics} {listed : Path × FileMetrics}
  {added : List (Path × FileMetrics)}

theorem files_add (h : listed.1 ∉ metrics.files.map (·.1)) :
    (metrics.add listed).files = metrics.files ++ [listed] :=
  Table.put_of_not_mem (fun _ _ => rfl) h

theorem files_foldl_add (hnodup : (added.map (·.1)).Nodup)
    (hnew : ∀ listed ∈ added, listed.1 ∉ metrics.files.map (·.1)) :
    (added.foldl add metrics).files = metrics.files ++ added := by
  induction added generalizing metrics with
  | nil => simp
  | cons first rest ih =>
    obtain ⟨hfirst, hrest⟩ := List.nodup_cons.mp hnodup
    have hfiles := files_add (hnew first List.mem_cons_self)
    rw [List.foldl_cons, ih hrest, hfiles, ← List.append_cons]
    intro listed hlisted
    rw [hfiles, List.map_append, List.mem_append, not_or]
    refine ⟨hnew listed (List.mem_cons_of_mem _ hlisted), ?_⟩
    rw [List.map_singleton, List.mem_singleton]
    exact fun heq => hfirst (List.mem_map.mpr ⟨listed, hlisted, heq⟩)

theorem within_add (h : listed.1 ∉ metrics.files.map (·.1))
    (hrole : listed.2.isEntryPoint = false) : metrics.Within (metrics.add listed) := by
  constructor
  case subset =>
    intro known hknown
    rw [files_add h]
    exact List.mem_append_left _ hknown
  case entry =>
    intro known hknown hentry
    rw [files_add h] at hknown
    refine (List.mem_append.mp hknown).resolve_right fun hadded => ?_
    rw [List.mem_singleton.mp hadded, hrole] at hentry
    cases hentry

theorem unsafe_add (h : listed.1 ∉ metrics.files.map (·.1))
    (hfound : Verdict.ofMetrics (some metrics) = .unsafeDetected) :
    Verdict.ofMetrics (some (metrics.add listed)) = .unsafeDetected := by
  refine unsafe_of_subset (fun known hknown => ?_) hfound
  rw [files_add h]
  exact List.mem_append_left _ hknown

theorem verdict_foldl_add_perm {others : List (Path × FileMetrics)} (hperm : added.Perm others)
    (hnodup : (added.map (·.1)).Nodup)
    (hnew : ∀ listed ∈ added, listed.1 ∉ metrics.files.map (·.1)) :
    Verdict.ofMetrics (some (others.foldl add metrics)) =
      Verdict.ofMetrics (some (added.foldl add metrics)) := by
  refine verdict_eq_of_perm ?_
  have hnodup' := (hperm.map (·.1)).nodup_iff.mp hnodup
  rw [files_foldl_add hnodup hnew,
    files_foldl_add hnodup' fun listed hlisted => hnew listed (hperm.mem_iff.mpr hlisted)]
  exact hperm.append_left _

end PackageMetrics

end UnsafeAudit
