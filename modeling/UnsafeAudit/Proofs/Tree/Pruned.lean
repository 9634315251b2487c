import UnsafeAudit.Proofs.Tree.Shown

/-!
# Pruned trees

The tree that does not repeat what was shown is got from the one that does: at every later line of
a package, what stands below it is left out (`walk_eq_pruned`). The one walk stops at what was
shown, the other one only at what is on its path. But what is on the path was shown, so that the
first walk stops wherever the second one does.
-/

namespace UnsafeAudit

namespace TreeLines

/-- Goes through the lines in order. Where a package comes that was there before, all lines below
it are left out. -/
def pruned (shown : List PackageId) : List TreeLine → List TreeLine
  | [] => []
  | .group line :: rest => .group line :: pruned shown rest
  | .package line :: rest =>
    let left := if line.packageId ∈ shown then behind line.depth rest else rest
    .package line :: pruned (line.packageId :: shown) left
termination_by lines => lines.length
decreasing_by
  · exact Nat.lt_succ_self _
  · split
    · exact Nat.lt_succ_of_le (List.drop_sublist _ _).length_le
    · exact Nat.lt_succ_self _

theorem pruned_of_mem {line : PackageLine} (h : line.packageId ∈ shown) (rest : List TreeLine) :
    pruned shown (.package line :: rest) =
      .package line :: pruned (line.packageId :: shown) (behind line.depth rest) := by
  rw [pruned, if_pos h]

theorem pruned_of_not_mem {line : PackageLine} (h : line.packageId ∉ shown)
    (rest : List TreeLine) :
    pruned shown (.package line :: rest) =
      .package line :: pruned (line.packageId :: shown) rest := by
  rw [pruned, if_neg h]

theorem pruned_sublist (shown : List PackageId) (lines : List TreeLine) :
    (pruned shown lines).Sublist lines := by
  fun_induction pruned shown lines with
  | case1 => exact .slnil
  | case2 shown line rest ih => exact ih.cons_cons _
  | case3 shown line rest left ih =>
    have hleft : left.Sublist rest := by
      simp only [left]
      split
      · exact List.drop_sublist _ _
      · exact .refl _
    exact (ih.trans hleft).cons_cons _

end TreeLines

namespace Outline

/-- Leaves out what stands below every package that was shown before. -/
def pruned (shown : List PackageId) : Outline → Outline
  | nil => nil
  | header kind rest => header kind (rest.pruned shown)
  | child id continues below rest =>
    if id ∈ shown then child id continues nil (rest.pruned (id :: shown))
    else
      let kept := below.pruned (id :: shown)
      child id continues kept (rest.pruned (kept.ids.reverse ++ id :: shown))

theorem pruned_lines (options : TreeOptions) (verdictOf : PackageId → Verdict) {o : Outline}
    (h : o.Headed) (shown : List PackageId) (ht : TreeLines.depthOf tail ≤ levels.length) :
    TreeLines.pruned shown (o.lines options verdictOf levels ++ tail) =
      (o.pruned shown).lines options verdictOf levels ++
        TreeLines.pruned ((o.pruned shown).ids.reverse ++ shown) tail := by
  induction o generalizing shown levels tail with
  | nil => rfl
  | header kind rest ih => simp [lines, pruned, ids, TreeLines.pruned, ih h.2 shown ht]
  | child id continues below rest ihb ihr =>
    have hrest : TreeLines.depthOf (rest.lines options verdictOf levels ++ tail) ≤
        (levels ++ [continues]).length := by
      simpa using depthOf_lines_le options verdictOf h.2 ht
    simp only [lines, List.cons_append, List.append_assoc, pruned]
    by_cases hid : id ∈ shown
    · rw [if_pos hid, TreeLines.pruned_of_mem hid, PackageLine.packageId_at,
        PackageLine.depth_at, behind_lines options verdictOf h.1 (Nat.le_refl _),
        TreeLines.behind_eq_self hrest, ihr h.2 _ ht]
      simp [lines, ids]
    · rw [if_neg hid, TreeLines.pruned_of_not_mem hid, PackageLine.packageId_at, ihb h.1 _ hrest,
        ihr h.2 _ ht]
      simp [lines, ids]

end Outline

theorem Occurrence.pruned_lines (options : TreeOptions) (verdictOf : PackageId → Verdict)
    {here : Occurrence} (h : here.below.Headed) :
    TreeLines.pruned [] (here.lines options verdictOf) =
      Occurrence.lines options verdictOf { here with below := here.below.pruned [here.id] } := by
  have hbelow := Outline.pruned_lines options verdictOf h [here.id]
    (show TreeLines.depthOf [] ≤ here.levels.length from Nat.zero_le _)
  simp only [List.append_nil, TreeLines.pruned] at hbelow
  rw [lines, TreeLines.pruned_of_not_mem List.not_mem_nil, line, PackageLine.packageId_at, hbelow]
  rfl

/-- What the walk that repeats nothing grows, the other one grows and more, which is pruned. -/
theorem Grows.pruned_eq {graph : DependencyGraph} {direction : Direction}
    (h : Grows graph direction false path shown branches o) (hps : ∀ p ∈ path, p ∈ shown)
    (hfull : Grows graph direction true path shown' branches full) : full.pruned shown = o := by
  induction h generalizing shown' full with
  | nil =>
    cases hfull
    rfl
  | header _ ih =>
    cases hfull with
    | header hrest => rw [Outline.pruned, ih hps hrest]
  | @listed path shown rest o continues id hl _ ih =>
    have hid : id ∈ shown := hl.elim (hps id) (·.2)
    have hps : ∀ p ∈ path, p ∈ id :: shown := fun p hp => List.mem_cons_of_mem _ (hps p hp)
    cases hfull with
    | listed _ hrest => rw [Outline.pruned, if_pos hid, ih hps hrest]
    | expanded _ _ _ hrest => rw [Outline.pruned, if_pos hid, ih hps hrest]
  | @expanded path shown below rest o continues id hp hs _ _ ihb ihr =>
    have hid : id ∉ shown := hs rfl
    cases hfull with
    | listed hl _ => exact absurd (hl.resolve_right (by simp)) hp
    | expanded _ _ hbelow hrest =>
      have hb := ihb (fun p hp => by grind) hbelow
      have hr := ihr (fun p hp => by simp [hps p hp]) hrest
      rw [Outline.pruned, if_neg hid]
      simp only [hb, hr]

namespace DependencyGraph

/-- The walk that does not repeat what was shown gives the lines of the one that does, in their
order and unchanged, but for all lines below each package line whose package came before. Both show
the same packages. -/
theorem walk_eq_pruned (graph : DependencyGraph) (options : TreeOptions)
    (verdictOf : PackageId → Verdict) (root : PackageId) :
    let full := graph.walk { options with all := true } verdictOf root
    let short := graph.walk { options with all := false } verdictOf root
    short = TreeLines.pruned [] full ∧ short.Sublist full ∧
      ∀ id, id ∈ TreeLines.ids short ↔ id ∈ TreeLines.ids full := by
  intro full short
  obtain ⟨whole, hwhole, hfull⟩ :=
    walk_eq_lines graph { options with all := true } verdictOf root
  obtain ⟨below, hbelow, hshort⟩ :=
    walk_eq_lines graph { options with all := false } verdictOf root
  have hheaded := hwhole.headed (graph.headed_branches options.direction root)
  have hpruned : whole.pruned [root] = below := hbelow.pruned_eq (fun _ => id) hwhole
  have heq : short = TreeLines.pruned [] full := by
    rw [show full = _ from hfull, Occurrence.pruned_lines _ _ hheaded, hpruned]
    exact hshort.trans (Occurrence.lines_congr verdictOf (by rfl) (by rfl) _)
  refine ⟨heq, heq ▸ TreeLines.pruned_sublist [] full, fun id => ?_⟩
  rw [mem_ids_walk_iff, mem_ids_walk_iff]

end DependencyGraph

end UnsafeAudit
