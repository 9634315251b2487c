import Mathlib.Data.Set.Card
import UnsafeAudit.Proofs.Tree.Growth

/-!
# Truncated trees

A walk that does not repeat what was shown expands every package that it
reaches once, at its first line (`walk_expands_reached_once`). The packages on
the path were shown, so that the path plays no part.
-/

namespace UnsafeAudit

variable {graph : DependencyGraph} {direction : Direction}

/-- Each occurrence is expanded if it is the first of its package, other than the packages already
shown, and has nothing below it if it is not. -/
def ExpandedOnce (graph : DependencyGraph) (direction : Direction) (shown : List PackageId) :
    List Occurrence → Prop
  | [] => True
  | here :: rest =>
    (if here.id ∈ shown then here.below = .nil
      else here.below.branches = graph.branches direction here.id) ∧
      ExpandedOnce graph direction (here.id :: shown) rest

theorem expandedOnce_append :
    ExpandedOnce graph direction shown (first ++ rest) ↔
      ExpandedOnce graph direction shown first ∧
        ExpandedOnce graph direction ((first.map (·.id)).reverse ++ shown) rest := by
  induction first generalizing shown with
  | nil => simp [ExpandedOnce]
  | cons here first ih => simp [ExpandedOnce, ih, and_assoc]

namespace Outline

/-- The hops that the lines of an outline below `p` stand for, each with the package from which it
is taken. -/
def steps (p : PackageId) (kind : DependencyKind) : Outline → List (PackageId × Hop)
  | nil => []
  | header kind rest => rest.steps p kind
  | child id _ below rest => (p, ⟨kind, id⟩) :: below.steps id .normal ++ rest.steps p kind

theorem map_target_steps (o : Outline) (p : PackageId) (kind : DependencyKind) :
    (o.steps p kind).map (·.2.target) = o.ids := by
  induction o generalizing p kind with
  | nil => rfl
  | header next rest ih => exact ih p next
  | child id continues below rest ihb ihr => simp [steps, ids, ihb, ihr]

end Outline

namespace Grows

theorem expandedOnce (h : Grows graph direction false path shown branches o)
    (hps : ∀ p ∈ path, p ∈ shown) (levels : List Bool) :
    ExpandedOnce graph direction shown (o.occurrences levels) := by
  induction h generalizing levels with
  | nil => trivial
  | header _ ih => exact ih hps levels
  | listed hl _ ih =>
    have hid := hl.elim (hps _) (·.2)
    exact ⟨by simp [hid], ih (fun p hp => List.mem_cons_of_mem _ (hps p hp)) levels⟩
  | @expanded path shown below rest o continues id _ hs hbelow _ ihb ihr =>
    refine ⟨by simp [hs rfl, hbelow.branches_eq], expandedOnce_append.mpr ⟨?_, ?_⟩⟩
    · refine ihb (fun p hp => ?_) _
      rcases List.mem_cons.mp hp with rfl | hp
      · exact List.mem_cons_self
      · exact List.mem_cons_of_mem _ (hps p hp)
    · rw [Outline.map_id_occurrences]
      exact ihr (fun p hp => by simp [hps p hp]) _

/-- The hops of an outline are those that it starts with and all hops from what it expands. -/
theorem mem_steps (h : Grows graph direction false path shown branches o)
    (hps : ∀ p ∈ path, p ∈ shown) (p : PackageId) (kind : DependencyKind)
    (step : PackageId × Hop) :
    step ∈ o.steps p kind ↔ step.1 = p ∧ step.2 ∈ Branch.hops kind branches ∨
      step.1 ∈ o.ids ∧ step.1 ∉ shown ∧ step.2 ∈ graph.hops direction step.1 := by
  obtain ⟨q, hop⟩ := step
  induction h generalizing p kind with
  | nil => simp [Outline.steps, Outline.ids, Branch.hops]
  | header _ ih => exact ih hps p _
  | @listed path shown rest o continues id hl _ ih =>
    have hid : id ∈ shown := hl.elim (hps id) (·.2)
    have ih := ih (fun p hp => List.mem_cons_of_mem _ (hps p hp)) p kind
    simp only [Outline.steps, Outline.ids, Branch.hops, List.nil_append, List.cons_append,
      List.mem_cons, ih, Prod.mk.injEq]
    grind
  | @expanded path shown below rest o continues id _ hs hbelow _ ihb ihr =>
    have hid : id ∉ shown := hs rfl
    have ihb := ihb (fun p hp => by grind) id .normal
    have ihr := ihr (fun p hp => by simp [hps p hp]) p kind
    rw [graph.hops_branches] at ihb
    simp only [Outline.steps, Outline.ids, Branch.hops, List.cons_append, List.mem_append,
      List.mem_cons, List.mem_reverse, ihb, ihr, Prod.mk.injEq]
    grind

theorem nodup_steps (h : Grows graph direction false path shown branches o)
    (hps : ∀ p ∈ path, p ∈ shown) (p : PackageId) (hp : p ∈ shown) (kind : DependencyKind)
    (hb : (Branch.hops kind branches).Nodup) : (o.steps p kind).Nodup := by
  induction h generalizing p kind with
  | nil => exact List.nodup_nil
  | header _ ih => exact ih hps p hp _ hb
  | @listed path shown rest o continues id hl hrest ih =>
    have hps' : ∀ p ∈ path, p ∈ id :: shown := fun p hp => List.mem_cons_of_mem _ (hps p hp)
    obtain ⟨hnew, hb⟩ := List.nodup_cons.mp hb
    refine List.nodup_cons.mpr ⟨?_, ih hps' p (List.mem_cons_of_mem _ hp) kind hb⟩
    show (p, ⟨kind, id⟩) ∉ o.steps p kind
    rw [hrest.mem_steps hps']
    simp [hnew, hp]
  | @expanded path shown below rest o continues id _ hs hbelow hrest ihb ihr =>
    have hid : id ∉ shown := hs rfl
    have hps₁ : ∀ p ∈ id :: path, p ∈ id :: shown := by grind
    have hps₂ : ∀ p ∈ path, p ∈ below.ids.reverse ++ id :: shown := by grind
    obtain ⟨hnew, hb⟩ := List.nodup_cons.mp hb
    have hn₁ := ihb hps₁ id List.mem_cons_self .normal
      (graph.hops_branches direction id ▸ DependencyGraph.nodup_hops)
    have hn₂ := ihr hps₂ p (by simp [hp]) kind hb
    have hm₁ := hbelow.mem_steps hps₁ id .normal
    have hm₂ := hrest.mem_steps hps₂ p kind
    refine List.nodup_append.mpr ⟨List.nodup_cons.mpr ⟨?_, hn₁⟩, hn₂, ?_⟩
    · rw [hm₁]
      grind
    · intro a ha b hb' heq
      subst heq
      rw [hm₂] at hb'
      rcases List.mem_cons.mp ha with rfl | ha
      · grind
      · rw [hm₁] at ha
        grind

end Grows

namespace DependencyGraph

variable {root : PackageId}

/-- What a truncated walk shows is what is reached: the hops from what it shows are all taken. -/
theorem mem_ids_iff_reaches (h : Grows graph direction false [root] [root]
    (graph.branches direction root) below) (id : PackageId) :
    id ∈ root :: below.ids ↔ graph.Reaches direction root id := by
  refine ⟨reaches_of_mem_ids h, fun hid => ?_⟩
  induction hid with
  | refl => exact List.mem_cons_self
  | @tail p q _ hpq ih =>
    obtain ⟨kind, hk, hl⟩ := hpq
    have hhop : ⟨kind, q⟩ ∈ graph.hops direction p := mem_hops.mpr ⟨hk, mem_neighbors.mpr hl⟩
    have hstep : (p, ⟨kind, q⟩) ∈ below.steps root .normal := by
      rw [h.mem_steps (by simp), graph.hops_branches]
      rcases List.mem_cons.mp ih with rfl | hp
      · exact .inl ⟨rfl, hhop⟩
      · by_cases hroot : p = root
        · exact .inl ⟨hroot, hroot ▸ hhop⟩
        · exact .inr ⟨hp, by simpa using hroot, hhop⟩
    rw [← Outline.map_target_steps below root .normal]
    exact List.mem_cons_of_mem _ (List.mem_map_of_mem hstep)

/-- The lines below the root stand for the hops from what is reached, one for each. -/
theorem length_ids (h : Grows graph direction false [root] [root]
    (graph.branches direction root) below) :
    below.ids.length = {step : PackageId × Hop | graph.Reaches direction root step.1 ∧
      step.2.kind ≠ .other ∧
      step.2.target ∈ graph.neighbors step.1 direction step.2.kind}.ncard := by
  have hnodup := h.nodup_steps (by simp) root (by simp) .normal
    (graph.hops_branches direction root ▸ nodup_hops)
  have hset : {step : PackageId × Hop | graph.Reaches direction root step.1 ∧
      step.2.kind ≠ .other ∧ step.2.target ∈ graph.neighbors step.1 direction step.2.kind} =
      ((below.steps root .normal).toFinset : Set (PackageId × Hop)) := by
    ext step
    rw [Finset.mem_coe, List.mem_toFinset, h.mem_steps (by simp), graph.hops_branches,
      Set.mem_ofPred_eq, ← mem_ids_iff_reaches h, ← mem_hops]
    simp only [List.mem_cons, List.not_mem_nil, or_false]
    grind
  rw [hset, Set.ncard_coe_finset, List.toFinset_card_of_nodup hnodup,
    ← Outline.map_target_steps below root .normal, List.length_map]

/-- A walk that does not repeat what was shown: all lines stand below the root; they show what the
root reaches, and nothing else; the first line of a package has exactly the entries below it that
the neighbours of the package call for, and every later one has nothing below it. So there is one
line for the root and one for each hop from a package that is reached. -/
theorem walk_expands_reached_once (graph : DependencyGraph) (options : TreeOptions)
    (verdictOf : PackageId → Verdict) (root : PackageId) (h : options.all = false) :
    let lines := graph.walk options verdictOf root
    (∃ rest, lines = .package (.at options verdictOf [] root) :: rest ∧
      TreeLines.below 0 rest = rest) ∧
    (∀ id, id ∈ TreeLines.ids lines ↔ graph.Reaches options.direction root id) ∧
    (∀ before shown after, lines = before ++ .package shown :: after →
      if shown.packageId ∈ TreeLines.ids before then TreeLines.below shown.depth after = []
      else TreeLines.entries shown.depth (TreeLines.below shown.depth after) =
        graph.entriesBelow options.direction shown.packageId) ∧
    (TreeLines.ids lines).length =
      1 + {step : PackageId × Hop | graph.Reaches options.direction root step.1 ∧
        step.2.kind ≠ .other ∧
        step.2.target ∈ graph.neighbors step.1 options.direction step.2.kind}.ncard := by
  obtain ⟨below, hgrows, hwalk⟩ := walk_eq_lines graph options verdictOf root
  rw [h] at hgrows
  have hheaded := hgrows.headed (graph.headed_branches options.direction root)
  have hids : TreeLines.ids (graph.walk options verdictOf root) = root :: below.ids := by
    rw [hwalk, Occurrence.ids_lines]
  refine ⟨⟨below.lines options verdictOf [], hwalk, ?_⟩, ?_, ?_, ?_⟩
  · simpa [TreeLines.below] using
      below.below_lines options verdictOf hheaded (Nat.zero_le ([] : List Bool).length) []
  · intro id
    rw [hids]
    exact mem_ids_iff_reaches hgrows id
  · intro before shown after hl
    obtain ⟨first, found, rest, hocc, rfl, hbefore, hbelow, hentries⟩ :=
      Occurrence.exists_of_lines options verdictOf hheaded (hwalk ▸ hl)
    have honce : ExpandedOnce graph options.direction [] (first ++ found :: rest) := by
      rw [← hocc]
      exact ⟨by simp [hgrows.branches_eq], hgrows.expandedOnce (by simp) []⟩
    have hfound := (expandedOnce_append.mp honce).2.1
    simp only [List.append_nil, List.mem_reverse, ← hbefore] at hfound
    show if found.id ∈ TreeLines.ids before then _ else _
    split
    · rename_i hseen
      rw [if_pos hseen] at hfound
      rw [hbelow, hfound]
      rfl
    · rename_i hnew
      rw [if_neg hnew] at hfound
      rw [hentries, hfound]
      exact graph.map_entry_branches options.direction found.id
  · rw [hids, List.length_cons, length_ids hgrows, Nat.add_comm]

open Entwined in
theorem walk_entwined_expands_reached_once :
    TreeOptions.default.all = false ∧
    let ids := TreeLines.ids (entwined.walk .default (fun _ => .unsafeDetected) first)
    second ∈ ids ∧ (∀ id, id ∈ ids ↔ entwined.Reaches .outgoing first id) ∧
    ids.length = 1 + {step : PackageId × Hop | entwined.Reaches .outgoing first step.1 ∧
      step.2.kind ≠ .other ∧
      step.2.target ∈ entwined.neighbors step.1 .outgoing step.2.kind}.ncard := by
  obtain ⟨-, hreached, -, hlength⟩ :=
    walk_expands_reached_once entwined .default (fun _ => .unsafeDetected) first rfl
  have hsecond : entwined.Reaches .outgoing first second :=
    .tail .refl ⟨.normal, by decide, ⟨first, second, .normal⟩, by decide, rfl, rfl, rfl⟩
  exact ⟨rfl, (hreached second).mpr hsecond, hreached, hlength⟩

end DependencyGraph

end UnsafeAudit
