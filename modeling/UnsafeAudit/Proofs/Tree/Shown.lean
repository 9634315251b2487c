import Mathlib.Data.List.Infix
import UnsafeAudit.Proofs.Tree.Trails
import UnsafeAudit.Proofs.Tree.Truncated

/-!
# What a tree shows

Whether it repeats what was shown or not, a walk shows what its root reaches
and nothing else (`mem_ids_walk_iff`). Where it does not, each package that is
reached is expanded once; where it does, it goes through all trails, and what
is reached is reached by a trail that comes to no package twice.
-/

namespace UnsafeAudit

namespace Trail

variable {graph : DependencyGraph} {direction : Direction} {p q start : PackageId} {t : Trail}

theorem exists_suffix (h : Follows graph direction start t) (hp : p ∈ vertices start t) :
    ∃ rest, Follows graph direction p rest ∧ vertices p rest <:+ vertices start t ∧
      rest.stop p = t.stop start := by
  induction t generalizing start with
  | nil =>
    obtain rfl := List.mem_singleton.mp hp
    exact ⟨[], h, List.suffix_rfl, rfl⟩
  | cons hop more ih =>
    rcases List.mem_cons.mp hp with rfl | hp
    · exact ⟨hop :: more, h, List.suffix_rfl, rfl⟩
    · obtain ⟨rest, hrest, hsuffix, hstop⟩ := ih h.2.2 hp
      exact ⟨rest, hrest, hsuffix.trans (List.suffix_cons _ _), hstop⟩

/-- What is reached is reached without coming to a package twice: a trail that comes back to `p` is
cut short. -/
theorem exists_of_reaches (h : graph.Reaches direction p q) :
    ∃ t, Follows graph direction p t ∧ (vertices p t).Nodup ∧ t.stop p = q := by
  induction h using Relation.ReflTransGen.head_induction_on with
  | refl => exact ⟨[], trivial, List.nodup_singleton _, rfl⟩
  | @head p next hstep _ ih =>
    obtain ⟨kind, hkind, hleads⟩ := hstep
    obtain ⟨t, hfollows, hnodup, hstop⟩ := ih
    by_cases hp : p ∈ vertices next t
    · obtain ⟨rest, hrest, hsuffix, heq⟩ := exists_suffix hfollows hp
      exact ⟨rest, hrest, hnodup.sublist hsuffix.sublist, heq.trans hstop⟩
    · exact ⟨⟨kind, next⟩ :: t, ⟨hkind, hleads, hfollows⟩, List.nodup_cons.mpr ⟨hp, hnodup⟩, hstop⟩

end Trail

theorem Outline.map_stop_trails (o : Outline) (kind : DependencyKind) (p : PackageId) :
    (o.trails kind).map (·.stop p) = o.ids := by
  have hends := congrArg (List.map Prod.fst) (o.map_occurrences_eq [] kind p)
  rw [List.map_map, List.map_map] at hends
  exact hends.symm.trans (o.map_id_occurrences [])

namespace DependencyGraph

variable {graph : DependencyGraph} {direction : Direction} {root id : PackageId} {below : Outline}

theorem mem_ids_of_reaches (h : Grows graph direction true [root] [root]
    (graph.branches direction root) below) (hid : graph.Reaches direction root id) :
    id ∈ root :: below.ids := by
  obtain ⟨t, hfollows, hnodup, rfl⟩ := Trail.exists_of_reaches hid
  have hfresh : Trail.Fresh graph direction [] root t :=
    Trail.isTrail_iff.mp ⟨hfollows, hnodup.sublist (List.dropLast_sublist _)⟩
  cases t with
  | nil => exact List.mem_cons_self
  | cons hop rest =>
    obtain ⟨-, hhop, hrest⟩ := hfresh
    rw [← graph.hops_branches direction root] at hhop
    have htrail : hop :: rest ∈ below.trails .normal :=
      (h.mem_trails .normal _).mpr ⟨hop, hhop, rest, rfl, hrest⟩
    rw [← below.map_stop_trails .normal root]
    exact List.mem_cons_of_mem _ (List.mem_map_of_mem (f := Trail.stop root) htrail)

/-- A tree shows what its root reaches, whatever the options are. -/
theorem mem_ids_walk_iff (graph : DependencyGraph) (options : TreeOptions)
    (verdictOf : PackageId → Verdict) (root id : PackageId) :
    id ∈ TreeLines.ids (graph.walk options verdictOf root) ↔
      graph.Reaches options.direction root id := by
  obtain ⟨below, hgrows, hwalk⟩ := walk_eq_lines graph options verdictOf root
  rw [hwalk, Occurrence.ids_lines]
  cases hall : options.all with
  | false =>
    rw [hall] at hgrows
    exact mem_ids_iff_reaches hgrows id
  | true =>
    rw [hall] at hgrows
    exact ⟨reaches_of_mem_ids hgrows, mem_ids_of_reaches hgrows⟩

end DependencyGraph

end UnsafeAudit
