import UnsafeAudit.Proofs.Tree.Growth

/-!
# Trails

A walk that shows the dependencies of a package at each of its occurrences goes
through all trails from its root, one line for each, in depth-first order
(`walk_shows_trails`). A trail may end in a package that it went through, and
nowhere else does it come to a package again.
-/

namespace UnsafeAudit

/-- The hops of a walk, one after the other. -/
abbrev Trail := List Hop

namespace Trail

/-- The packages that a trail goes through, from its start to its end. -/
def vertices (start : PackageId) (t : Trail) : List PackageId := start :: t.map (·.target)

def stop : PackageId → Trail → PackageId
  | start, [] => start
  | _, hop :: rest => stop hop.target rest

/-- Each hop follows a dependency of its kind, which is not the last kind. -/
def Follows (graph : DependencyGraph) (direction : Direction) : PackageId → Trail → Prop
  | _, [] => True
  | p, hop :: rest =>
    hop.kind ≠ .other ∧ graph.Leads direction p hop.kind hop.target ∧
      Follows graph direction hop.target rest

/-- The trails of a graph: all packages but the last are distinct. -/
def IsTrail (graph : DependencyGraph) (direction : Direction) (start : PackageId) (t : Trail) :
    Prop :=
  Follows graph direction start t ∧ (vertices start t).dropLast.Nodup

/-- The order of siblings: by kind, and within a kind by the position among the neighbours. -/
def HopBefore (graph : DependencyGraph) (direction : Direction) (p : PackageId) (a b : Hop) :
    Prop :=
  DependencyKind.shown.idxOf a.kind < DependencyKind.shown.idxOf b.kind ∨
    a.kind = b.kind ∧ (graph.neighbors p direction a.kind).idxOf a.target <
      (graph.neighbors p direction a.kind).idxOf b.target

/-- Depth-first order: a trail comes before those that go on from it, and trails that part come in
the order of the hops with which they part. -/
inductive Before (graph : DependencyGraph) (direction : Direction) :
    PackageId → Trail → Trail → Prop
  | goesOn : Before graph direction p [] (hop :: rest)
  | shares : Before graph direction hop.target s t →
      Before graph direction p (hop :: s) (hop :: t)
  | parts : HopBefore graph direction p a b → Before graph direction p (a :: s) (b :: t)

variable {graph : DependencyGraph} {direction : Direction} {p : PackageId} {hop : Hop}
  {s t rest : Trail} {path : List PackageId}

theorem Before.ne (h : Before graph direction p s t) : s ≠ t := by
  induction h with
  | goesOn => exact List.cons_ne_nil _ _ |>.symm
  | shares _ ih => exact fun heq => ih (List.cons.inj heq).2
  | parts h =>
    rintro heq
    obtain ⟨rfl, -⟩ := List.cons.inj heq
    rcases h with h | ⟨-, h⟩ <;> exact Nat.lt_irrefl _ h

/-- The trails that go on from a path: none from a package on it. -/
def Fresh (graph : DependencyGraph) (direction : Direction) :
    List PackageId → PackageId → Trail → Prop
  | _, _, [] => True
  | path, p, hop :: rest =>
    p ∉ path ∧ hop ∈ graph.hops direction p ∧ Fresh graph direction (p :: path) hop.target rest

theorem fresh_iff : Fresh graph direction path p t ↔ Follows graph direction p t ∧
    (vertices p t).dropLast.Nodup ∧ ∀ v ∈ (vertices p t).dropLast, v ∉ path := by
  induction t generalizing path p with
  | nil => simp [Fresh, Follows, vertices]
  | cons hop rest ih =>
    have hdrop : (vertices p (hop :: rest)).dropLast = p :: (vertices hop.target rest).dropLast :=
      rfl
    rw [Fresh, Follows, ih, hdrop, DependencyGraph.mem_hops, DependencyGraph.mem_neighbors,
      List.nodup_cons]
    simp only [List.mem_cons, not_or, forall_eq_or_imp]
    grind

theorem isTrail_iff : IsTrail graph direction p t ↔ Fresh graph direction [] p t := by
  simp [IsTrail, fresh_iff]

end Trail

namespace DependencyGraph

theorem pairwise_idxOf_lt {l : List PackageId} (h : l.Nodup) :
    l.Pairwise fun p q => l.idxOf p < l.idxOf q := by
  refine List.pairwise_iff_getElem.mpr fun i j hi hj hij => ?_
  rw [h.idxOf_getElem, h.idxOf_getElem]
  exact hij

theorem pairwise_hops (graph : DependencyGraph) (direction : Direction) (p : PackageId) :
    (graph.hops direction p).Pairwise (Trail.HopBefore graph direction p) := by
  refine List.pairwise_flatMap.mpr ⟨fun kind _ => ?_, ?_⟩
  · refine List.pairwise_map.mpr ((pairwise_idxOf_lt nodup_neighbors).imp fun h => ?_)
    exact .inr ⟨rfl, h⟩
  · have hkinds : DependencyKind.shown.Pairwise fun a b =>
        DependencyKind.shown.idxOf a < DependencyKind.shown.idxOf b := by decide
    refine hkinds.imp fun h a ha b hb => ?_
    obtain ⟨_, _, rfl⟩ := List.mem_map.mp ha
    obtain ⟨_, _, rfl⟩ := List.mem_map.mp hb
    exact .inl h

end DependencyGraph

/-- The trails that the lines of an outline stand for, up to the first header of the given kind. -/
def Outline.trails (kind : DependencyKind) : Outline → List Trail
  | nil => []
  | header kind rest => rest.trails kind
  | child id _ below rest =>
    [⟨kind, id⟩] :: (below.trails .normal).map (⟨kind, id⟩ :: ·) ++ rest.trails kind

/-- The line of a trail shows where it ends, at the depth of its length. -/
theorem Outline.map_occurrences_eq (o : Outline) (levels : List Bool) (kind : DependencyKind)
    (p : PackageId) :
    (o.occurrences levels).map (fun n => (n.id, n.levels.length)) =
      (o.trails kind).map fun t => (t.stop p, levels.length + t.length) := by
  induction o generalizing levels kind p with
  | nil => rfl
  | header next rest ih => exact ih levels next p
  | child id continues below rest ihb ihr =>
    simp only [occurrences, trails, List.map_cons, List.map_append, List.map_map,
      ihb (levels ++ [continues]) .normal id, ihr levels kind p]
    simp [Trail.stop, Function.comp_def, Nat.add_assoc, Nat.add_comm 1]

namespace Grows

variable {graph : DependencyGraph} {direction : Direction} {hop : Hop}

theorem mem_trails (h : Grows graph direction true path shown branches o) (kind : DependencyKind)
    (t : Trail) :
    t ∈ o.trails kind ↔ ∃ hop ∈ Branch.hops kind branches, ∃ rest, t = hop :: rest ∧
      Trail.Fresh graph direction path hop.target rest := by
  induction h generalizing kind t with
  | nil => simp [Outline.trails, Branch.hops]
  | header _ ih => exact ih _ t
  | @listed path shown more o continues id hl _ ih =>
    have hid : id ∈ path := by simpa using hl
    have hnil : ∀ rest, Trail.Fresh graph direction path id rest ↔ rest = [] := by
      intro rest
      cases rest <;> simp [Trail.Fresh, hid]
    simp [Outline.trails, Branch.hops, ih, hnil]
  | @expanded path shown below more o continues id hp _ _ _ ihb ihr =>
    have ihb := ihb .normal
    rw [graph.hops_branches] at ihb
    have hfresh : ∀ rest, Trail.Fresh graph direction path id rest ↔
        rest = [] ∨ rest ∈ below.trails .normal := by
      intro rest
      cases rest with
      | nil => simp [Trail.Fresh]
      | cons hop rest => simp [Trail.Fresh, ihb, hp]
    simp only [Outline.trails, Branch.hops, List.mem_append, List.mem_cons, List.mem_map, ihr,
      exists_eq_or_imp, hfresh]
    grind

theorem pairwise_trails (h : Grows graph direction true path shown branches o)
    (kind : DependencyKind)
    (hb : (Branch.hops kind branches).Pairwise (Trail.HopBefore graph direction p)) :
    (o.trails kind).Pairwise (Trail.Before graph direction p) := by
  induction h generalizing kind p with
  | nil => exact .nil
  | header _ ih => exact ih _ hb
  | listed _ hrest ih =>
    obtain ⟨hfirst, hb⟩ := List.pairwise_cons.mp hb
    refine List.pairwise_cons.mpr ⟨fun t ht => ?_, ih kind hb⟩
    obtain ⟨hop, hhop, rest, rfl, -⟩ := (hrest.mem_trails kind t).mp ht
    exact .parts (hfirst hop hhop)
  | @expanded path shown below more o continues id _ _ hbelow hrest ihb ihr =>
    obtain ⟨hfirst, hb⟩ := List.pairwise_cons.mp hb
    -- every trail of the rest parts from those below `id` at the first hop
    have hparts : ∀ s, ∀ t ∈ o.trails kind,
        Trail.Before graph direction p (⟨kind, id⟩ :: s) t := by
      intro s t ht
      obtain ⟨hop, hhop, rest, rfl, -⟩ := (hrest.mem_trails kind t).mp ht
      exact .parts (hfirst hop hhop)
    have hinner := ihb .normal (graph.hops_branches direction id ▸ graph.pairwise_hops direction id)
    refine List.pairwise_append.mpr ⟨List.pairwise_cons.mpr ⟨?_, ?_⟩, ihr kind hb, ?_⟩
    · intro t ht
      obtain ⟨s, hs, rfl⟩ := List.mem_map.mp ht
      obtain ⟨hop, -, rest, rfl, -⟩ := (hbelow.mem_trails .normal s).mp hs
      exact .shares .goesOn
    · refine List.pairwise_map.mpr (hinner.imp fun {s t} hst => ?_)
      show Trail.Before graph direction p (⟨kind, id⟩ :: s) (⟨kind, id⟩ :: t)
      exact .shares hst
    · intro s hs t ht
      rcases List.mem_cons.mp hs with rfl | hs
      · exact hparts [] t ht
      · obtain ⟨s, -, rfl⟩ := List.mem_map.mp hs
        exact hparts s t ht

end Grows

namespace DependencyGraph

/-- A walk that repeats what was shown goes through the trails from its root, each once and in
depth-first order; the line of a trail shows the package at its end, at the depth of its length. -/
theorem walk_shows_trails (graph : DependencyGraph) (options : TreeOptions)
    (verdictOf : PackageId → Verdict) (root : PackageId) (h : options.all = true) :
    ∃ trails : List Trail,
      (∀ t, t ∈ trails ↔ Trail.IsTrail graph options.direction root t) ∧ trails.Nodup ∧
      trails.Pairwise (Trail.Before graph options.direction root) ∧
      (TreeLines.packages (graph.walk options verdictOf root)).map
          (fun line => (line.packageId, line.depth)) =
        trails.map fun t => (t.stop root, t.length) := by
  obtain ⟨below, hgrows, hwalk⟩ := walk_eq_lines graph options verdictOf root
  rw [h] at hgrows
  have hhops := graph.hops_branches options.direction root
  have hmem := hgrows.mem_trails .normal
  rw [hhops] at hmem
  have hbefore : ([] :: below.trails .normal).Pairwise
      (Trail.Before graph options.direction root) := by
    refine List.pairwise_cons.mpr ⟨fun t ht => ?_, ?_⟩
    · obtain ⟨hop, -, rest, rfl, -⟩ := (hmem t).mp ht
      exact .goesOn
    · exact hgrows.pairwise_trails .normal (hhops ▸ graph.pairwise_hops options.direction root)
  refine ⟨[] :: below.trails .normal, fun t => ?_, hbefore.imp Trail.Before.ne, hbefore, ?_⟩
  · rw [Trail.isTrail_iff, List.mem_cons, hmem]
    cases t <;> simp [Trail.Fresh]
  · rw [hwalk, Occurrence.lines, TreeLines.packages_package, below.packages_lines, List.map_cons,
      List.map_map]
    have hoccs := below.map_occurrences_eq [] .normal root
    simpa [Occurrence.line, PackageLine.at, Trail.stop, Function.comp_def] using hoccs

open Entwined in
theorem walk_entwined_shows_trails :
    let options : TreeOptions := { TreeOptions.default with all := true }
    options.all = true ∧
    ∃ trails : List Trail, trails.Nodup ∧
      trails.Pairwise (Trail.Before entwined .outgoing first) ∧
      [⟨.normal, second⟩, ⟨.development, first⟩] ∈ trails ∧
      [⟨.build, first⟩, ⟨.normal, second⟩] ∉ trails ∧
      (TreeLines.packages (entwined.walk options (fun _ => .unsafeDetected) first)).map
          (fun line => (line.packageId, line.depth)) =
        trails.map fun t => (t.stop first, t.length) := by
  intro options
  obtain ⟨trails, hmem, hnodup, hbefore, hlines⟩ :=
    walk_shows_trails entwined options (fun _ => .unsafeDetected) first rfl
  refine ⟨rfl, trails, hnodup, hbefore, (hmem _).mpr ?_, fun h => ?_, hlines⟩
  · simp only [Trail.IsTrail, Trail.Follows, Leads]
    decide
  · exact absurd ((hmem _).mp h).2 (by decide)

end DependencyGraph

end UnsafeAudit
