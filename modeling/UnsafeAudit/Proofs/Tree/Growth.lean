import UnsafeAudit.Proofs.Tree.Outline

/-!
# How a walk grows an outline

`Grows` is the walk as a relation, one rule for each thing that it can do, with
the drawing left out. Every walk grows an outline and draws it
(`walk_eq_lines`), so that laws of the walk are proved by induction on `Grows`.
-/

namespace UnsafeAudit

/-- The walk of some branches grows an outline, below the packages of a path and after others were
shown. A package is listed only, or it is expanded. -/
inductive Grows (graph : DependencyGraph) (direction : Direction) (all : Bool) :
    List PackageId → List PackageId → List Branch → Outline → Prop
  | nil : Grows graph direction all path shown [] .nil
  | header : Grows graph direction all path shown rest o →
      Grows graph direction all path shown (.header kind :: rest) (.header kind o)
  | listed {id : PackageId} : (id ∈ path ∨ all = false ∧ id ∈ shown) →
      Grows graph direction all path (id :: shown) rest o →
      Grows graph direction all path shown (.child id continues :: rest)
        (.child id continues .nil o)
  | expanded {id : PackageId} : id ∉ path → (all = false → id ∉ shown) →
      Grows graph direction all (id :: path) (id :: shown) (graph.branches direction id) below →
      Grows graph direction all path (below.ids.reverse ++ id :: shown) rest o →
      Grows graph direction all path shown (.child id continues :: rest)
        (.child id continues below o)

namespace Grows

variable {graph : DependencyGraph} {direction : Direction} {all : Bool}

theorem branches_eq (h : Grows graph direction all path shown branches o) :
    o.branches = branches := by
  induction h with
  | nil => rfl
  | header _ ih => rw [Outline.branches, ih]
  | listed _ _ ih => rw [Outline.branches, ih]
  | expanded _ _ _ _ _ ih => rw [Outline.branches, ih]

theorem headed (h : Grows graph direction all path shown branches o) (hb : Branch.Headed branches) :
    o.Headed := by
  induction h with
  | nil => trivial
  | header hrest ih =>
    obtain ⟨⟨id, continues, more, rfl⟩, hb⟩ := hb
    refine ⟨?_, ih hb⟩
    cases hrest with
    | listed => exact ⟨_, _, _, _, rfl⟩
    | expanded => exact ⟨_, _, _, _, rfl⟩
  | listed _ _ ih => exact ⟨trivial, ih hb⟩
  | expanded _ _ _ _ ihb ihr => exact ⟨ihb (graph.headed_branches direction _), ihr hb⟩

theorem reaches (h : Grows graph direction all path shown branches o) (kind : DependencyKind)
    (hb : ∀ hop ∈ Branch.hops kind branches, graph.Reaches direction root hop.target) :
    ∀ id ∈ o.ids, graph.Reaches direction root id := by
  induction h generalizing kind with
  | nil => simp [Outline.ids]
  | header _ ih => exact ih _ hb
  | listed _ _ ih =>
    intro id hid
    rcases List.mem_cons.mp hid with rfl | hid
    · exact hb ⟨kind, id⟩ (by simp [Branch.hops])
    · exact ih kind (fun hop hh => hb hop (List.mem_cons_of_mem _ hh)) id hid
  | @expanded path shown below rest o continues id _ _ _ _ ihb ihr =>
    have hid : graph.Reaches direction root id := hb ⟨kind, id⟩ (by simp [Branch.hops])
    intro q hq
    rcases List.mem_append.mp hq with hq | hq
    · rcases List.mem_cons.mp hq with rfl | hq
      · exact hid
      · refine ihb .normal (fun hop hh => ?_) q hq
        rw [graph.hops_branches] at hh
        obtain ⟨hk, ht⟩ := DependencyGraph.mem_hops.mp hh
        exact hid.step hk ht
    · exact ihr kind (fun hop hh => hb hop (List.mem_cons_of_mem _ hh)) q hq

end Grows

namespace DependencyGraph

variable {graph : DependencyGraph} {options : TreeOptions} {verdictOf : PackageId → Verdict}

/-- What stands below one occurrence of a package: nothing, or what its branches grow. -/
inductive Shows (graph : DependencyGraph) (direction : Direction) (all : Bool)
    (path shown : List PackageId) (id : PackageId) : Outline → Prop
  | listed : (id ∈ path ∨ all = false ∧ id ∈ shown) →
      Shows graph direction all path shown id .nil
  | expanded : id ∉ path → (all = false → id ∉ shown) →
      Grows graph direction all (id :: path) (id :: shown) (graph.branches direction id) below →
      Shows graph direction all path shown id below

def DrawsPackage (graph : DependencyGraph) (options : TreeOptions)
    (verdictOf : PackageId → Verdict) (path : List PackageId) (levels : List Bool)
    (shown : List PackageId) (id : PackageId) : Prop :=
  ∃ below, Shows graph options.direction options.all path shown id below ∧
    graph.walkPackage options verdictOf path levels shown id =
      (Occurrence.lines options verdictOf ⟨levels, id, below⟩, below.ids.reverse ++ id :: shown)

def DrawsBranches (graph : DependencyGraph) (options : TreeOptions)
    (verdictOf : PackageId → Verdict) (path : List PackageId) (levels : List Bool)
    (shown : List PackageId) (branches : List Branch) : Prop :=
  ∃ o, Grows graph options.direction options.all path shown branches o ∧
    graph.walkBranches options verdictOf path levels shown branches =
      (o.lines options verdictOf levels, o.ids.reverse ++ shown)

theorem walk_draws (graph : DependencyGraph) (options : TreeOptions)
    (verdictOf : PackageId → Verdict) :
    (∀ path levels shown id, DrawsPackage graph options verdictOf path levels shown id) ∧
      ∀ path levels shown branches,
        DrawsBranches graph options verdictOf path levels shown branches := by
  refine walkPackage.mutual_induct graph options verdictOf (DrawsPackage graph options verdictOf)
    (DrawsBranches graph options verdictOf) ?onPath ?shown ?leaf ?inner ?nil ?header ?child
  case onPath =>
    intro path levels shown id hp
    exact ⟨.nil, .listed (.inl hp), by rw [walkPackage, dif_pos hp]; rfl⟩
  case shown =>
    intro path levels shown id hp hs
    have hs' : options.all = false ∧ id ∈ shown := by simpa using hs
    exact ⟨.nil, .listed (.inr hs'), by rw [walkPackage, dif_neg hp, if_pos hs]; rfl⟩
  case leaf =>
    intro path levels shown id hp hs hb
    have hs' : options.all = false → id ∉ shown := by simpa using hs
    refine ⟨.nil, .expanded hp hs' (hb ▸ .nil), ?_⟩
    rw [walkPackage, dif_neg hp, if_neg hs]
    split
    · rfl
    · simp_all
  case inner =>
    intro path levels shown id hp hs first more hb lines _ _ ⟨below, hgrows, hwalk⟩
    have hs' : options.all = false → id ∉ shown := by simpa using hs
    refine ⟨below, .expanded hp hs' (hb ▸ hgrows), ?_⟩
    rw [walkPackage, dif_neg hp, if_neg hs]
    split
    · simp_all
    · rename_i heq
      rw [hb] at heq
      obtain ⟨rfl, rfl⟩ := List.cons.inj heq
      rw [hwalk]
      rfl
  case nil =>
    intro path levels shown
    exact ⟨.nil, .nil, by rw [walkBranches]; rfl⟩
  case header =>
    intro path levels shown kind rest _ _ _ ⟨o, hgrows, hwalk⟩
    exact ⟨.header kind o, .header hgrows, by rw [walkBranches, hwalk]; rfl⟩
  case child =>
    intro path levels shown id continues rest lines shown' hfirst _ _ _ ⟨below, hshows, hwalk⟩
      ⟨o, hgrows, hrest⟩
    rw [hfirst] at hwalk
    obtain ⟨rfl, rfl⟩ := Prod.mk.inj hwalk
    refine ⟨.child id continues below o, ?_, ?_⟩
    · cases hshows with
      | listed hl => exact .listed hl hgrows
      | expanded hp hs hbelow => exact .expanded hp hs hbelow hgrows
    · rw [walkBranches, hfirst]
      simp only [hrest, Outline.lines, Outline.ids, Occurrence.lines, Occurrence.line]
      simp

/-- A walk expands its root and draws the outline that the branches of the root grow. -/
theorem walk_eq_lines (graph : DependencyGraph) (options : TreeOptions)
    (verdictOf : PackageId → Verdict) (root : PackageId) :
    ∃ below, Grows graph options.direction options.all [root] [root]
        (graph.branches options.direction root) below ∧
      graph.walk options verdictOf root = Occurrence.lines options verdictOf ⟨[], root, below⟩ := by
  obtain ⟨below, hshows, hwalk⟩ := (walk_draws graph options verdictOf).1 [] [] [] root
  refine ⟨below, ?_, by rw [walk, hwalk]⟩
  cases hshows with
  | listed hl => simp at hl
  | expanded _ _ hbelow => exact hbelow

theorem reaches_of_mem_ids {all : Bool} {direction : Direction} {root id : PackageId}
    {below : Outline}
    (h : Grows graph direction all [root] [root] (graph.branches direction root) below)
    (hid : id ∈ root :: below.ids) : graph.Reaches direction root id := by
  rcases List.mem_cons.mp hid with rfl | hid
  · exact .refl
  · refine h.reaches .normal (fun hop hh => ?_) id hid
    rw [hops_branches] at hh
    obtain ⟨hk, ht⟩ := mem_hops.mp hh
    exact Reaches.step .refl hk ht

end DependencyGraph

end UnsafeAudit
