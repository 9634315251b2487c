import UnsafeAudit.Proofs.Graph.Calls
import UnsafeAudit.Proofs.Graph.Reach
import UnsafeAudit.Proofs.Graph.Sound

/-!
# Graphs as adjacency tables

A graph can be kept as three tables by package: the packages, and for each the edges that leave it
and the edges that come to it. A call changes each table on its own, and whether an edge is new is
looked up in only one of them. The tables that calls build still agree with each other, and with the
graph that the same calls build (`holds_build`, `Holds.consistent`). What a graph built by calls says
about its packages and neighbors follows from the calls alone (`build_keeps_tables`).
-/

namespace UnsafeAudit

/-- For each package some edges, in the order in which they came. -/
abbrev EdgeTable := List (PackageId × List Edge)

namespace EdgeTable

def edgesOf (table : EdgeTable) (id : PackageId) : List Edge := (table.lookup id).getD []

def reserve (table : EdgeTable) (id : PackageId) : EdgeTable :=
  if id ∈ table.map (·.1) then table else table ++ [(id, [])]

def push (table : EdgeTable) (id : PackageId) (edge : Edge) : EdgeTable :=
  table.map fun (known, edges) => (known, if known = id then edges ++ [edge] else edges)

variable (table : EdgeTable) (id p : PackageId) (edge : Edge)

theorem keys_reserve : (table.reserve id).map (·.1) =
    if id ∈ table.map (·.1) then table.map (·.1) else table.map (·.1) ++ [id] := by
  unfold reserve
  split <;> simp

theorem lookup_push : (table.push id edge).lookup p =
    (table.lookup p).map fun edges => if p = id then edges ++ [edge] else edges := by
  induction table with
  | nil => rfl
  | cons entry rest ih =>
    obtain ⟨known, edges⟩ := entry
    by_cases hp : p = known
    · simp [push, hp]
    · simpa [push, List.lookup_cons, beq_false_of_ne hp] using ih

@[simp] theorem edgesOf_reserve : (table.reserve id).edgesOf p = table.edgesOf p := by
  unfold reserve edgesOf
  split
  · rfl
  · rw [List.lookup_append]
    cases table.lookup p with
    | some edges => rfl
    | none => by_cases hp : p = id <;> simp [List.lookup_cons, beq_false_of_ne, hp]

@[simp] theorem keys_push : (table.push id edge).map (·.1) = table.map (·.1) := by
  simp [push, Function.comp_def]

theorem edgesOf_push (h : id ∈ table.map (·.1)) : (table.push id edge).edgesOf p =
    if p = id then table.edgesOf p ++ [edge] else table.edgesOf p := by
  have hknown : table.lookup id ≠ none := by
    obtain ⟨entry, hentry, rfl⟩ := List.mem_map.mp h
    exact fun hnone => by simpa using List.lookup_eq_none_iff.mp hnone entry hentry
  rw [edgesOf, edgesOf, lookup_push]
  cases hp : table.lookup p with
  | some edges => rfl
  | none =>
    have hne : p ≠ id := fun heq => hknown (heq ▸ hp)
    simp [hne]

end EdgeTable

/-- A graph that is kept as tables by package. -/
structure AdjacencyTables where
  packages : List Package
  outgoing : EdgeTable
  incoming : EdgeTable
  deriving DecidableEq, Repr

namespace AdjacencyTables

def empty : AdjacencyTables := ⟨[], [], []⟩

def table (tables : AdjacencyTables) : Direction → EdgeTable
  | .outgoing => tables.outgoing
  | .incoming => tables.incoming

def contains (tables : AdjacencyTables) (id : PackageId) : Bool := tables.packages.any (·.id = id)

def addPackage (tables : AdjacencyTables) (package : Package) : AdjacencyTables where
  packages := Table.put (fun p q => p.id = q.id) package tables.packages
  outgoing := tables.outgoing.reserve package.id
  incoming := tables.incoming.reserve package.id

def append (tables : AdjacencyTables) (edge : Edge) : AdjacencyTables where
  packages := tables.packages
  outgoing := tables.outgoing.push edge.source edge
  incoming := tables.incoming.push edge.target edge

/-- Adds an edge between known packages to both tables, unless the outgoing one has it. -/
def addEdge (tables : AdjacencyTables) (edge : Edge) : Except GraphError AdjacencyTables :=
  if !tables.contains edge.source then .error (.unknownPackage edge.source)
  else if !tables.contains edge.target then .error (.unknownPackage edge.target)
  else if edge ∈ tables.outgoing.edgesOf edge.source then .ok tables
  else .ok (tables.append edge)

def perform (tables : AdjacencyTables) : GraphCall → Except GraphError AdjacencyTables
  | .addPackage package => .ok (tables.addPackage package)
  | .addEdge edge => tables.addEdge edge

def build (calls : List GraphCall) : AdjacencyTables :=
  calls.foldl (fun tables call => (tables.perform call).toOption.getD tables) .empty

/-- Tables hold a graph: they have its packages, both have a list for each package, and in it is
what the graph has for the package. -/
structure Holds (tables : AdjacencyTables) (graph : DependencyGraph) : Prop where
  packages : tables.packages = graph.packages
  keys : ∀ direction, (tables.table direction).map (·.1) = graph.packages.map (·.id)
  edges : ∀ direction id, (tables.table direction).edgesOf id = graph.edgesFrom id direction

/-- The tables agree with each other. Every outgoing edge is listed once, with its source, and once
among the incoming edges of its target; nothing else is listed there. -/
structure Consistent (tables : AdjacencyTables) : Prop where
  nodup_ids : (tables.packages.map (·.id)).Nodup
  keys : ∀ direction, (tables.table direction).map (·.1) = tables.packages.map (·.id)
  outgoing : ∀ id, ∀ edge ∈ tables.outgoing.edgesOf id, edge.source = id ∧
    tables.contains edge.source ∧ tables.contains edge.target ∧
    (tables.outgoing.edgesOf id).count edge = 1 ∧
    (tables.incoming.edgesOf edge.target).count edge = 1
  incoming : ∀ id, ∀ edge ∈ tables.incoming.edgesOf id,
    edge.target = id ∧ edge ∈ tables.outgoing.edgesOf edge.source

variable {tables : AdjacencyTables} {graph : DependencyGraph} {edge : Edge}

-- ---------------------------------------------------------------------------
-- One call
-- ---------------------------------------------------------------------------

@[simp] theorem table_addPackage (tables : AdjacencyTables) (package : Package)
    (direction : Direction) :
    (tables.addPackage package).table direction = (tables.table direction).reserve package.id := by
  cases direction <;> rfl

@[simp] theorem table_append (tables : AdjacencyTables) (edge : Edge) (direction : Direction) :
    (tables.append edge).table direction =
      (tables.table direction).push (edge.start direction) edge := by
  cases direction <;> rfl

namespace Holds

theorem contains_eq (h : tables.Holds graph) (id : PackageId) :
    tables.contains id = graph.contains id := by
  simp [contains, DependencyGraph.contains, h.packages]

theorem mem_outgoing_iff (h : tables.Holds graph) :
    edge ∈ tables.outgoing.edgesOf edge.source ↔ edge ∈ graph.edges := by
  rw [show tables.outgoing.edgesOf edge.source = _ from h.edges .outgoing edge.source,
    DependencyGraph.mem_edgesFrom]
  exact and_iff_left rfl

theorem addPackage (h : tables.Holds graph) (package : Package) :
    (tables.addPackage package).Holds (graph.addPackage package) where
  packages := by simp [AdjacencyTables.addPackage, DependencyGraph.addPackage, h.packages]
  keys direction := by
    rw [table_addPackage, EdgeTable.keys_reserve, h.keys, DependencyGraph.ids_addPackage]
  edges direction id := by
    rw [table_addPackage, EdgeTable.edgesOf_reserve, h.edges]
    rfl

theorem addEdge_error_iff (h : tables.Holds graph) (error : GraphError) :
    tables.addEdge edge = .error error ↔ graph.addEdge edge = .error error := by
  simp only [AdjacencyTables.addEdge, DependencyGraph.addEdge, h.contains_eq, h.mem_outgoing_iff]
  split_ifs <;> simp

theorem append (h : tables.Holds graph) (hspans : graph.Spans edge) :
    (tables.append edge).Holds ⟨graph.packages, graph.edges ++ [edge]⟩ where
  packages := h.packages
  keys direction := by rw [table_append, EdgeTable.keys_push, h.keys]
  edges direction id := by
    have hknown : edge.start direction ∈ (tables.table direction).map (·.1) := by
      rw [h.keys, ← DependencyGraph.contains_iff]
      cases direction with
      | outgoing => exact hspans.1
      | incoming => exact hspans.2
    rw [table_append, EdgeTable.edgesOf_push _ _ _ _ hknown, h.edges]
    by_cases hid : edge.start direction = id <;>
      simp [DependencyGraph.edgesFrom, hid, eq_comm (a := id)]

theorem perform (h : tables.Holds graph) (call : GraphCall) :
    (∃ error, tables.perform call = .error error ∧ call.perform graph = .error error) ∨
      ∃ next graph', tables.perform call = .ok next ∧ call.perform graph = .ok graph' ∧
        next.Holds graph' := by
  cases call with
  | addPackage package => exact .inr ⟨_, _, rfl, rfl, h.addPackage package⟩
  | addEdge edge =>
    show (∃ error, tables.addEdge edge = .error error ∧ graph.addEdge edge = .error error) ∨
      ∃ next graph', tables.addEdge edge = .ok next ∧ graph.addEdge edge = .ok graph' ∧ _
    by_cases hspans : graph.Spans edge
    · refine .inr ?_
      -- the outgoing table speaks for both when it is asked for an edge
      simp only [AdjacencyTables.addEdge, DependencyGraph.addEdge, h.contains_eq,
        h.mem_outgoing_iff, hspans.1, hspans.2]
      by_cases hmem : edge ∈ graph.edges
      · exact ⟨tables, graph, by simp [hmem], by simp [hmem], h⟩
      · exact ⟨_, _, by simp only [hmem]; rfl, by simp only [hmem]; rfl, h.append hspans⟩
    · refine .inl ⟨_, ?_, DependencyGraph.addEdge_of_not_spans hspans⟩
      rw [h.addEdge_error_iff]
      exact DependencyGraph.addEdge_of_not_spans hspans

end Holds

-- ---------------------------------------------------------------------------
-- Whole runs
-- ---------------------------------------------------------------------------

theorem build_concat (calls : List GraphCall) (call : GraphCall) :
    build (calls ++ [call]) = ((build calls).perform call).toOption.getD (build calls) :=
  List.foldl_concat _ _ _ _

theorem holds_build (calls : List GraphCall) : (build calls).Holds (DependencyGraph.build calls) := by
  induction calls using List.reverseRecOn with
  | nil => exact ⟨rfl, fun direction => by cases direction <;> rfl,
      fun direction _ => by cases direction <;> rfl⟩
  | append_singleton calls call ih =>
    rw [build_concat, DependencyGraph.build_concat]
    rcases ih.perform call with ⟨error, htables, hgraph⟩ | ⟨next, graph', htables, hgraph, hnext⟩
    · simpa [htables, hgraph, Except.toOption] using ih
    · simpa [htables, hgraph, Except.toOption] using hnext

theorem Holds.consistent (h : tables.Holds graph) (hsound : graph.Sound)
    (hnodup : graph.edges.Nodup) : tables.Consistent where
  nodup_ids := h.packages ▸ hsound.nodup_ids
  keys direction := by rw [h.keys, h.packages]
  outgoing id edge he := by
    rw [show tables.outgoing.edgesOf id = _ from h.edges .outgoing id] at he ⊢
    rw [show tables.incoming.edgesOf edge.target = _ from h.edges .incoming edge.target]
    obtain ⟨hedge, hid⟩ := DependencyGraph.mem_edgesFrom.mp he
    rw [h.contains_eq, h.contains_eq]
    refine ⟨hid, (hsound.spans edge hedge).1, (hsound.spans edge hedge).2, ?_, ?_⟩
    · exact List.count_eq_one_of_mem (hnodup.filter _) he
    · exact List.count_eq_one_of_mem (hnodup.filter _)
        (DependencyGraph.mem_edgesFrom.mpr ⟨hedge, rfl⟩)
  incoming id edge he := by
    rw [show tables.incoming.edgesOf id = _ from h.edges .incoming id] at he
    obtain ⟨hedge, hid⟩ := DependencyGraph.mem_edgesFrom.mp he
    exact ⟨hid, h.mem_outgoing_iff.mpr hedge⟩

end AdjacencyTables

def GraphCall.package? : GraphCall → Option Package
  | .addPackage package => some package
  | .addEdge _ => none

namespace DependencyGraph

variable {graph : DependencyGraph} {edge : Edge} {p q : PackageId} {kind : DependencyKind}

/-- One of some calls adds an edge, and does not fail. -/
def Adds (calls : List GraphCall) (edge : Edge) : Prop :=
  ∃ before after, calls = before ++ .addEdge edge :: after ∧
    ¬ (GraphCall.addEdge edge).Fails (build before)

theorem fails_addEdge_iff : (GraphCall.addEdge edge).Fails graph ↔ ¬ graph.Spans edge := by
  constructor
  · rintro ⟨error, herror⟩ hspans
    rw [GraphCall.perform, addEdge_of_spans hspans] at herror
    cases herror
  · exact fun hspans => ⟨_, addEdge_of_not_spans hspans⟩

theorem sound_build (calls : List GraphCall) : (build calls).Sound := by
  induction calls using List.reverseRecOn with
  | nil => exact ⟨List.nodup_nil, nofun⟩
  | append_singleton calls call ih =>
    rw [build_concat]
    cases call with
    | addPackage package => exact ih.addPackage package
    | addEdge edge => exact ih.addEdge_getD edge

theorem nodup_edges_build (calls : List GraphCall) : (build calls).edges.Nodup := by
  induction calls using List.reverseRecOn with
  | nil => exact List.nodup_nil
  | append_singleton calls call ih =>
    rw [build_concat]
    cases call with
    | addPackage package => exact ih
    | addEdge edge =>
      rw [GraphCall.perform, addEdge_getD]
      split_ifs with hnew
      · exact List.nodup_append'.mpr
          ⟨ih, List.nodup_singleton _, List.disjoint_singleton.mpr hnew.2⟩
      · exact ih

theorem packages_build (calls : List GraphCall) : (build calls).packages =
    Table.ofList (fun p q => p.id = q.id) (calls.filterMap GraphCall.package?) := by
  induction calls using List.reverseRecOn with
  | nil => rfl
  | append_singleton calls call ih =>
    rw [build_concat, List.filterMap_append]
    cases call with
    | addPackage package =>
      rw [show [GraphCall.addPackage package].filterMap GraphCall.package? = [package] from rfl,
        Table.ofList_concat, ← ih]
      rfl
    | addEdge edge =>
      rw [show [GraphCall.addEdge edge].filterMap GraphCall.package? = [] from rfl, List.append_nil,
        ← ih]
      exact packages_addEdge_getD _ edge

theorem adds_concat_iff {calls : List GraphCall} {call : GraphCall} :
    Adds (calls ++ [call]) edge ↔
      Adds calls edge ∨ call = .addEdge edge ∧ (build calls).Spans edge := by
  simp only [Adds, fails_addEdge_iff, not_not]
  constructor
  · rintro ⟨before, after, hsplit, hspans⟩
    rcases List.eq_nil_or_concat after with rfl | ⟨after, last, rfl⟩
    · obtain ⟨rfl, hcall⟩ := List.append_inj' hsplit rfl
      cases hcall
      exact .inr ⟨rfl, hspans⟩
    · rw [List.concat_eq_append, ← List.cons_append, ← List.append_assoc] at hsplit
      obtain ⟨rfl, -⟩ := List.append_inj' hsplit rfl
      exact .inl ⟨before, after, rfl, hspans⟩
  · rintro (⟨before, after, rfl, hspans⟩ | ⟨rfl, hspans⟩)
    · exact ⟨before, after ++ [call], by simp, hspans⟩
    · exact ⟨calls, [], rfl, hspans⟩

theorem mem_edges_build (calls : List GraphCall) :
    edge ∈ (build calls).edges ↔ Adds calls edge := by
  induction calls using List.reverseRecOn with
  | nil => simp [build, empty, Adds]
  | append_singleton calls call ih =>
    rw [adds_concat_iff, ← ih, build_concat]
    cases call with
    | addPackage package => simp [GraphCall.perform, Except.toOption, addPackage]
    | addEdge added =>
      rw [GraphCall.perform, addEdge_getD]
      split_ifs with hnew
      · simp only [List.mem_append, List.mem_singleton, GraphCall.addEdge.injEq]
        refine or_congr_right ⟨?_, fun h => h.1.symm⟩
        rintro rfl
        exact ⟨rfl, hnew.1⟩
      · refine ⟨.inl, ?_⟩
        rintro (h | ⟨hadded, hspans⟩)
        · exact h
        · cases hadded
          by_contra hmem
          exact hnew ⟨hspans, hmem⟩

theorem mem_neighbors_outgoing :
    q ∈ graph.neighbors p .outgoing kind ↔ ⟨p, q, kind⟩ ∈ graph.edges := by
  rw [mem_neighbors]
  constructor
  · rintro ⟨edge, hmem, rfl, rfl, rfl⟩
    exact hmem
  · exact fun hmem => ⟨_, hmem, rfl, rfl, rfl⟩

theorem mem_neighbors_incoming :
    p ∈ graph.neighbors q .incoming kind ↔ ⟨p, q, kind⟩ ∈ graph.edges := by
  rw [mem_neighbors]
  constructor
  · rintro ⟨edge, hmem, rfl, rfl, rfl⟩
    exact hmem
  · exact fun hmem => ⟨_, hmem, rfl, rfl, rfl⟩

-- ---------------------------------------------------------------------------
-- Calls on what other calls have built
-- ---------------------------------------------------------------------------

theorem keyed_ids (packages : List Package) :
    Table.Keyed (fun p q : Package => p.id = q.id) (·.id) packages := fun _ _ _ _ => rfl

theorem ids_build (calls : List GraphCall) : (build calls).packages.map (·.id) =
    ((calls.filterMap GraphCall.package?).map (·.id)).eraseDups := by
  rw [packages_build]
  exact Table.map_key_ofList (keyed_ids _)

theorem ids_addPackage_of_contains {package : Package} (h : graph.contains package.id) :
    (graph.addPackage package).packages.map (·.id) = graph.packages.map (·.id) := by
  rw [ids_addPackage, if_pos (contains_iff.mp h)]

theorem addEdge_of_mem (hsound : graph.Sound) (h : edge ∈ graph.edges) :
    graph.addEdge edge = .ok graph := by
  rw [addEdge_of_spans (hsound.spans edge h), if_pos h]

end DependencyGraph

namespace AdjacencyTables

variable {tables : AdjacencyTables} {graph : DependencyGraph} {edge : Edge}

theorem Holds.addPackage_of_contains (h : tables.Holds graph) {package : Package}
    (hknown : graph.contains package.id) :
    (tables.addPackage package).outgoing = tables.outgoing ∧
      (tables.addPackage package).incoming = tables.incoming := by
  rw [DependencyGraph.contains_iff] at hknown
  have hout : package.id ∈ tables.outgoing.map (·.1) := (h.keys .outgoing) ▸ hknown
  have hin : package.id ∈ tables.incoming.map (·.1) := (h.keys .incoming) ▸ hknown
  exact ⟨if_pos hout, if_pos hin⟩

theorem Holds.addEdge_of_mem (h : tables.Holds graph) (hsound : graph.Sound)
    (hmem : edge ∈ graph.edges) : tables.addEdge edge = .ok tables := by
  obtain ⟨hsource, htarget⟩ := hsound.spans edge hmem
  simp [addEdge, h.contains_eq, h.mem_outgoing_iff, hsource, htarget, hmem]

theorem Holds.perform_error_iff (h : tables.Holds graph) (call : GraphCall) (error : GraphError) :
    tables.perform call = .error error ↔ call.perform graph = .error error := by
  cases call with
  | addPackage package => simp [AdjacencyTables.perform, GraphCall.perform]
  | addEdge edge => exact h.addEdge_error_iff error

theorem Holds.exists_unknown (h : tables.Holds graph) (hspans : ¬ graph.Spans edge) :
    ∃ id, ¬ graph.contains id ∧ (id = edge.source ∨ id = edge.target) ∧
      graph.addEdge edge = .error (.unknownPackage id) ∧
      tables.addEdge edge = .error (.unknownPackage id) := by
  have hgraph := DependencyGraph.addEdge_of_not_spans hspans
  refine ⟨_, ?_, ?_, hgraph, (h.addEdge_error_iff _).mpr hgraph⟩
  · split_ifs with hsource
    · exact fun htarget => hspans ⟨hsource, htarget⟩
    · exact hsource
  · split_ifs
    · exact .inr rfl
    · exact .inl rfl

end AdjacencyTables

/-- Whatever calls have built a graph, those that fail included, its tables agree with each other
and with the graph. Packages come in the order in which they were first added, each as it was last
added. A package that is added again keeps its place and its edges, an edge that is there changes
nothing, nor does one between packages of which one is not there. And the neighbors of a package
are those that some call has added an edge to. -/
theorem DependencyGraph.build_keeps_tables (calls : List GraphCall) :
    let graph := build calls
    let tables := AdjacencyTables.build calls
    let added := calls.filterMap GraphCall.package?
    tables.Holds graph ∧ tables.Consistent ∧
    (∀ call error, tables.perform call = .error error ↔ call.perform graph = .error error) ∧
    graph.packages.map (·.id) = (added.map (·.id)).eraseDups ∧
    (∀ id, graph.package? id = (added.filter (·.id = id)).getLast?) ∧
    (∀ package, graph.contains package.id →
      (graph.addPackage package).packages.map (·.id) = graph.packages.map (·.id) ∧
      (∀ id, (graph.addPackage package).package? id =
        if package.id = id then some package else graph.package? id) ∧
      (graph.addPackage package).edges = graph.edges ∧
      (tables.addPackage package).outgoing = tables.outgoing ∧
      (tables.addPackage package).incoming = tables.incoming) ∧
    (∀ edge ∈ graph.edges, graph.addEdge edge = .ok graph ∧ tables.addEdge edge = .ok tables) ∧
    (∀ edge, ¬ graph.Spans edge →
      (∃ id, ¬ graph.contains id ∧ (id = edge.source ∨ id = edge.target) ∧
        graph.addEdge edge = .error (.unknownPackage id) ∧
        tables.addEdge edge = .error (.unknownPackage id)) ∧
      build (calls ++ [.addEdge edge]) = graph ∧
      AdjacencyTables.build (calls ++ [.addEdge edge]) = tables) ∧
    ∀ p q kind,
      (q ∈ graph.neighbors p .outgoing kind ↔ Adds calls ⟨p, q, kind⟩) ∧
      (p ∈ graph.neighbors q .incoming kind ↔ Adds calls ⟨p, q, kind⟩) ∧
      (graph.neighbors p .outgoing kind).Nodup ∧ (graph.neighbors q .incoming kind).Nodup := by
  intro graph tables added
  have hholds : tables.Holds graph := AdjacencyTables.holds_build calls
  have hsound : graph.Sound := sound_build calls
  refine ⟨hholds, hholds.consistent hsound (nodup_edges_build calls), hholds.perform_error_iff,
    ids_build calls, ?last, ?again, ?present, ?unknown, ?neighbors⟩
  case last =>
    intro id
    rw [package?, show graph.packages = _ from packages_build calls]
    exact Table.find?_ofList (keyed_ids _) id
  case again =>
    intro package hknown
    exact ⟨ids_addPackage_of_contains hknown, package?_addPackage graph package, rfl,
      hholds.addPackage_of_contains hknown⟩
  case present =>
    intro edge hmem
    exact ⟨addEdge_of_mem hsound hmem, hholds.addEdge_of_mem hsound hmem⟩
  case unknown =>
    intro edge hspans
    obtain ⟨id, hunknown, hend, hgraph, htables⟩ := hholds.exists_unknown hspans
    refine ⟨⟨id, hunknown, hend, hgraph, htables⟩, ?_, ?_⟩
    · rw [build_concat, GraphCall.perform, hgraph]
      rfl
    · rw [AdjacencyTables.build_concat, AdjacencyTables.perform, htables]
      rfl
  case neighbors =>
    intro p q kind
    rw [mem_neighbors_outgoing, mem_neighbors_incoming, mem_edges_build]
    exact ⟨Iff.rfl, Iff.rfl, nodup_neighbors, nodup_neighbors⟩

end UnsafeAudit
