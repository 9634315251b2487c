import UnsafeAudit.Graph.Kind
import UnsafeAudit.Package.Basic
import UnsafeAudit.Table

/-!
# Dependency graphs

Packages in the order in which they first came, and edges in the order in
which they were added. Both ends of an edge are packages of the graph, no edge
is there twice, and putting a package again replaces its data only.
-/

namespace UnsafeAudit

structure Edge where
  source : PackageId
  target : PackageId
  kind : DependencyKind
  deriving DecidableEq, Repr

namespace Edge

def start (edge : Edge) : Direction → PackageId
  | .outgoing => edge.source
  | .incoming => edge.target

def stop (edge : Edge) : Direction → PackageId
  | .outgoing => edge.target
  | .incoming => edge.source

end Edge

inductive GraphError
  | unknownPackage (id : PackageId)
  deriving DecidableEq, Repr

def GraphError.message : GraphError → String
  | .unknownPackage id => s!"Unknown package: {id}"

structure DependencyGraph where
  packages : List Package
  edges : List Edge
  deriving DecidableEq, Repr

namespace DependencyGraph

def empty : DependencyGraph := ⟨[], []⟩

def package? (graph : DependencyGraph) (id : PackageId) : Option Package :=
  graph.packages.find? (·.id = id)

def contains (graph : DependencyGraph) (id : PackageId) : Bool :=
  graph.packages.any (·.id = id)

def size (graph : DependencyGraph) : Nat := graph.packages.length

/-- Adds a package. The one that has its identity is replaced. -/
def addPackage (graph : DependencyGraph) (package : Package) : DependencyGraph :=
  { graph with packages := Table.put (fun p q => p.id = q.id) package graph.packages }

/-- Adds an edge between known packages. An edge that is there already changes nothing. -/
def addEdge (graph : DependencyGraph) (edge : Edge) : Except GraphError DependencyGraph :=
  if !graph.contains edge.source then .error (.unknownPackage edge.source)
  else if !graph.contains edge.target then .error (.unknownPackage edge.target)
  else if edge ∈ graph.edges then .ok graph
  else .ok { graph with edges := graph.edges ++ [edge] }

def getPackage (graph : DependencyGraph) (id : PackageId) : Except GraphError Package :=
  match graph.package? id with
  | some package => .ok package
  | none => .error (.unknownPackage id)

def edgesFrom (graph : DependencyGraph) (id : PackageId) (direction : Direction) : List Edge :=
  graph.edges.filter (·.start direction = id)

def neighbors (graph : DependencyGraph) (id : PackageId) (direction : Direction)
    (kind : DependencyKind) : List PackageId :=
  (((graph.edgesFrom id direction).filter (·.kind = kind)).map (·.stop direction)).eraseDups

end DependencyGraph

end UnsafeAudit
