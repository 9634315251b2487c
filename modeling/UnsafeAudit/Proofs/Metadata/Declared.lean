import UnsafeAudit.Config.Basic
import UnsafeAudit.Metadata.Load
import UnsafeAudit.Proofs.Metadata.Shapes

/-!
# What a document declares

The packages and the resolve of a well-typed document, read off the document
itself. Where an id is listed more than once its last description counts. A
dependency is included with those of its kinds that settings ask for.
-/

namespace UnsafeAudit.Declared

open Json (Shape)
open Json.Shape

-- ---------------------------------------------------------------------------
-- Well-typed documents
-- ---------------------------------------------------------------------------

def targetShape : Shape :=
  record [("name", text), ("src_path", text)] [("kind", list text), ("crate_types", list text)]

def packageShape : Shape :=
  record [("id", text), ("name", text), ("version", text), ("manifest_path", text)]
    [("source", orNull text), ("license", orNull text), ("repository", orNull text),
      ("targets", list targetShape)]

def kindShape : Shape := record [] [("kind", orNull text), ("target", orNull text)]

def dependencyShape : Shape := record [("pkg", text)] [("dep_kinds", orNull (list kindShape))]

def nodeShape : Shape :=
  record [("id", text)] [("features", list text), ("deps", list dependencyShape)]

def resolveShape : Shape := record [] [("root", orNull text), ("nodes", list nodeShape)]

def documentShape : Shape :=
  record [("resolve", resolveShape)]
    [("workspace_root", text), ("target_directory", orNull text),
      ("packages", list packageShape)]

/-- A document in which every field has the type that cargo gives it. What the audit has a default
for may be missing. -/
def WellTyped (document : Json) : Prop := documentShape document

instance : DecidablePred WellTyped := fun _ => inferInstanceAs (Decidable (_ = true))

-- ---------------------------------------------------------------------------
-- Packages and nodes
-- ---------------------------------------------------------------------------

section

variable (document : Json) (config : GraphConfig)

def packages : List Json := document.itemsAt "packages"

def resolve : Json := (document.field? "resolve").getD .null

def nodes : List Json := (resolve document).itemsAt "nodes"

def last? (descriptions : List Json) (id : String) : Option Json :=
  (descriptions.filter (·.textAt "id" = id)).getLast?

def identityOf (package : Json) : PackageId :=
  ⟨package.textAt "name", package.textAt "version", package.textAt? "source",
    package.textAt "id"⟩

/-- The identity of the package with an id. Without one the id is dangling. -/
def identity? (id : String) : Option PackageId := (last? (packages document) id).map identityOf

def target? (target : Json) : Option Target :=
  (TargetKind.ofListed? (target.textsAt "kind") (target.textsAt "crate_types")).map fun kind =>
    ⟨target.textAt "name", kind, Path.ofString (target.textAt "src_path")⟩

def features (id : String) : List String :=
  match last? (nodes document) id with
  | some node => node.textsAt "features"
  | none => []

def packageOf (package : Json) : Package where
  id := identityOf package
  manifestPath := Path.ofString (package.textAt "manifest_path")
  license := package.textAt? "license"
  repository := package.textAt? "repository"
  features := features document (package.textAt "id")
  targets := (package.itemsAt "targets").filterMap target?

def package? (id : String) : Option Package :=
  (last? (packages document) id).map (packageOf document)

/-- The ids that have a node, each once, as they first come. -/
def nodeIds : List String := ((nodes document).map (·.textAt "id")).eraseDups

-- ---------------------------------------------------------------------------
-- Dependencies
-- ---------------------------------------------------------------------------

/-- The kinds in which a dependency is declared: normal, if no kind is given. -/
def kinds (dependency : Json) : List DependencyKind :=
  match dependency.itemsAt "dep_kinds" with
  | [] => [.normal]
  | declared => declared.map fun kind =>
    Metadata.dependencyKind (.ofOption .str (kind.textAt? "kind"))
      (.ofOption .str (kind.textAt? "target"))

def dependencies (id : String) : List Json :=
  match last? (nodes document) id with
  | some node => node.itemsAt "deps"
  | none => []

/-- The dependencies of a package, each with every included kind of it, in the order of the
document. -/
def included (id : String) : List (String × DependencyKind) :=
  (dependencies document id).flatMap fun dependency =>
    ((kinds dependency).filter config.includes).map (dependency.textAt "pkg", ·)

def targets (id : String) : List String := (included document config id).map (·.1)

def dependents (id : String) : List String :=
  (nodeIds document).filter (id ∈ targets document config ·)

/-- Every id of the resolve is listed. -/
structure Closed : Prop where
  node : ∀ node ∈ nodes document, identity? document (node.textAt "id") ≠ none
  dependency : ∀ node ∈ nodes document, ∀ dependency ∈ node.itemsAt "deps",
    identity? document (dependency.textAt "pkg") ≠ none

end

-- ---------------------------------------------------------------------------
-- A document
-- ---------------------------------------------------------------------------

namespace Sample

def package (id : String) : Json := .obj [
  ("id", .str id), ("name", .str id), ("version", .str "1"), ("manifest_path", .str id)]

def dependency (id : String) (kind : Json) : Json := .obj [
  ("pkg", .str id), ("dep_kinds", .arr [.obj [("kind", kind)]])]

def node (id : String) (deps : List Json) : Json := .obj [("id", .str id), ("deps", .arr deps)]

/-- The package `a` depends on `b`, which depends on `a` to be developed. -/
def document : Json := .obj [
  ("packages", .arr [package "a", package "b"]),
  ("resolve", .obj [
    ("root", .str "a"),
    ("nodes", .arr [node "a" [dependency "b" .null], node "b" [dependency "a" (.str "dev")]])])]

def a : PackageId := ⟨"a", "1", none, "a"⟩
def b : PackageId := ⟨"b", "1", none, "b"⟩

def config : GraphConfig := ⟨false, true, false, false⟩

theorem wellTyped : WellTyped document := by decide

theorem closed : Closed document := ⟨by decide, by decide⟩

end Sample

end UnsafeAudit.Declared
