/-!
# Dependency kinds

Every dependency has a kind. The kinds have a fixed order, in which the
dependencies of a package are shown; each kind but the normal one has a label
for its group, and the last kind has none and is never shown.
-/

namespace UnsafeAudit

inductive DependencyKind
  | normal
  | build
  | development
  | targetSpecific
  | other
  deriving DecidableEq, Repr

namespace DependencyKind

def all : List DependencyKind := [.normal, .build, .development, .targetSpecific, .other]

def word : DependencyKind → String
  | .normal => "normal"
  | .build => "build"
  | .development => "dev"
  | .targetSpecific => "target"
  | .other => "other"

def ofWord? (w : String) : Option DependencyKind := all.find? (·.word == w)

def group? : DependencyKind → Option String
  | .build => some "build-dependencies"
  | .development => some "dev-dependencies"
  | .targetSpecific => some "target-dependencies"
  | .normal | .other => none

end DependencyKind

inductive Direction
  | outgoing
  | incoming
  deriving DecidableEq, Repr

namespace Direction

def all : List Direction := [.outgoing, .incoming]

def word : Direction → String
  | .outgoing => "outgoing"
  | .incoming => "incoming"

def ofWord? (w : String) : Option Direction := all.find? (·.word == w)

def flip : Direction → Direction
  | .outgoing => .incoming
  | .incoming => .outgoing

end Direction

end UnsafeAudit
