import UnsafeAudit.Text.Lines

/-!
# Paths

A path is an anchor and a list of component names. Repeated separators and `.`
components vanish when a text is read, `..` components stay: only the file
system can say what they mean. Two leading separators are an anchor of their
own, three or more are one.
-/

namespace UnsafeAudit

inductive Anchor
  | relative
  | root
  | doubleRoot
  deriving DecidableEq, Repr

structure Path where
  anchor : Anchor
  parts : List String
  deriving DecidableEq, Repr

namespace Path

/-- The component names in a text: what stands between separators, less empty names and `.`. -/
def componentsOf (text : String) : List String :=
  ((Text.splitOn '/' text.toList).map String.ofList).filter fun name => name ≠ "" ∧ name ≠ "."

def anchorOf (text : String) : Anchor :=
  match text.toList with
  | '/' :: '/' :: '/' :: _ => .root
  | '/' :: '/' :: _ => .doubleRoot
  | '/' :: _ => .root
  | _ => .relative

def ofString (text : String) : Path := ⟨anchorOf text, componentsOf text⟩

def Anchor.text : Anchor → String
  | .relative => ""
  | .root => "/"
  | .doubleRoot => "//"

def toString (path : Path) : String :=
  match path.anchor, path.parts with
  | .relative, [] => "."
  | anchor, parts => Anchor.text anchor ++ Text.joinWith "/" parts

instance : ToString Path := ⟨toString⟩

def isAbsolute (path : Path) : Bool := path.anchor ≠ .relative

/-- `base / other`: an absolute right side stands for itself. -/
def join (base other : Path) : Path :=
  if other.isAbsolute then other else ⟨base.anchor, base.parts ++ other.parts⟩

def child (base : Path) (name : String) : Path := ⟨base.anchor, base.parts ++ [name]⟩

/-- The directory that holds a path; an anchor alone holds itself. -/
def parent (path : Path) : Path := ⟨path.anchor, path.parts.dropLast⟩

def name (path : Path) : String := path.parts.getLast?.getD ""

/-- The suffix of a name: from its last dot, when that dot is neither first nor last. -/
def suffixOf (name : String) : String :=
  let reversed := name.toList.reverse
  let tail := reversed.takeWhile (· ≠ '.')
  let stem := (reversed.dropWhile (· ≠ '.')).drop 1
  if tail.length = reversed.length || tail.isEmpty || stem.isEmpty then ""
  else String.ofList ('.' :: tail.reverse)

def suffix (path : Path) : String := suffixOf path.name

/-- The components with the anchor as one of them: what paths are ordered and measured by. -/
def components (path : Path) : List String :=
  match path.anchor with
  | .relative => path.parts
  | anchor => Anchor.text anchor :: path.parts

def hasNull (path : Path) : Bool := path.parts.any fun name => '\x00' ∈ name.toList

/-- Whether `path` lies at or below `root`, component by component. -/
def isBelow (path root : Path) : Bool := root.components.isPrefixOf path.components

def namesLE : List String → List String → Bool
  | [], _ => true
  | _ :: _, [] => false
  | a :: as, b :: bs => a < b || (a == b && namesLE as bs)

/-- Paths are ordered by their components, not by their text. -/
def le (a b : Path) : Bool := namesLE a.components b.components

def sort (paths : List Path) : List Path := paths.mergeSort le

def atRoot (names : List String) : Path := ⟨.root, names⟩

end Path

end UnsafeAudit
