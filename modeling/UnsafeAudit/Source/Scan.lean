import UnsafeAudit.Rust.Tree
import UnsafeAudit.Text.Lines
import UnsafeAudit.Verdict.Basic

/-!
# Unsafe constructs of a syntax tree

An outer attribute is a sibling of what it annotates. Where test code does not
count, a test attribute drops the next sibling that is neither a comment nor
an attribute, with all below it.

A file forbids unsafe code by an inner attribute of the file itself. What an
attribute says is read from its text without blanks.
-/

namespace UnsafeAudit

open Rust (Tree NodeKind)

namespace Rust.Tree

/-- Blanks that do not count in the text of an attribute. -/
def isAsciiBlank (c : Char) : Bool := c = ' ' || ('\t' ≤ c && c ≤ '\r')

def attributeText? (tree : Tree) : Option (List Char) :=
  (tree.children.find? (·.isNode .metaItem)).map fun item =>
    item.text.filter fun c => !isAsciiBlank c

def isTestAttribute (tree : Tree) : Bool :=
  let text := tree.attributeText?
  text = some "test".toList || text = some "cfg(test)".toList

def forbidArguments? (text : List Char) : Option (List (List Char)) :=
  let opening := "forbid(".toList
  if opening.isPrefixOf text && text.getLast? = some ')' then
    some (Text.splitOn ',' (text.drop opening.length).dropLast)
  else none

def forbidsUnsafe (tree : Tree) : Bool :=
  match tree.attributeText?.bind forbidArguments? with
  | some arguments => arguments.contains "unsafe_code".toList
  | none => false

end Rust.Tree

/-- Where a node stands, as far as functions there are methods. -/
inductive Surroundings
  | elsewhere
  /-- Directly in an `impl` or a `trait`. -/
  | container
  /-- Directly in the body of an `impl` or a `trait`. -/
  | body
  deriving DecidableEq, Repr

def Surroundings.within (outer : Surroundings) (kind : NodeKind) : Surroundings :=
  if kind = .implItem || kind = .traitItem then .container
  else if kind = .declarationList && outer = .container then .body
  else .elsewhere

/-- Whether the word `unsafe` is among the children of a node or, if the node has modifiers, among
those. What comes first decides. -/
def hasUnsafeModifier : List Tree → Bool
  | [] => false
  | child :: rest =>
    if child.isToken "unsafe" then true
    else if child.isNode .functionModifiers then child.children.any (·.isToken "unsafe")
    else hasUnsafeModifier rest

namespace UnsafeCounts

/-- What one node adds, what is below it apart. -/
def ofNode (surroundings : Surroundings) (kind : NodeKind) (children : List Tree) : UnsafeCounts :=
  let marked := hasUnsafeModifier children
  match kind with
  | .unsafeBlock => { zero with exprs := 1 }
  | .functionItem | .functionSignatureItem =>
    if !marked then zero
    else if surroundings = .body then { zero with methods := 1 }
    else { zero with functions := 1 }
  | .traitItem => if marked then { zero with itemTraits := 1 } else zero
  | .implItem => if marked then { zero with itemImpls := 1 } else zero
  | _ => zero

mutual
def ofTree (includeTests : Bool) (surroundings : Surroundings) : Tree → UnsafeCounts
  | .node kind children =>
    ofNode surroundings kind children +
      ofSiblings includeTests (surroundings.within kind) false children
  | _ => zero
/-- The counts of siblings. `dropNext` says that a test attribute waits for what it annotates. -/
def ofSiblings (includeTests : Bool) (surroundings : Surroundings) (dropNext : Bool) :
    List Tree → UnsafeCounts
  | [] => zero
  | tree :: rest =>
    if tree.isNode .attributeItem then
      ofSiblings includeTests surroundings
        (dropNext || (!includeTests && tree.isTestAttribute)) rest
    else if tree.isComment then ofSiblings includeTests surroundings dropNext rest
    else if dropNext then ofSiblings includeTests surroundings false rest
    else
      ofTree includeTests surroundings tree + ofSiblings includeTests surroundings false rest
end

end UnsafeCounts

namespace FileUsage

def ofTree (includeTests : Bool) (file : Tree) : FileUsage where
  counts := UnsafeCounts.ofSiblings includeTests .elsewhere false file.children
  forbidsUnsafe := file.children.any fun child =>
    child.isNode .innerAttributeItem && child.forbidsUnsafe

def ofSource [Rust.Parser] (includeTests : Bool) (source : List Char) : FileUsage :=
  ofTree includeTests (Rust.Parser.parse source)

end FileUsage

end UnsafeAudit
