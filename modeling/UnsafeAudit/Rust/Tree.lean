/-!
# Rust syntax trees

A concrete syntax tree: every token and every comment of a file is in it, with the blanks in
front of it, so that a tree tells the text that it was parsed from. A node has a kind and children;
keywords, punctuation, names and literals are leaves. Attributes are siblings before the item that
they annotate.

What parses files is left open. Whatever scans them takes a `Parser`.
-/

namespace UnsafeAudit.Rust

/-- Kinds of nodes. Those that do not matter for unsafe code go by a name. -/
inductive NodeKind
  | sourceFile
  | declarationList
  | attributeItem
  | innerAttributeItem
  | metaItem
  | functionModifiers
  | functionItem
  | functionSignatureItem
  | implItem
  | traitItem
  | unsafeBlock
  | other (name : String)
  deriving DecidableEq, Repr

structure Piece where
  gap : List Char
  text : List Char
  isComment : Bool
  deriving DecidableEq, Repr

inductive Tree where
  | leaf (gap text : List Char)
  | comment (gap text : List Char)
  | node (kind : NodeKind) (children : List Tree)
  deriving Inhabited, Repr

abbrev Forest := List Tree

namespace Tree

def isComment : Tree → Bool
  | .comment .. => true
  | _ => false

def isNode (kind : NodeKind) : Tree → Bool
  | .node k _ => k = kind
  | _ => false

def isToken (spelling : String) : Tree → Bool
  | .leaf _ text => text = spelling.toList
  | _ => false

def children : Tree → List Tree
  | .node _ children => children
  | _ => []

mutual
def pieces : Tree → List Piece
  | .leaf gap text => [⟨gap, text, false⟩]
  | .comment gap text => [⟨gap, text, true⟩]
  | .node _ children => forestPieces children
def forestPieces : Forest → List Piece
  | [] => []
  | tree :: rest => tree.pieces ++ forestPieces rest
end

/-- The text from the first piece to the last, without the blanks in front of the first. -/
def text (tree : Tree) : List Char :=
  match tree.pieces with
  | [] => []
  | first :: rest => first.text ++ rest.flatMap fun piece => piece.gap ++ piece.text

end Tree

class Parser where
  parse : List Char → Tree

end UnsafeAudit.Rust
