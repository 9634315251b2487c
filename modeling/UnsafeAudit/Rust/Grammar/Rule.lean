import UnsafeAudit.Rust.Token
import UnsafeAudit.Rust.Tree

/-!
# Grammar rules

A rule takes tokens from the front and gives the forest that they make. Rules
look a few tokens ahead and choose; where that is not enough, `<|>` tries
the second rule at the place of the first.
-/

namespace UnsafeAudit.Rust

namespace Token

def isWord (word : String) (t : Token) : Bool := t.kind = .word && t.text = word.toList

def isOneOf (words : List String) (t : Token) : Bool := words.any t.isWord

def isPunct (c : Char) (t : Token) : Bool := t.kind = .punct && t.text = [c]

def forest (t : Token) : Forest :=
  (t.comments.map fun (gap, text) => .comment gap text) ++ [.leaf t.gap t.text]

end Token

namespace Grammar

/-- What is parsed by recursion. `structs` tells whether a name and a brace make a struct
value; they do not in the head of an `if`, `while`, `for` or `match`. -/
inductive Nonterminal
  | tokenTree
  /-- A type, and the further bounds after `+` where `sums` allows them. -/
  | type (sums : Bool)
  /-- A pattern, and the further ones after `|` where `alternatives` allows them. -/
  | pattern (alternatives : Bool)
  | expression (structs : Bool)
  | operand (structs : Bool)
  | block
  | blockLike
  | matchArm
  | statement
  deriving DecidableEq, Repr

/-- The tokens that are left, with a number that no run of rules over them exceeds. -/
structure Input where
  tokens : List Token
  bound : Nat

abbrev Matcher := StateT Input Option

abbrev Rule := Matcher Forest

def upcoming : Matcher (List Token) := do return (← get).tokens

def peek : Matcher Token := do return (← upcoming).headD .stop

def peekSecond : Matcher Token := do return (← upcoming).tail.headD .stop

def shift : Rule := do
  match ← get with
  | ⟨t :: rest, bound⟩ =>
    if t.kind = .stop then failure
    set (Input.mk rest bound)
    return t.forest
  | ⟨[], _⟩ => failure

def expect (wanted : Token → Bool) : Rule := do
  if wanted (← peek) then shift else failure

def word (spelling : String) : Rule := expect (·.isWord spelling)

def name : Rule := expect (·.kind = .word)

def sym (c : Char) : Rule := expect (·.isPunct c)

def cat : List Rule → Rule
  | [] => pure []
  | rule :: rules => do return (← rule) ++ (← cat rules)

/-- The forest in which `forest` is one node. Comments before its first token stay outside. -/
def wrap (kind : NodeKind) (forest : Forest) : Forest :=
  forest.takeWhile Tree.isComment ++ [.node kind (forest.dropWhile Tree.isComment)]

def node (kind : NodeKind) (rule : Rule) : Rule := do return wrap kind (← rule)

def named (name : String) (rule : Rule) : Rule := node (.other name) rule

def whenNext (fits : Token → Bool) (rule : Rule) : Rule := do
  if fits (← peek) then rule else pure []

def optWord (spelling : String) : Rule := whenNext (·.isWord spelling) shift

def optSym (c : Char) : Rule := whenNext (·.isPunct c) shift

def iterate (goesOn : Matcher Bool) (rule : Rule) : Nat → Rule
  | 0 => pure []
  | steps + 1 => do
    if ← goesOn then return (← rule) ++ (← iterate goesOn rule steps) else pure []

/-- A rule again and again while `goesOn` holds. Each time takes a token at least. -/
def repeatWhile (goesOn : Matcher Bool) (rule : Rule) : Rule := do
  iterate goesOn rule (← get).bound

def repeatUntil (ends : Token → Bool) (rule : Rule) : Rule :=
  repeatWhile (do let t ← peek; return t.kind ≠ .stop && !ends t) rule

def listOf (opening closing : Char) (item : Rule) : Rule :=
  cat [sym opening,
    repeatUntil (·.isPunct closing)
      (cat [item, whenNext (fun t => t.isPunct ',' || t.isPunct ';') shift]),
    sym closing]

/-- Whether the next tokens are some punctuation whose characters touch. -/
def spelled : List Char → List Token → Bool
  | [], _ => true
  | [c], t :: _ => t.isPunct c
  | c :: d :: rest, t :: ts => t.isPunct c && t.joint && spelled (d :: rest) ts
  | _, [] => false

def nextIs (spelling : String) : Matcher Bool := do return spelled spelling.toList (← upcoming)

/-- The forest in which what stands behind the comments is one leaf. -/
def fuse (forest : Forest) : Forest :=
  match forest.dropWhile Tree.isComment with
  | .leaf gap text :: rest =>
    forest.takeWhile Tree.isComment ++ [.leaf gap (text ++ rest.flatMap Tree.text)]
  | _ => forest

def op (spelling : String) : Rule := do
  if ← nextIs spelling then return fuse (← cat (spelling.toList.map fun _ => shift)) else failure

def optOp (spelling : String) (rule : Rule) : Rule := do
  if ← nextIs spelling then cat [op spelling, rule] else pure []

def isOpening (t : Token) : Bool := t.isPunct '(' || t.isPunct '[' || t.isPunct '\x7b'

def isClosing (t : Token) : Bool := t.isPunct ')' || t.isPunct ']' || t.isPunct '\x7d'

variable (self : Nonterminal → Rule)

def tokenTree : Rule := do
  if isOpening (← peek) then
    named "token_tree" (cat [shift, repeatUntil isClosing (self .tokenTree), expect isClosing])
  else expect fun t => !isClosing t

def untilSemicolon : Rule :=
  cat [repeatUntil (fun t => t.isPunct ';' || isClosing t) (self .tokenTree), sym ';']

def metaItem : Rule :=
  cat [optOp "::" (pure []), name, repeatWhile (nextIs "::") (cat [op "::", name]),
    whenNext (·.isPunct '=') (cat [sym '=', self (.expression true)]),
    whenNext isOpening (self .tokenTree)]

def attributeItem : Rule := do
  let inner := (← peekSecond).isPunct '!'
  node (if inner then .innerAttributeItem else .attributeItem)
    (cat [sym '#', optSym '!', sym '[',
      cat [node .metaItem (metaItem self), sym ']'] <|>
        cat [node .metaItem (repeatUntil (·.isPunct ']') (self .tokenTree)), sym ']']])

def attributes : Rule := repeatWhile (do return (← peek).isPunct '#') (attributeItem self)

end Grammar

end UnsafeAudit.Rust
