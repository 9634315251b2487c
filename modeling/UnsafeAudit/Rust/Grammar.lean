import UnsafeAudit.Rust.Grammar.Items

/-!
# Parsing Rust files

A parser to run the program with. Macros stay unexpanded: their bodies are token trees. No result
about scanning looks into it, since all hold for every parser.
-/

namespace UnsafeAudit.Rust

namespace Grammar

def ruleOf (self : Nonterminal → Rule) : Nonterminal → Rule
  | .tokenTree => tokenTree self
  | .type sums => type self sums
  | .pattern alternatives => pattern self alternatives
  | .expression structs => expression self structs
  | .operand structs => operand self structs
  | .block => block self
  | .blockLike => blockLike self
  | .matchArm => matchArm self
  | .statement => statement self

def parse : Nat → Nonterminal → Rule
  | 0, _ => failure
  | depth + 1, nonterminal => ruleOf (parse depth) nonterminal

/-- How deep the nonterminals of a file can nest: fewer than eight can follow each other without a
token between them. -/
def depthOf (tokens : List Token) : Nat := 8 * tokens.length + 8

def file (tokens : List Token) : Forest :=
  let statements := repeatUntil (fun _ => false) (parse (depthOf tokens) .statement)
  match statements.run ⟨tokens, tokens.length⟩ with
  | some (forest, rest) =>
    forest ++ (rest.tokens.headD .stop).comments.map fun (gap, text) => .comment gap text
  | none => []

/-- The syntax tree of a file. A byte order mark before it is no part of it. -/
def treeOf (source : List Char) : Tree :=
  let text := if source.head? = some '\uFEFF' then source.tail else source
  match splitShebang text with
  | some (line, rest) =>
    .node .sourceFile (.node (.other "shebang") [.leaf [] line] :: file (Token.scan rest))
  | none => .node .sourceFile (file (Token.scan text))

end Grammar

/-- The parser that the program is run with. -/
instance : Parser := ⟨Grammar.treeOf⟩

end UnsafeAudit.Rust
