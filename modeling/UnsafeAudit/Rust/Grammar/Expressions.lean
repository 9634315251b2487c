import UnsafeAudit.Rust.Grammar.Patterns

/-!
# Expressions

A chain of operators makes one flat node: how tightly operators bind does not
matter here. What matters is where an expression ends, and that each operand
is one tree.
-/

namespace UnsafeAudit.Rust.Grammar

/-- The operators between two operands, longer ones before those that they start with. -/
def infixSpellings : List String :=
  ["<<=", ">>=", "..=", "...", "&&", "||", "==", "!=", "<=", ">=", "<<", ">>", "+=", "-=", "*=",
    "/=", "%=", "^=", "&=", "|=", "..", "=", "+", "-", "*", "/", "%", "^", "&", "|", "<", ">"]

def infixOperator? (tokens : List Token) : Option String :=
  if spelled ['=', '>'] tokens then none
  else infixSpellings.find? fun spelling => spelled spelling.toList tokens

def isRange (spelling : String) : Bool := spelling = ".." || spelling = "..=" || spelling = "..."

def startsExpression (structs : Bool) (t : Token) : Bool :=
  match t.kind with
  | .word => !t.isOneOf ["as", "else", "in", "where"]
  | .lifetime | .literal => true
  | .punct =>
    ['(', '[', '-', '*', '!', '&', '|', '<', ':'].any t.isPunct || (structs && t.isPunct '\x7b')
  | .stop => false

variable (self : Nonterminal → Rule)

def link (structs : Bool) : Rule := do
  if (← peek).isWord "as" then cat [shift, self (.type false)]
  else
    match infixOperator? (← upcoming) with
    | some spelling =>
      if isRange spelling then
        cat [op spelling, whenNext (startsExpression structs) (self (.operand structs))]
      else cat [op spelling, self (.operand structs)]
    | none => failure

def chainFrom (structs : Bool) (first : Forest) : Rule := do
  let links ← repeatWhile
    (do return (← peek).isWord "as" || (infixOperator? (← upcoming)).isSome) (link self structs)
  if links.isEmpty then pure first else return wrap (.other "binary_expression") (first ++ links)

def expression (structs : Bool) : Rule := do
  match infixOperator? (← upcoming) with
  | some spelling =>
    if isRange spelling then
      let opened ← named "binary_expression"
        (cat [op spelling, whenNext (startsExpression structs) (self (.operand structs))])
      chainFrom self structs opened
    else chainFrom self structs (← self (.operand structs))
  | none => chainFrom self structs (← self (.operand structs))

/-- A value among others. Its attributes stand beside it. -/
def element : Rule := cat [attributes self, self (.expression true)]

def argumentList : Rule := named "arguments" (listOf '(' ')' (element self))

def postfixStep (first : Forest) : Rule := do
  let t ← peek
  if t.isPunct '?' then named "try_expression" (cat [pure first, shift])
  else if t.isPunct '(' then named "call_expression" (cat [pure first, argumentList self])
  else if t.isPunct '[' then
    named "index_expression" (cat [pure first, sym '[', self (.expression true), sym ']'])
  else if t.isPunct '.' then
    named "field_expression" (cat [pure first, shift,
      expect (fun t => t.kind = .word || t.kind = .literal), do
        if ← nextIs "::<" then cat [op "::", typeArguments self] else pure []])
  else failure

def postfixFrom (goesOn : Matcher Bool) : Nat → Forest → Rule
  | 0, first => pure first
  | steps + 1, first => do
    if ← goesOn then postfixFrom goesOn steps (← postfixStep self first) else pure first

def nextIsAccess : Matcher Bool := do
  return (← peek).isPunct '?' || ((← peek).isPunct '.' && !(← nextIs ".."))

def nextIsPostfix : Matcher Bool := do
  return (← nextIsAccess) || (← peek).isPunct '(' || (← peek).isPunct '['

def postfixes (goesOn : Matcher Bool) (first : Forest) : Rule := do
  postfixFrom self goesOn (← get).bound first

def fieldInitializer : Rule := do
  if ← nextIs ".." then
    named "field_initializer"
      (cat [op "..", whenNext (startsExpression true) (self (.expression true))])
  else
    named "field_initializer"
      (cat [attributes self, expect (fun t => t.kind = .word || t.kind = .literal),
        whenNext (·.isPunct ':') (cat [sym ':', self (.expression true)])])

def pathOperand (structs : Bool) : Rule := do
  let path ← valuePath self
  let t ← peek
  if t.isPunct '!' && !(← nextIs "!=") then
    named "macro_invocation" (cat [pure path, shift, self .tokenTree])
  else if structs && t.isPunct '\x7b' then
    named "struct_expression"
      (cat [pure path,
        named "field_initializer_list" (listOf '\x7b' '\x7d' (fieldInitializer self))])
  else pure path

def closureParameter : Rule :=
  cat [attributes self,
    named "parameter" (cat [self (.pattern false),
      whenNext (·.isPunct ':') (cat [sym ':', self (.type true)])])]

/-- A closure from its modifiers on. A return type makes a block of its body. -/
def closure (structs : Bool) : Rule :=
  named "closure_expression" (cat [
    whenNext (·.isWord "for") (forLifetimes self),
    repeatWhile (do return (← peek).isOneOf ["static", "const", "async", "move"]) shift,
    named "closure_parameters" (listOf '|' '|' (closureParameter self)), do
      if ← nextIs "->" then cat [op "->", self (.type true), self .block]
      else self (.expression structs)])

def leadsToClosure (tokens : List Token) : Bool :=
  let first := tokens.headD .stop
  (first.isWord "for" && (tokens.tail.headD .stop).isPunct '<') ||
    ((tokens.dropWhile (·.isOneOf ["static", "const", "async", "move"])).headD .stop).isPunct '|'

def startsBlockLike (tokens : List Token) : Bool :=
  let t := tokens.headD .stop
  let u := tokens.tail.headD .stop
  let v := tokens.tail.tail.headD .stop
  t.isPunct '\x7b' || t.isOneOf ["if", "match", "loop", "while"] ||
    (t.isWord "for" && !u.isPunct '<') ||
    (t.isOneOf ["unsafe", "async", "const", "try", "gen"] && u.isPunct '\x7b') ||
    (t.isOneOf ["async", "gen"] && u.isWord "move" && v.isPunct '\x7b') ||
    (t.kind = .lifetime && u.isPunct ':')

def blockLike : Rule := do
  let t ← peek
  if t.kind = .lifetime then named "labelled_expression" (cat [shift, sym ':', self .blockLike])
  else if t.isPunct '\x7b' then self .block
  else if t.isWord "if" then
    named "if_expression" (cat [shift, self (.expression false), self .block,
      whenNext (·.isWord "else") (named "else_clause" (cat [shift, self .blockLike]))])
  else if t.isWord "match" then
    named "match_expression" (cat [shift, self (.expression false),
      named "match_block"
        (cat [sym '\x7b', repeatUntil (·.isPunct '\x7d') (self .matchArm), sym '\x7d'])])
  else if t.isWord "loop" then named "loop_expression" (cat [shift, self .block])
  else if t.isWord "while" then
    named "while_expression" (cat [shift, self (.expression false), self .block])
  else if t.isWord "for" then
    named "for_expression"
      (cat [shift, self (.pattern true), word "in", self (.expression false), self .block])
  else if t.isWord "unsafe" then node .unsafeBlock (cat [shift, self .block])
  else if t.isWord "const" then named "const_block" (cat [shift, self .block])
  else if t.isWord "try" then named "try_block" (cat [shift, self .block])
  else named "async_block" (cat [expect (·.isOneOf ["async", "gen"]), optWord "move", self .block])

/-- Whether the next tokens can only go on with an operand, `starters` being the operators that
may also start what follows it. -/
def goesOnAfterBlock (starters : List String) : Matcher Bool := do
  if (← peek).isWord "as" then return true
  match infixOperator? (← upcoming) with
  | some spelling => return !starters.contains spelling
  | none => return false

/-- An expression that starts with one ending with a block. It is over there, unless what follows
can be nothing but its continuation. -/
def blockLed (starters : List String) (blockLike : Rule) : Rule := do
  let first ← blockLike
  if ← nextIsAccess then
    chainFrom self true (← postfixes self nextIsPostfix first)
  else if ← goesOnAfterBlock starters then chainFrom self true first
  else pure first

def matchArm : Rule :=
  named "match_arm" (cat [attributes self,
    named "match_pattern" (cat [self (.pattern true),
      whenNext (·.isWord "if") (cat [shift, self (.expression true)])]),
    op "=>", do
      if startsBlockLike (← upcoming) then
        blockLed self ["-", "&", "|", "<", ".."] (self .blockLike)
      else self (.expression true),
    optSym ','])

def jump (structs : Bool) : Rule := do
  let keyword ← shift
  let labelled := (← peek).kind = .lifetime && !(← peekSecond).isPunct ':'
  named "jump_expression" (cat [pure keyword, if labelled then shift else pure [],
    whenNext (startsExpression structs) (self (.expression structs))])

def primary (structs : Bool) : Rule := do
  let t ← peek
  if t.kind = .literal then shift
  else if t.isPunct '(' then named "tuple_expression" (listOf '(' ')' (element self))
  else if t.isPunct '[' then named "array_expression" (listOf '[' ']' (element self))
  else if startsBlockLike (← upcoming) then self .blockLike
  else pathOperand self structs

def operand (structs : Bool) : Rule := do
  let t ← peek
  if ['-', '*', '!'].any t.isPunct then
    named "unary_expression" (cat [shift, self (.operand structs)])
  else if t.isPunct '&' then
    let raw := spelledRaw (← upcoming)
    named "unary_expression" (cat [shift, if raw then cat [shift, shift] else optWord "mut",
      self (.operand structs)])
  else if t.isOneOf ["return", "break", "continue", "yield"] then jump self structs
  else if leadsToClosure (← upcoming) then closure self structs
  else if t.isWord "let" then
    named "let_condition"
      (cat [shift, self (.pattern true), sym '=', self (.operand structs)])
  else postfixes self nextIsPostfix (← primary self structs)
where
  spelledRaw : List Token → Bool
    | _ :: t :: u :: _ => t.isWord "raw" && u.isOneOf ["const", "mut"]
    | _ => false

end UnsafeAudit.Rust.Grammar
