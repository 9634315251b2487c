import UnsafeAudit.Rust.Grammar.Types

/-!
# Patterns
-/

namespace UnsafeAudit.Rust.Grammar

variable (self : Nonterminal → Rule)

def fieldPattern : Rule :=
  named "field_pattern" (do
    if ← nextIs ".." then op ".."
    else
      cat [optWord "ref", optWord "mut", expect (fun t => t.kind = .word || t.kind = .literal),
        whenNext (·.isPunct ':') (cat [sym ':', self (.pattern true)])])

/-- One step of a path among values: type arguments follow `::`. -/
def valueSegment : Rule :=
  cat [expect (fun t => t.kind = .word && !isConnective t), do
    if ← nextIs "::<" then cat [op "::", typeArguments self] else pure []]

def valuePath : Rule := pathOf self (valueSegment self)

def rangeBound : Rule := do
  let t ← peek
  if t.kind = .literal then shift
  else if t.isPunct '-' then named "unary_expression" (cat [shift, shift])
  else if t.isWord "const" then named "const_block" (cat [shift, self .block])
  else valuePath self

def startsRangeBound (t : Token) : Bool :=
  t.kind = .literal || t.isPunct '-' || t.isPunct ':' || t.isPunct '<' ||
    (t.kind = .word && !isConnective t)

def rangeTail : Rule :=
  cat [op "..=" <|> op "..." <|> op "..", whenNext startsRangeBound (rangeBound self)]

def pathPattern : Rule := do
  let path ← valuePath self
  let t ← peek
  if t.isPunct '!' then named "macro_invocation" (cat [pure path, shift, self .tokenTree])
  else if t.isPunct '\x7b' then
    named "struct_pattern"
      (cat [pure path, listOf '\x7b' '\x7d' (cat [attributes self, fieldPattern self])])
  else if t.isPunct '(' then
    named "tuple_pattern" (cat [pure path, listOf '(' ')' (self (.pattern true))])
  else if t.isPunct '@' then named "pattern" (cat [pure path, shift, self (.pattern false)])
  else pure path

def singlePattern : Rule := do
  let t ← peek
  let first ←
    if t.isPunct '&' || t.isOneOf ["ref", "mut", "box"] then
      named "pattern" (cat [shift, optWord "mut", self (.pattern false)])
    else if t.isPunct '(' then named "tuple_pattern" (listOf '(' ')' (self (.pattern true)))
    else if t.isPunct '[' then named "slice_pattern" (listOf '[' ']' (self (.pattern true)))
    else if t.isPunct '.' then named "pattern" (rangeTail self)
    else if t.kind = .literal || t.isPunct '-' || t.isWord "const" then rangeBound self
    else pathPattern self
  if ← nextIs ".." then named "pattern" (cat [pure first, rangeTail self]) else pure first

def pattern (alternatives : Bool) : Rule := do
  if alternatives then
    let leading ← optSym '|'
    let first ← singlePattern self
    if leading.isEmpty && !(← peek).isPunct '|' then pure first
    else
      named "pattern" (cat [pure leading, pure first,
        repeatWhile (do return (← peek).isPunct '|') (cat [sym '|', singlePattern self])])
  else singlePattern self

end UnsafeAudit.Rust.Grammar
