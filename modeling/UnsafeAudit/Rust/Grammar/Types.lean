import UnsafeAudit.Rust.Grammar.Rule

/-!
# Types, paths and generics
-/

namespace UnsafeAudit.Rust.Grammar

variable (self : Nonterminal → Rule)

def isConnective (t : Token) : Bool :=
  t.isOneOf ["as", "else", "for", "in", "where", "if", "let", "match", "fn", "while", "loop",
    "return"]

def startsType (t : Token) : Bool :=
  t.kind = .lifetime || (t.kind = .word && (!isConnective t || t.isOneOf ["for", "fn"])) ||
    (t.kind = .punct && ['(', '[', '&', '*', '!', '<', '?', '~', ':'].any t.isPunct)

def bounds : Rule :=
  named "trait_bounds"
    (repeatWhile (do return startsType (← peek)) (cat [self (.type false), optSym '+']))

def optBounds : Rule := whenNext (·.isPunct ':') (cat [sym ':', bounds self])

/-- A type, or a constant that stands as an argument of one. -/
def argumentTerm : Rule := do
  let t ← peek
  if t.isPunct '-' then cat [shift, shift]
  else if t.isPunct '\x7b' then self .block
  else self (.type true)

def typeArgument : Rule :=
  cat [argumentTerm self, optBounds self,
    whenNext (·.isPunct '=') (cat [sym '=', argumentTerm self])]

def typeArguments : Rule := named "type_arguments" (listOf '<' '>' (typeArgument self))

def parameter : Rule :=
  named "parameter"
    (op "..." <|>
      cat [self (.pattern true), sym ':', (op "..." <|> self (.type true))] <|>
      self (.type true) <|> self (.pattern true))

def parameters : Rule :=
  named "parameters" (listOf '(' ')' (cat [attributes self, parameter self]))

def optReturnType : Rule := optOp "->" (self (.type true))

def typeParameter : Rule :=
  named "type_parameter"
    (cat [optWord "const", expect (fun t => t.kind = .word || t.kind = .lifetime),
      whenNext (·.isPunct ':') (cat [sym ':', bounds self]),
      whenNext (·.isPunct '=') (cat [sym '=', typeArgument self])])

def typeParameters : Rule :=
  named "type_parameters" (listOf '<' '>' (cat [attributes self, typeParameter self]))

def optTypeParameters : Rule := whenNext (·.isPunct '<') (typeParameters self)

def whereClause : Rule :=
  named "where_clause"
    (cat [word "where",
      repeatUntil (fun t => ['\x7b', ';', '='].any t.isPunct)
        (named "where_predicate" (cat [self (.type false), optBounds self, optSym ',']))])

def optWhere : Rule := whenNext (·.isWord "where") (whereClause self)

/-- Whether a word names a type that takes no arguments, so that `<` after it compares. -/
def isPrimitive (t : Token) : Bool :=
  t.isOneOf ["bool", "char", "f32", "f64", "i8", "i16", "i32", "i64", "i128", "isize", "str", "u8",
    "u16", "u32", "u64", "u128", "usize"]

def typeSegment : Rule := do
  let head ← peek
  cat [expect (fun t => t.kind = .word && !isConnective t), do
    if (← peek).isPunct '<' && !isPrimitive head then typeArguments self
    else if (← nextIs "::<") then cat [op "::", typeArguments self]
    else if (← peek).isPunct '(' then
      cat [named "parameters" (listOf '(' ')' (self (.type true))), optOp "->" (self (.type false))]
    else pure []]

/-- Steps with `::` between them. The first may be a type in angle brackets. -/
def pathOf (segment : Rule) : Rule := do
  let qualified := (← peek).isPunct '<'
  named "path" (cat [
    if qualified then
      cat [sym '<', self (.type true), whenNext (·.isWord "as") (cat [shift, self (.type true)]),
        sym '>']
    else cat [optOp "::" (pure []), segment],
    repeatWhile (nextIs "::") (cat [op "::", segment])])

def typePath : Rule := do
  let path ← pathOf self (typeSegment self)
  if (← peek).isPunct '!' then
    named "macro_invocation" (cat [pure path, shift, self .tokenTree])
  else pure path

def externModifier : Rule :=
  named "extern_modifier" (cat [word "extern", whenNext (·.kind = .literal) shift])

def isFunctionModifier (t : Token) : Bool :=
  t.isOneOf ["async", "const", "default", "extern", "gen", "safe", "unsafe"]

def functionModifiers : Rule := do
  if isFunctionModifier (← peek) then
    node .functionModifiers
      (repeatWhile (do return isFunctionModifier (← peek)) (do
        if (← peek).isWord "extern" then externModifier else shift))
  else pure []

def leadsToFn (tokens : List Token) : Bool :=
  ((tokens.dropWhile fun t => isFunctionModifier t || t.kind = .literal).headD .stop).isWord "fn"

def functionType : Rule :=
  named "function_type"
    (cat [functionModifiers, word "fn", parameters self, optOp "->" (self (.type false))])

def forLifetimes : Rule := cat [word "for", typeParameters self]

def singleType : Rule := do
  let t ← peek
  if t.kind = .lifetime || t.kind = .literal then shift
  else if t.isPunct '(' then named "tuple_type" (listOf '(' ')' (self (.type true)))
  else if t.isPunct '[' then
    named "array_type" (cat [sym '[', self (.type true),
      whenNext (·.isPunct ';') (cat [sym ';', self (.expression true)]), sym ']'])
  else if t.isPunct '&' then
    named "reference_type" (cat [sym '&', whenNext (·.kind = .lifetime) shift, optWord "mut",
      self (.type false)])
  else if t.isPunct '*' then
    named "pointer_type" (cat [sym '*', expect (·.isOneOf ["const", "mut"]), self (.type false)])
  else if t.isPunct '!' then shift
  else if t.isPunct '?' || t.isPunct '~' then
    named "bounded_type" (cat [shift, optWord "const", self (.type false)])
  else if t.isWord "for" then named "bounded_type" (cat [forLifetimes self, self (.type false)])
  else if t.isOneOf ["impl", "dyn"] then named "bounded_type" (cat [shift, bounds self])
  else if leadsToFn (← upcoming) then functionType self
  else typePath self

def type (sums : Bool) : Rule := do
  let first ← singleType self
  if sums && (← peek).isPunct '+' then
    named "bounded_type" (cat [pure first,
      repeatWhile (do return (← peek).isPunct '+') (cat [sym '+', self (.type false)])])
  else pure first

end UnsafeAudit.Rust.Grammar
