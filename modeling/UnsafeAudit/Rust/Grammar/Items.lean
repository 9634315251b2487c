import UnsafeAudit.Rust.Grammar.Expressions

/-!
# Items and statements
-/

namespace UnsafeAudit.Rust.Grammar

variable (self : Nonterminal → Rule)

def visibility : Rule :=
  named "visibility_modifier" (cat [word "pub", do
    if (← peek).isPunct '(' && (← peekSecond).isOneOf ["crate", "self", "super", "in"] then
      self .tokenTree
    else pure []])

def optVisibility : Rule := whenNext (·.isWord "pub") (visibility self)

def declarationList : Rule :=
  node .declarationList
    (cat [sym '\x7b', repeatUntil (·.isPunct '\x7d') (self .statement), sym '\x7d'])

def fieldDeclarations : Rule :=
  named "field_declaration_list" (listOf '\x7b' '\x7d' (cat [attributes self,
    named "field_declaration" (cat [optVisibility self, name, sym ':', self (.type true),
      whenNext (·.isPunct '=') (cat [sym '=', self (.expression true)])])]))

/-- Fields without names. Attribute, visibility and type are siblings. -/
def orderedFieldDeclarations : Rule :=
  named "ordered_field_declaration_list"
    (listOf '(' ')' (cat [attributes self, optVisibility self, self (.type true)]))

def enumVariant : Rule :=
  named "enum_variant" (cat [optVisibility self, name, do
      if (← peek).isPunct '\x7b' then fieldDeclarations self
      else if (← peek).isPunct '(' then orderedFieldDeclarations self
      else pure [],
    whenNext (·.isPunct '=') (cat [sym '=', self (.expression true)])])

def structBody : Rule := do
  let t ← peek
  if t.isPunct '\x7b' then fieldDeclarations self
  else if t.isPunct '(' then cat [orderedFieldDeclarations self, optWhere self, sym ';']
  else sym ';'

def functionRest : Matcher (NodeKind × Forest) := do
  let head ← cat [functionModifiers, word "fn", name, optTypeParameters self, parameters self,
    optReturnType self, optWhere self]
  if (← peek).isPunct ';' then return (.functionSignatureItem, head ++ (← shift))
  else return (.functionItem, head ++ (← self .block))

def negation : Rule := do
  if (← peek).isPunct '!' && (← peekSecond).kind = .word then shift else pure []

def implRest : Rule :=
  cat [optWord "unsafe", optWord "default", word "impl", optTypeParameters self, optWord "const",
    negation,
    self (.type true), whenNext (·.isWord "for") (cat [shift, self (.type true)]), optWhere self,
    declarationList self <|> sym ';']

def traitRest : Rule :=
  cat [repeatWhile (do return (← peek).isOneOf ["unsafe", "auto", "const"]) shift, word "trait",
    name, optTypeParameters self, optBounds self,
    whenNext (·.isPunct '=') (cat [sym '=', bounds self]), optWhere self,
    declarationList self <|> sym ';']

def typeRest : Rule :=
  cat [word "type", name, optTypeParameters self, optBounds self, optWhere self,
    whenNext (·.isPunct '=') (cat [sym '=', self (.type true)]), optWhere self, sym ';']

def valueRest : Rule :=
  cat [repeatWhile (do return (← peek).isOneOf ["unsafe", "safe", "const", "static", "ref", "mut"])
      shift,
    name, whenNext (·.isPunct ':') (cat [sym ':', self (.type true)]),
    whenNext (·.isPunct '=') (cat [sym '=', self (.expression true)]), sym ';']

def enumRest : Rule :=
  cat [word "enum", name, optTypeParameters self, optWhere self,
    named "enum_variant_list" (listOf '\x7b' '\x7d' (cat [attributes self, enumVariant self]))]

def macroDefinitionRest : Rule :=
  cat [expect (·.isOneOf ["macro_rules", "macro"]), optSym '!', name,
    repeatUntil (fun t => t.isPunct '\x7b' || t.isPunct ';') (self .tokenTree),
    whenNext (·.isPunct '\x7b') (self .tokenTree), optSym ';']

def itemRest : Matcher (NodeKind × Forest) := do
  let tokens ← upcoming
  let t ← peek
  let u ← peekSecond
  let built (kind : NodeKind) (rule : Rule) : Matcher (NodeKind × Forest) :=
    return (kind, ← rule)
  if leadsToFn tokens then functionRest self
  else if t.isWord "struct" || t.isWord "union" then
    built (if t.isWord "struct" then .other "struct_item" else .other "union_item")
      (cat [shift, name, optTypeParameters self, optWhere self, structBody self])
  else if t.isWord "enum" then built (.other "enum_item") (enumRest self)
  else if t.isWord "mod" then
    built (.other "mod_item") (cat [shift, name, sym ';' <|> declarationList self])
  else if t.isWord "use" then built (.other "use_declaration") (untilSemicolon self)
  else if t.isWord "type" then built (.other "type_item") (typeRest self)
  else if t.isWord "extern" && u.isWord "crate" then
    built (.other "extern_crate_declaration") (untilSemicolon self)
  else if t.isOneOf ["macro_rules", "macro"] then
    built (.other "macro_definition") (macroDefinitionRest self)
  else if t.isOneOf ["const", "static"] || u.isWord "static" then
    built (if t.isWord "const" then .other "const_item" else .other "static_item") (valueRest self)
  else if t.isWord "impl" || u.isWord "impl" then built .implItem (implRest self)
  else if t.isWord "trait" || u.isOneOf ["trait", "auto"] then built .traitItem (traitRest self)
  else
    built (.other "foreign_mod_item")
      (cat [optWord "unsafe", externModifier, declarationList self <|> sym ';'])

def item : Rule := do
  let visible ← optVisibility self
  let (kind, rest) ← itemRest self
  return wrap kind (visible ++ rest)

def startsItem (tokens : List Token) : Bool :=
  let t := tokens.headD .stop
  let u := tokens.tail.headD .stop
  t.isOneOf ["fn", "struct", "enum", "trait", "impl", "mod", "use", "type", "pub", "extern"] ||
    (t.isWord "const" && u.kind = .word && !u.isWord "move") ||
    (t.isWord "static" && u.kind = .word && !u.isOneOf ["move", "async"]) ||
    (t.isWord "unsafe" && u.kind = .word) ||
    (t.isOneOf ["async", "gen"] && isFunctionModifier u) ||
    (t.isOneOf ["async", "gen"] && u.isWord "fn") ||
    (t.isWord "union" && u.kind = .word && !u.isWord "as") ||
    (t.isWord "auto" && u.isWord "trait") ||
    (t.isOneOf ["default", "safe"] &&
      u.isOneOf ["async", "const", "extern", "fn", "impl", "static", "type", "unsafe"]) ||
    (t.isWord "macro_rules" && u.isPunct '!') || (t.isWord "macro" && u.kind = .word)

def startsBraceMacro (tokens : List Token) : Bool :=
  match tokens.dropWhile fun t => t.kind = .word || t.isPunct ':' with
  | t :: u :: _ => t.isPunct '!' && u.isPunct '\x7b'
  | _ => false

def letDeclaration : Rule :=
  named "let_declaration" (cat [word "let", self (.pattern true),
    whenNext (·.isPunct ':') (cat [sym ':', self (.type true)]),
    whenNext (·.isPunct '=') (cat [sym '=', self (.expression true)]),
    whenNext (·.isWord "else") (cat [shift, self .block]), sym ';'])

def expressionStatement : Rule := do
  let starters := ["-", "*", "&", "|", "<", ".."]
  let tokens ← upcoming
  let value ←
    if startsBlockLike tokens then blockLed self starters (self .blockLike)
    else if startsBraceMacro tokens then blockLed self starters (pathOperand self true)
    else self (.expression true)
  if (← peek).isPunct ';' then named "expression_statement" (cat [pure value, shift])
  else pure value

/-- A statement, an item or an attribute. A token that starts none of them stands alone. -/
def statement : Rule := do
  let tokens ← upcoming
  let t ← peek
  (if t.isPunct '#' then attributeItem self
    else if t.isPunct ';' then named "empty_statement" shift
    else if t.isWord "let" then letDeclaration self
    else if startsItem tokens then item self
    else expressionStatement self) <|> named "stray" shift

def block : Rule :=
  named "block" (cat [sym '\x7b', repeatUntil (·.isPunct '\x7d') (self .statement), sym '\x7d'])

end UnsafeAudit.Rust.Grammar
