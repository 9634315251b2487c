import UnsafeAudit.Yaml.ScalarToken

/-!
# YAML tokens

The tokens of a text, with the indentation spelled out: blocks have tokens for
their start and end, and a key has one before it also where the text has none.
That a scalar is a key shows only at the colon behind it, which has to come on
the same line and within 1024 characters. Until then the place of the key is
remembered, one for each level of brackets.
-/

namespace UnsafeAudit.Yaml

inductive Token
  | version (major : Nat)
  | handle (name expansion : String)
  | otherDirective
  | documentStart
  | documentEnd
  | streamEnd
  | blockSequence
  | blockMapping
  | blockEnd
  | flowSequence
  | flowSequenceEnd
  | flowMapping
  | flowMappingEnd
  | blockEntry
  | flowEntry
  | key
  | value
  | alias (name : String)
  | anchor (name : String)
  /-- Without a handle the suffix is the whole tag. -/
  | tag (handle : Option String) (suffix : String)
  | scalar (text : List Char) (isPlain : Bool)
  | broken (trouble : Trouble)
  deriving DecidableEq, Repr

open Scan

-- ---- names, tags and directives

def isWordChar (c : Char) : Bool := c.isAlphanum || c = '-' || c = '_'

def wordText : Scan String := do
  let chars ← takeWhile isWordChar
  if chars.isEmpty then throw .malformed
  return String.ofList chars

def anchorName : Scan String := do
  skip 1
  let name ← wordText
  demand fun c => isGap c || c.any (· ∈ ['?', ':', ',', ']', '\x7d', '%', '@', '\x60'])
  return name

def isTagChar (c : Char) : Bool :=
  c.isAlphanum || c ∈ ['-', ';', '/', '?', ':', '@', '&', '=', '+', '$', ',', '_', '.', '!', '~',
    '*', '\'', '(', ')', '[', ']', '%']

def escapedBytes : List Char → Option (List UInt8 × List Char)
  | '%' :: a :: b :: rest => do
    let high ← Json.hexValue? a
    let low ← Json.hexValue? b
    let (bytes, rest) ← escapedBytes rest
    return ((high * 16 + low).toUInt8 :: bytes, rest)
  | '%' :: _ => none
  | rest => some ([], rest)

def tagTextFrom : Nat → Scan (List Char)
  | 0 => return []
  | fuel + 1 => do
    let plain ← takeWhile fun c => isTagChar c && c ≠ '%'
    let here ← get
    match escapedBytes here.rest with
    | none => throw .malformed
    | some ([], _) => return plain
    | some (bytes, rest) =>
      match Text.Utf8.decode bytes with
      | .error _ => throw .malformed
      | .ok chars =>
        skip (here.rest.length - rest.length)
        return plain ++ chars ++ (← tagTextFrom fuel)

def tagText : Scan String := do
  let here ← get
  if !(here.peek 0).any isTagChar then throw .malformed
  return String.ofList (← tagTextFrom (← bound))

/-- A handle: a mark alone, or one on each side of a name that may be empty. -/
def tagHandle : Scan String := do
  if (← peek 0) ≠ some '!' then throw .malformed
  skip 1
  if (← peek 0) = some ' ' then return "!"
  let name ← takeWhile isWordChar
  if (← peek 0) ≠ some '!' then throw .malformed
  skip 1
  return String.ofList ('!' :: name ++ ['!'])

def tagToken : Scan Token := do
  let here ← get
  let token ←
    if here.peek 1 = some '<' then
      skip 2
      let suffix ← tagText
      if (← peek 0) ≠ some '>' then throw .malformed
      skip 1
      pure (Token.tag none suffix)
    else if isGap (here.peek 1) then
      skip 1
      pure (Token.tag none "!")
    else
      let word := (here.rest.drop 1).takeWhile fun c => !isEdge (some c)
      let handle ← if '!' ∈ word then tagHandle else skip 1 *> pure "!"
      pure (Token.tag (some handle) (← tagText))
  demand isEdge
  return token

def number : Scan Nat := do
  let digits ← takeWhile PlainType.isDigit
  if digits.isEmpty then throw .malformed
  return Json.natOfDigits digits

def versionToken : Scan Token := do
  skipBlanks
  let major ← number
  if (← peek 0) ≠ some '.' then throw .malformed
  skip 1
  let _ ← number
  demand isEdge
  return .version major

def handleToken : Scan Token := do
  skipBlanks
  let handle ← tagHandle
  demand (· = some ' ')
  skipBlanks
  let expansion ← tagText
  demand isEdge
  return .handle handle expansion

def directiveToken : Scan Token := do
  skip 1
  let name ← wordText
  demand isEdge
  let token ←
    match name with
    | "YAML" => versionToken
    | "TAG" => handleToken
    | _ =>
      let _ ← takeWhile (!isBreak ·)
      pure .otherDirective
  finishLine
  return token

-- ---- keys and indentation

/-- Where a key would have to be put in if a colon followed. -/
structure PossibleKey where
  position : Nat
  isRequired : Bool
  start : Cursor

structure Scanner where
  cursor : Cursor
  tokens : Array Token
  level : Nat
  /-- Column of the innermost block, and of those around it. -/
  indent : Int
  outer : List Int
  allowsKey : Bool
  /-- By level, at most one each. -/
  keys : List (Nat × PossibleKey)

abbrev Fetch := StateT Scanner (Except Trouble)

namespace Fetch

def scan (step : Scan α) : Fetch α := do
  let s ← get
  let (a, cursor) ← (step.run s.cursor : Except Trouble (α × Cursor))
  set { s with cursor }
  return a

def push (token : Token) : Fetch Unit := modify fun s => { s with tokens := s.tokens.push token }

def allowKey (allowsKey : Bool) : Fetch Unit := modify fun s => { s with allowsKey }

def column : Fetch Nat := do return (← get).cursor.column

def inFlow : Fetch Bool := do return (← get).level ≠ 0

def isStale (start here : Cursor) : Bool := start.line ≠ here.line || 1024 < here.index - start.index

def dropStaleKeys : Fetch Unit := do
  let s ← get
  let (stale, fresh) := s.keys.partition fun (_, key) => isStale key.start s.cursor
  if stale.any (·.2.isRequired) then throw .malformed
  set { s with keys := fresh }

def dropKey : Fetch Unit := do
  let s ← get
  let (here, others) := s.keys.partition fun (level, _) => level = s.level
  if here.any (·.2.isRequired) then throw .malformed
  set { s with keys := others }

def saveKey : Fetch Unit := do
  if (← get).allowsKey then
    dropKey
    let s ← get
    let key : PossibleKey := ⟨s.tokens.size, s.level = 0 && s.indent = s.cursor.column, s.cursor⟩
    set { s with keys := (s.level, key) :: s.keys }

def unwindTo (column : Int) : List Int → Fetch Unit
  | [] => pure ()
  | next :: outer => do
    if (← get).indent > column then
      push .blockEnd
      modify fun s => { s with indent := next, outer }
      unwindTo column outer

def unwind (column : Int) : Fetch Unit := do
  if !(← inFlow) then unwindTo column (← get).outer

/-- Opens a block at a column unless the innermost one is there already, and says so. -/
def openBlock (column : Int) : Fetch Bool := do
  let s ← get
  if s.indent < column then
    set { s with indent := column, outer := s.indent :: s.outer }
    return true
  else return false

-- ---- tokens

/-- What ends every block: a directive, a marker or the end of the text. -/
def closeAll : Fetch Unit := do
  unwind (-1)
  dropKey
  allowKey false

def marker (token : Token) : Fetch Unit := do
  closeAll
  scan (skip 3)
  push token

def openFlow (token : Token) : Fetch Unit := do
  saveKey
  modify fun s => { s with level := s.level + 1 }
  allowKey true
  scan (skip 1)
  push token

def closeFlow (token : Token) : Fetch Unit := do
  dropKey
  if !(← inFlow) then throw .malformed
  modify fun s => { s with level := s.level - 1 }
  allowKey false
  scan (skip 1)
  push token

def flowEntry : Fetch Unit := do
  allowKey true
  dropKey
  scan (skip 1)
  push .flowEntry

/-- Opens a block for an indicator. Outside of brackets it must stand where a key may. -/
def openFor (block : Token) : Fetch Unit := do
  if !(← inFlow) then
    if !(← get).allowsKey then throw .malformed
    if ← openBlock (← column) then push block

def blockEntry : Fetch Unit := do
  openFor .blockSequence
  allowKey true
  dropKey
  scan (skip 1)
  push .blockEntry

def key : Fetch Unit := do
  openFor .blockMapping
  allowKey (!(← inFlow))
  dropKey
  scan (skip 1)
  push .key

def insertTokens (position : Nat) (added : List Token) : Fetch Unit :=
  modify fun s =>
    let after := s.tokens.extract position s.tokens.size
    { s with tokens := s.tokens.extract 0 position ++ added.toArray ++ after }

def value : Fetch Unit := do
  let s ← get
  match s.keys.lookup s.level with
  | some start =>
    set { s with keys := s.keys.filter (·.1 ≠ s.level) }
    let opens ← if ← inFlow then pure false else openBlock start.start.column
    insertTokens start.position (if opens then [.blockMapping, .key] else [.key])
    allowKey false
  | none =>
    openFor .blockMapping
    allowKey (!(← inFlow))
    dropKey
  scan (skip 1)
  push .value

def keyPart (step : Scan Token) : Fetch Unit := do
  saveKey
  allowKey false
  push (← scan step)

def plain : Fetch Unit := do
  saveKey
  let s ← get
  let (text, broken) ← scan (plainScalar (s.level ≠ 0) (s.indent + 1))
  allowKey broken
  push (.scalar text true)

def block (folded : Bool) : Fetch Unit := do
  allowKey true
  dropKey
  let s ← get
  let text ← scan (blockScalar folded s.indent)
  push (.scalar text false)

def startsPlain (inFlow : Bool) (c : Char) (next : Option Char) : Bool :=
  !(isSpacing c || c = '-' || c = '?' || c = ':' || isIndicator c) ||
    (!isGap next && (c = '-' || (!inFlow && (c = '?' || c = ':'))))

/-- Skips blanks, comments and line ends. A key may start on a new line. -/
def skipToToken : Nat → Fetch Unit
  | 0 => pure ()
  | fuel + 1 => do
    scan skipBlanks
    scan skipComment
    let lineEnd ← scan lineBreak
    if !lineEnd.isEmpty then
      if !(← inFlow) then allowKey true
      skipToToken fuel

def next : Fetch Unit := do
  let start := (← get).cursor
  if start.index = 0 && start.peek 0 = some '\ufeff' then scan (skip 1)
  skipToToken (start.rest.length + 1)
  dropStaleKeys
  unwind (← column)
  let s ← get
  let here := s.cursor
  let nested := s.level ≠ 0
  let stands := isGap (here.peek 1)
  match here.peek 0 with
  | none =>
    closeAll
    push .streamEnd
  | some c =>
    let first := here.column = 0
    if first && c = '%' then
      closeAll
      push (← scan directiveToken)
    else if first && (← scan (atMarker "---")) then marker .documentStart
    else if first && (← scan (atMarker "...")) then marker .documentEnd
    else if c = '[' then openFlow .flowSequence
    else if c = '\x7b' then openFlow .flowMapping
    else if c = ']' then closeFlow .flowSequenceEnd
    else if c = '\x7d' then closeFlow .flowMappingEnd
    else if c = ',' then flowEntry
    else if c = '-' && stands then blockEntry
    else if c = '?' && (nested || stands) then key
    else if c = ':' && (nested || stands) then value
    else if c = '*' then keyPart (.alias <$> anchorName)
    else if c = '&' then keyPart (.anchor <$> anchorName)
    else if c = '!' then keyPart tagToken
    else if c = '|' && !nested then block false
    else if c = '>' && !nested then block true
    else if c = '\'' || c = '"' then keyPart ((.scalar · false) <$> quotedScalar c)
    else if startsPlain nested c (here.peek 1) then plain
    else throw .malformed

end Fetch

def Scanner.run : Nat → Scanner → Array Token
  | 0, s => s.tokens
  | fuel + 1, s =>
    match Fetch.next.run s with
    | .error trouble => s.tokens.push (.broken trouble)
    | .ok ((), s) => if s.tokens.back? = some .streamEnd then s.tokens else Scanner.run fuel s

def Token.ofText (text : List Char) : List Token :=
  (Scanner.run (text.length + 2) ⟨.ofText text, #[], 0, -1, [], true, []⟩).toList

end UnsafeAudit.Yaml
