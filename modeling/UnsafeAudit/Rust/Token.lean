import UnsafeAudit.Text.Lines

/-!
# Rust tokens

`Token.scan` cuts a file into tokens. Punctuation comes one character at a
time, with a mark for characters that touch, so that a grammar can join `>` and
`>` or keep them apart. Comments go with the token after them; block comments
nest. Literals are never looked into.
-/

namespace UnsafeAudit.Rust

inductive TokenKind
  | word
  | lifetime
  | literal
  | punct
  | stop
  deriving DecidableEq, Repr

structure Token where
  kind : TokenKind
  gap : List Char
  text : List Char
  /-- Whether another punctuation character follows with nothing between. -/
  joint : Bool
  comments : List (List Char × List Char)
  deriving Repr

namespace Token

/-- Whether a character can stand in a name. All letters beyond ASCII can, and no other
character beyond ASCII but blanks stands outside comments and literals. -/
def isNameChar (c : Char) : Bool :=
  c.isAlphanum || c = '_' || (c.toNat ≥ 128 && !Text.isBlank c)

def isNameStart (c : Char) : Bool := isNameChar c && !c.isDigit

/-- Takes characters while they are wanted, in front of `taken` reversed. -/
def takeInto (wanted : Char → Bool) (taken : List Char) : List Char → List Char × List Char
  | [] => (taken, [])
  | c :: rest => if wanted c then takeInto wanted (c :: taken) rest else (taken, c :: rest)

/-- A block comment after its opening, `depth` further ones being open inside it. -/
def blockComment (depth : Nat) (taken : List Char) : List Char → List Char × List Char
  | '/' :: '*' :: rest => blockComment (depth + 1) ('*' :: '/' :: taken) rest
  | '*' :: '/' :: rest =>
    match depth with
    | 0 => ('/' :: '*' :: taken, rest)
    | depth + 1 => blockComment depth ('/' :: '*' :: taken) rest
  | c :: rest => blockComment depth (c :: taken) rest
  | [] => (taken, [])

/-- A literal after its opening quote. A backslash takes the next character with it. -/
def quotedBody (quote : Char) (taken : List Char) : List Char → List Char × List Char
  | '\\' :: c :: rest => quotedBody quote (c :: '\\' :: taken) rest
  | c :: rest => if c = quote then (c :: taken, rest) else quotedBody quote (c :: taken) rest
  | [] => (taken, [])

def rawBody (hashes : List Char) (taken : List Char) : List Char → List Char × List Char
  | '"' :: rest =>
    if hashes.isPrefixOf rest then (hashes ++ '"' :: taken, rest.drop hashes.length)
    else rawBody hashes ('"' :: taken) rest
  | c :: rest => rawBody hashes (c :: taken) rest
  | [] => (taken, [])

def exponentTail (taken rest : List Char) : List Char × List Char :=
  match taken, rest with
  | e :: _, sign :: d :: more =>
    if (e = 'e' || e = 'E') && (sign = '+' || sign = '-') && d.isDigit then
      takeInto isNameChar (d :: sign :: taken) more
    else (taken, rest)
  | _, _ => (taken, rest)

/-- A number. After a point it is the position of a field, and has no fraction. -/
def number (afterPoint : Bool) (text : List Char) : List Char × List Char :=
  let (taken, rest) := takeInto isNameChar [] text
  let based : Bool :=
    match text with
    | '0' :: c :: _ => c = 'x' || c = 'b' || c = 'o'
    | _ => false
  if based || afterPoint then (taken, rest)
  else if taken.all fun c => c.isDigit || c = '_' then
    match rest with
    | '.' :: more =>
      match more with
      | c :: _ =>
        if c = '.' || isNameStart c then (taken, rest)
        else
          let (taken, rest) := takeInto isNameChar ('.' :: taken) more
          exponentTail taken rest
      | [] => ('.' :: taken, [])
    | _ => (taken, rest)
  else exponentTail taken rest

def rawString? (taken rest : List Char) : Option (List Char × List Char) :=
  let hashes := rest.takeWhile (· = '#')
  match rest.drop hashes.length with
  | '"' :: body => some (rawBody hashes ('"' :: hashes ++ taken) body)
  | _ => none

def wordOrLiteral (text : List Char) : TokenKind × (List Char × List Char) :=
  let (taken, rest) := takeInto isNameChar [] text
  let name := taken.reverse
  if name = ['r'] || name = ['b', 'r'] || name = ['c', 'r'] then
    match rawString? taken rest with
    | some found => (.literal, found)
    | none =>
      match name, rest with
      | ['r'], '#' :: c :: more =>
        if isNameStart c then (.word, takeInto isNameChar ('#' :: taken) (c :: more))
        else (.word, (taken, rest))
      | _, _ => (.word, (taken, rest))
  else if name = ['b'] || name = ['c'] then
    match name, rest with
    | _, '"' :: body => (.literal, quotedBody '"' ('"' :: taken) body)
    | ['b'], '\'' :: body => (.literal, quotedBody '\'' ('\'' :: taken) body)
    | _, _ => (.word, (taken, rest))
  else (.word, (taken, rest))

def charOrLifetime (rest : List Char) : TokenKind × (List Char × List Char) :=
  match rest with
  | '\\' :: _ => (.literal, quotedBody '\'' ['\''] rest)
  | '\'' :: more => (.literal, (['\'', '\''], more))
  | c :: '\'' :: more => (.literal, (['\'', c, '\''], more))
  | _ => (.lifetime, takeInto isNameChar ['\''] rest)

/-- The token at the start of a text that starts with no blank and no comment. Its characters
come reversed. -/
def one (afterPoint : Bool) (text : List Char) : TokenKind × (List Char × List Char) :=
  match text with
  | [] => (.stop, ([], []))
  | c :: rest =>
    if isNameStart c then wordOrLiteral text
    else if c.isDigit then (.literal, number afterPoint text)
    else if c = '"' then (.literal, quotedBody '"' ['"'] rest)
    else if c = '\'' then charOrLifetime rest
    else (.punct, ([c], rest))

def isPunctChar (c : Char) : Bool :=
  !isNameChar c && !Text.isBlank c && c ≠ '"' && c ≠ '\''

def touches : List Char → Bool
  | '/' :: c :: _ => c ≠ '/' && c ≠ '*'
  | c :: _ => isPunctChar c
  | [] => false

/-- The tokens of a text, given the blanks and the comments that wait for one. Each step takes a
character at least, so as many steps as there are characters are enough. -/
def scanFrom (steps : Nat) (afterPoint : Bool) (gap : List Char)
    (comments : List (List Char × List Char)) (text : List Char) : List Token :=
  match steps, text with
  | 0, _ | _, [] => [⟨.stop, gap.reverse, [], false, comments.reverse⟩]
  | steps + 1, '/' :: '/' :: rest =>
    let (taken, rest) := takeInto (· ≠ '\n') ['/', '/'] rest
    scanFrom steps afterPoint [] ((gap.reverse, taken.reverse) :: comments) rest
  | steps + 1, '/' :: '*' :: rest =>
    let (taken, rest) := blockComment 0 ['*', '/'] rest
    scanFrom steps afterPoint [] ((gap.reverse, taken.reverse) :: comments) rest
  | steps + 1, c :: rest =>
    if Text.isBlank c then scanFrom steps afterPoint (c :: gap) comments rest
    else
      let (kind, taken, rest) := one afterPoint (c :: rest)
      let joint := kind = .punct && touches rest
      ⟨kind, gap.reverse, taken.reverse, joint, comments.reverse⟩ ::
        scanFrom steps (taken = ['.']) [] [] rest

def scan (text : List Char) : List Token := scanFrom text.length false [] [] text

def stop : Token := ⟨.stop, [], [], false, []⟩

end Token

/-- The first line of a script that names its interpreter, and the rest of the text. Such a line
starts with `#!`, goes on with anything but an opening bracket, and ends. -/
def splitShebang (text : List Char) : Option (List Char × List Char) :=
  let body := text.dropWhile Text.isBlank
  match body with
  | '#' :: '!' :: '[' :: _ => none
  | '#' :: '!' :: rest =>
    let line := rest.takeWhile (· ≠ '\n')
    match rest.drop line.length with
    | '\n' :: more => some ('#' :: '!' :: line, more)
    | _ => none
  | _ => none

end UnsafeAudit.Rust
