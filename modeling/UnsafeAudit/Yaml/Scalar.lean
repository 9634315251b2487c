import UnsafeAudit.Text.Quoted
import UnsafeAudit.Yaml.Implicit

/-!
# Scalars as YAML texts

A string is written plain where that is safe and reads back as a string, between
single quotes where those suffice, and between double quotes otherwise. A text
that runs past the width goes on in the next line: at a single blank or, between
double quotes, at any blank or escape with a backslash that hides the line end.
Columns count characters.
-/

namespace UnsafeAudit.Yaml

open Text.Quoted (hex)

inductive ScalarStyle
  | plain
  | single
  | double
  deriving DecidableEq, Repr

/-- A line is folded once it is longer than this. -/
def width : Nat := 80

def isBreak (c : Char) : Bool := c ∈ ['\n', '\u0085', '\u2028', '\u2029']

/-- What an indicator has to stand next to in order to count. -/
def isSpacing (c : Char) : Bool := isBreak c || c ∈ [' ', '\t', '\r', '\x00']

def isVerbatim (c : Char) : Bool :=
  let n := c.toNat
  (32 ≤ n && n < 127) || (0xa0 ≤ n && n < 0xfffe && n ≠ 0xfeff && !isBreak c)

def isSpecial (c : Char) : Bool :=
  !(isVerbatim c || isBreak c || (0x10000 ≤ c.toNat && c.toNat < 0x10ffff))

def hasPair (p q : Char → Bool) : List Char → Bool
  | a :: b :: rest => (p a && q b) || hasPair p q (b :: rest)
  | _ => false

def isIndicator (c : Char) : Bool :=
  c ∈ ['#', ',', '[', ']', '\x7b', '\x7d', '&', '*', '!', '|', '>', '\'', '"', '%', '@', '\x60']

def startsStructure (text : List Char) : Bool :=
  "---".toList.isPrefixOf text || "...".toList.isPrefixOf text ||
    match text with
    | [] => false
    | c :: rest =>
      isIndicator c ||
        ((c = '?' || c = ':' || c = '-') && (rest.head?.map isSpacing).getD true)

/-- Whether a colon ends a key or a hash opens a comment behind the first character. -/
def holdsStructure (text : List Char) : Bool :=
  hasPair (· = ':') isSpacing text || hasPair isSpacing (· = '#') text ||
    (1 < text.length && text.getLast? = some ':')

def bordersOnSpacing (text : List Char) : Bool :=
  let blank (c : Char) := c = ' ' || isBreak c
  text.head?.any blank || text.getLast?.any blank

def admitsPlain (text : List Char) : Bool :=
  PlainType.ofText text = .string && !startsStructure text && !holdsStructure text &&
    !bordersOnSpacing text && !text.any isBreak && !text.any isSpecial

/-- Whether a string may be written between single quotes: it has no blank beside a line
break. -/
def admitsSingle (text : List Char) : Bool :=
  !text.any isSpecial && !hasPair (· = ' ') isBreak text && !hasPair isBreak (· = ' ') text

def ScalarStyle.of (text : List Char) : ScalarStyle :=
  if admitsPlain text then .plain else if admitsSingle text then .single else .double

def newLine (indent : Nat) : List Char := '\n' :: List.replicate indent ' '

def sameRun (a b : Char) : Bool := (a = ' ') = (b = ' ') && isBreak a = isBreak b

/-- Writes the runs of a text from a column on. Line breaks are doubled by one line feed, since
one alone would read as a blank. -/
def foldRuns (write : Char → List Char) (indent column : Nat) (first : Bool) :
    List (List Char) → List Char
  | [] => []
  | run :: rest =>
    if run = [' '] && width < column && !first && !rest.isEmpty then
      newLine indent ++ foldRuns write indent indent false rest
    else if run.any isBreak then
      (if run.head? = some '\n' then ['\n'] else []) ++ run ++ List.replicate indent ' ' ++
        foldRuns write indent indent false rest
    else
      let written := run.flatMap write
      written ++ foldRuns write indent (column + written.length) false rest

def doubleQuote (c : Char) : List Char := if c = '\'' then [c, c] else [c]

def shortEscapes : List (Char × Char) := [
  ('\x00', '0'), ('\x07', 'a'), ('\x08', 'b'), ('\t', 't'), ('\n', 'n'), ('\x0b', 'v'),
  ('\x0c', 'f'), ('\r', 'r'), ('\x1b', 'e'), ('"', '"'), ('\\', '\\'), ('\u0085', 'N'),
  ('\u00a0', '_'), ('\u2028', 'L'), ('\u2029', 'P')]

def escape (c : Char) : List Char :=
  match shortEscapes.lookup c with
  | some letter => ['\\', letter]
  | none =>
    let n := c.toNat
    if n < 0x100 then '\\' :: 'x' :: (hex 2 n).map Char.toUpper
    else if n < 0x10000 then '\\' :: 'u' :: (hex 4 n).map Char.toUpper
    else '\\' :: 'U' :: (hex 8 n).map Char.toUpper

/-- Ends a line between double quotes. A blank that the next line starts with is escaped. -/
def hiddenNewLine (indent : Nat) (text : List Char) : List Char :=
  '\\' :: newLine indent ++ (if text.head? = some ' ' then ['\\'] else [])

/-- Writes a text between double quotes from a column on. Before the first and the last
character no line ends. -/
def foldEscaped (indent column : Nat) (first afterEscape : Bool) : List Char → List Char
  | [] => []
  | c :: rest =>
    let inner := !first && !rest.isEmpty
    if isVerbatim c && c ≠ '"' && c ≠ '\\' then
      if inner && (c = ' ' || afterEscape) && width < column then
        let hidden := hiddenNewLine indent (c :: rest)
        let start := if c = ' ' then indent + 1 else indent
        hidden ++ c :: foldEscaped indent (start + 1) false false rest
      else c :: foldEscaped indent (column + 1) false false rest
    else
      let escaped := escape c
      let reached := column + escaped.length
      if inner && width + 1 < reached then
        let start := if rest.head? = some ' ' then indent + 1 else indent
        escaped ++ hiddenNewLine indent rest ++ foldEscaped indent start false true rest
      else escaped ++ foldEscaped indent reached false true rest

def scalarText (indent column : Nat) (text : List Char) : List Char :=
  match ScalarStyle.of text with
  | .plain => foldRuns (fun c => [c]) indent column true (text.splitBy sameRun)
  | .single =>
    '\'' :: foldRuns doubleQuote indent (column + 1) true (text.splitBy sameRun) ++ ['\'']
  | .double => '"' :: foldEscaped indent (column + 1) true false text ++ ['"']

end UnsafeAudit.Yaml
