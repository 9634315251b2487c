import UnsafeAudit.Json.Reader
import UnsafeAudit.Yaml.Cursor

/-!
# Reading scalars

A scalar is plain, between quotes, or a block of indented lines. Line breaks in
the first two are folded: one is a blank, and of more the first is dropped. A
block keeps its line breaks or folds them, and says in its head what becomes of
those at its end. Each loop is bounded by the length of the text.
-/

namespace UnsafeAudit.Yaml

open Scan

/-- A bound on the steps of a loop that takes a character each time. -/
def Scan.bound : Scan Nat := do return (← get).rest.length + 1

-- ---- plain scalars

/-- Further line breaks of a plain scalar and the blanks between them. Nothing if a document
ends among them. -/
def plainBreaks : Nat → Scan (Option (List Char))
  | 0 => return some []
  | fuel + 1 => do
    skipBlanks
    match ← lineBreak with
    | [] => return some []
    | first =>
      if ← atSeparator then return none
      return (← plainBreaks fuel).map (first ++ ·)

/-- What is between two runs of a plain scalar, nothing if the scalar is over, and whether that
has a line break. -/
def plainGap : Scan (List Char × Bool) := do
  let blanks ← takeWhile (· = ' ')
  match ← lineBreak with
  | [] => return (blanks, false)
  | first =>
    if ← atSeparator then return ([], true)
    match ← plainBreaks (← bound) with
    | none => return ([], true)
    | some breaks =>
      if first ≠ ['\n'] then return (first ++ breaks, true)
      else return (if breaks.isEmpty then [' '] else breaks, true)

def plainRun (inFlow : Bool) : List Char → List Char
  | [] => []
  | c :: rest =>
    let ends (next : Option Char) : Bool :=
      isGap next || (inFlow && next.any (· ∈ [',', '[', ']', '\x7b', '\x7d']))
    if isSpacing c || (c = ':' && ends rest.head?) ||
        (inFlow && c ∈ [',', '?', '[', ']', '\x7b', '\x7d']) then []
    else c :: plainRun inFlow rest

def plainFrom (inFlow : Bool) (indent : Int) : Nat → List Char → Bool → Scan (List Char × Bool)
  | 0, _, broken => return ([], broken)
  | fuel + 1, before, broken => do
    if (← peek 0) = some '#' then return ([], broken)
    let run := plainRun inFlow (← get).rest
    if run.isEmpty then return ([], broken)
    skip run.length
    let (gap, broken) ← plainGap
    let here ← get
    if gap.isEmpty || here.peek 0 = some '#' || (!inFlow && here.column < indent) then
      return (before ++ run, broken)
    let (more, broken) ← plainFrom inFlow indent fuel gap broken
    return (before ++ run ++ more, broken)

/-- A plain scalar. Its further lines are indented by at least `indent` unless it is in
brackets. -/
def plainScalar (inFlow : Bool) (indent : Int) : Scan (List Char × Bool) := do
  plainFrom inFlow indent (← bound) [] false

-- ---- quoted scalars

def letterEscape? (c : Char) : Option Char :=
  match c with
  | 't' | '\t' => some '\t'
  | ' ' | '/' => some c
  | _ => (shortEscapes.find? (·.2 = c)).map (·.1)

def escapeDigits? (c : Char) : Option Nat :=
  match c with
  | 'x' => some 2
  | 'u' => some 4
  | 'U' => some 8
  | _ => none

def charOfCode (n : Nat) : Except Trouble Char :=
  if n < 0x110000 then .ok (Json.charOfUnit n)
  else if n < 0x80000000 then .error .noCharacter
  else .error .numberTooLarge

def hexNumber (digits : Nat) : Scan Nat := do
  let chars := (← get).rest.take digits
  let values := chars.filterMap Json.hexValue?
  if values.length < digits then throw .malformed
  return values.foldl (fun n v => n * 16 + v) 0

def quotedBreaks : Nat → Scan (List Char)
  | 0 => throw .malformed
  | fuel + 1 => do
    if ← atSeparator then throw .malformed
    let _ ← takeWhile fun c => c = ' ' || c = '\t'
    match ← lineBreak with
    | [] => return []
    | first => return first ++ (← quotedBreaks fuel)

def escapeSequence : Scan (List Char) := do
  skip 1
  match ← peek 0 with
  | none => throw .malformed
  | some c =>
    if let some char := letterEscape? c then
      skip 1
      return [char]
    else if let some digits := escapeDigits? c then
      skip 1
      let char ← (charOfCode (← hexNumber digits) : Except Trouble Char)
      skip digits
      return [char]
    else if isBreak c then
      let _ ← lineBreak
      quotedBreaks (← bound)
    else throw .malformed

def quotedRun (double : Bool) : Nat → Scan (List Char)
  | 0 => throw .malformed
  | fuel + 1 => do
    let run ← takeWhile fun c => !(isSpacing c || c = '\'' || c = '"' || c = '\\')
    match ← peek 0 with
    | some '\\' =>
      let found ← if double then escapeSequence else skip 1 *> pure ['\\']
      return run ++ found ++ (← quotedRun double fuel)
    | some '\'' =>
      if double then
        skip 1
        return run ++ '\'' :: (← quotedRun double fuel)
      else if (← peek 1) = some '\'' then
        skip 2
        return run ++ '\'' :: (← quotedRun double fuel)
      else return run
    | some '"' =>
      if double then return run
      skip 1
      return run ++ '"' :: (← quotedRun double fuel)
    | _ => return run

def quotedGap : Scan (List Char) := do
  let blanks ← takeWhile fun c => c = ' ' || c = '\t'
  if (← peek 0).isNone then throw .malformed
  match ← lineBreak with
  | [] => return blanks
  | first =>
    let breaks ← quotedBreaks (← bound)
    if first ≠ ['\n'] then return first ++ breaks
    else return if breaks.isEmpty then [' '] else breaks

def quotedFrom (quote : Char) : Nat → Scan (List Char)
  | 0 => throw .malformed
  | fuel + 1 => do
    let run ← quotedRun (quote = '"') (← bound)
    if (← peek 0) = some quote then
      skip 1
      return run
    let gap ← quotedGap
    return run ++ gap ++ (← quotedFrom quote fuel)

def quotedScalar (quote : Char) : Scan (List Char) := do
  skip 1
  quotedFrom quote (← bound)

-- ---- block scalars

/-- What becomes of the line breaks at the end of a block: all but the first go, all go, or all
stay. -/
inductive Chomping
  | clip
  | strip
  | keep
  deriving DecidableEq, Repr

def chompingOf? (c : Option Char) : Option Chomping :=
  match c with
  | some '+' => some .keep
  | some '-' => some .strip
  | _ => none

/-- A digit that says how far a block is indented, never zero. -/
def indentDigit : Scan (Option Nat) := do
  match ← peek 0 with
  | some c =>
    if !PlainType.isDigit c then return none
    if c = '0' then throw .malformed
    skip 1
    return some (Json.digitValue c)
  | none => return none

def chompingMark : Scan (Option Chomping) := do
  let mark := chompingOf? (← peek 0)
  if mark.isSome then skip 1
  return mark

def blockHead : Scan (Chomping × Option Nat) := do
  skip 1
  let first ← chompingMark
  let digit ← indentDigit
  let second ← if first.isNone && digit.isSome then chompingMark else pure none
  demand isEdge
  finishLine
  return ((first.or second).getD .clip, digit)

def blockStart (deepest : Nat) : Nat → Scan (List Char × Nat)
  | 0 => return ([], deepest)
  | fuel + 1 => do
    let blanks ← takeWhile (· = ' ')
    let here ← get
    let deepest := if blanks.isEmpty then deepest else max deepest here.column
    match ← lineBreak with
    | [] => return ([], deepest)
    | first =>
      let (more, deepest) ← blockStart deepest fuel
      return (first ++ more, deepest)

def skipIndent (indent : Nat) : Scan Unit := do
  let here ← get
  skip (min (indent - here.column) (here.rest.takeWhile (· = ' ')).length)

def blockBreaks (indent : Nat) : Nat → Scan (List Char)
  | 0 => return []
  | fuel + 1 => do
    skipIndent indent
    match ← lineBreak with
    | [] => return []
    | first => return first ++ (← blockBreaks indent fuel)

structure BlockText where
  text : List Char
  /-- The line break behind the last line. -/
  last : List Char
  /-- The line breaks behind that. -/
  tail : List Char

def isInset (c : Option Char) : Bool := c.any fun c => c = ' ' || c = '\t'

def atBlockLine (indent : Nat) : Scan Bool := do
  let here ← get
  return here.column = indent && !here.rest.isEmpty

/-- The lines of a block from behind some line breaks on. Breaks beside an inset line are not
folded. -/
def blockLines (folded : Bool) (indent : Nat) : Nat → List Char → Scan BlockText
  | 0, breaks => return ⟨[], [], breaks⟩
  | fuel + 1, breaks => do
    if !(← atBlockLine indent) then return ⟨[], [], breaks⟩
    let inset := isInset (← peek 0)
    let line ← takeWhile (!isBreak ·)
    let last ← lineBreak
    let more ← blockBreaks indent (← bound)
    if !(← atBlockLine indent) then return ⟨breaks ++ line, last, more⟩
    let joint :=
      if folded && last = ['\n'] && !inset && !isInset (← peek 0) then
        (if more.isEmpty then [' '] else [])
      else last
    let rest ← blockLines folded indent fuel more
    return { rest with text := breaks ++ line ++ joint ++ rest.text }

def blockScalar (folded : Bool) (outer : Int) : Scan (List Char) := do
  let (chomping, digit) ← blockHead
  let least := max 1 (outer + 1).toNat
  let (breaks, indent) ←
    match digit with
    | none =>
      let (breaks, deepest) ← blockStart 0 (← bound)
      pure (breaks, max least deepest)
    | some digit =>
      let indent := least + digit - 1
      pure (← blockBreaks indent (← bound), indent)
  let block ← blockLines folded indent (← bound) breaks
  return match chomping with
    | .strip => block.text
    | .clip => block.text ++ block.last
    | .keep => block.text ++ block.last ++ block.tail

end UnsafeAudit.Yaml
