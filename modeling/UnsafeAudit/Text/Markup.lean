import UnsafeAudit.Text.Lines

/-!
# Markup

Messages to the user are styled by tags in square brackets. A tag is a bracket
that is followed by a small letter, `#`, `/` or `@` and closed before another one
opens; a backslash before it takes it literally. A tag opens a style up to the
tag that closes it, `[/name]`, or `[/]` for the last one that is open. Whatever
is open at the end is closed there, but a tag cannot close what is not open.
-/

namespace UnsafeAudit.Text.Markup

structure Tag where
  place : Nat
  name : List Char
  value : Option (List Char)
  deriving DecidableEq, Repr

def Tag.ofBody (place : Nat) (body : List Char) : Tag :=
  match cut? ['='] body with
  | some (name, value) => ⟨place, name, some value⟩
  | none => ⟨place, body, none⟩

def Tag.text (tag : Tag) : String :=
  let body := tag.name ++ ((tag.value.map ('=' :: ·)).getD [])
  String.ofList ('[' :: body ++ [']'])

def startsTag (c : Char) : Bool := ('a' ≤ c && c ≤ 'z') || c ∈ ['#', '/', '@']

def tagBody? : List Char → Option (List Char)
  | [] => none
  | c :: rest =>
    if startsTag c then
      let body := rest.takeWhile fun d => d ≠ '[' && d ≠ ']'
      match rest.drop body.length with
      | ']' :: _ => some (c :: body)
      | _ => none
    else none

/-- The tags of a text that stands at `place`. A character is escaped if an odd number of
backslashes precedes it. -/
def tagsFrom (place : Nat) (escaped : Bool) : List Char → List Tag
  | [] => []
  | c :: rest =>
    let more := tagsFrom (place + 1) (c = '\\' && !escaped) rest
    if c = '[' && !escaped then
      match tagBody? rest with
      | some body => Tag.ofBody place body :: more
      | none => more
    else more

def tags (text : String) : List Tag := tagsFrom 0 false text.toList

def normalize (name : List Char) : List Char := (trim name).map Char.toLower

inductive Unmatched
  | named (tag : Tag)
  | last (place : Nat)
  deriving DecidableEq, Repr

def Unmatched.message : Unmatched → String
  | .named tag => s!"closing tag '{tag.text}' at position {tag.place} doesn't match any open tag"
  | .last place => s!"closing tag '[/]' at position {place} has nothing to close"

/-- What is open after a tag, the style that was opened last first. -/
def follow (opened : List (List Char)) (tag : Tag) : Except Unmatched (List (List Char)) :=
  match tag.name with
  | '/' :: name =>
    match normalize name, opened with
    | [], [] => .error (.last tag.place)
    | [], _ :: outer => .ok outer
    | name, _ => if name ∈ opened then .ok (opened.erase name) else .error (.named tag)
  | name => .ok (normalize name :: opened)

def check (text : String) : Except Unmatched Unit := do
  let _ ← (tags text).foldlM follow []

end UnsafeAudit.Text.Markup
