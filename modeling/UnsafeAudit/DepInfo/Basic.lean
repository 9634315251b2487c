import UnsafeAudit.Text.Lines

/-!
# Dependency listings

A listing has one line for each output, `target: dep dep …`, and each line is
one entry. A blank inside a name is written after a backslash, so a name may
spread over several words: `parse` joins a word that ends in a backslash to the
next one. Lines without `: ` (comments, and outputs that depend on nothing) are
passed over.
-/

namespace UnsafeAudit.DepInfo

structure Entry where
  target : String
  dependencies : List String
  deriving DecidableEq, Repr

def mark : List Char := [':', ' ']

/-- Joins each word that ends in a backslash to the next; `none` if the last word does. -/
def joinEscaped : List (List Char) → Option (List (List Char))
  | [] => some []
  | word :: rest =>
    match joinEscaped rest with
    | none => none
    | some names =>
      if word.getLast? = some '\\' then
        match names with
        | [] => none
        | name :: more => some ((word.dropLast ++ ' ' :: name) :: more)
      else some (word :: names)

/-- The entry on a line that has one. A dangling backslash makes the inner value `none`. -/
def parseLine (line : List Char) : Option (Option Entry) :=
  (Text.cut? mark line).map fun (target, rest) =>
    (joinEscaped (Text.words rest)).map fun names =>
      ⟨String.ofList target, names.map String.ofList⟩

def parse (text : String) : Option (List Entry) :=
  ((Text.lines text.toList).filterMap parseLine).mapM id

def malformedMessage : String := "malformed dep-info format, trailing \\"

end UnsafeAudit.DepInfo
