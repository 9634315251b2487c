import UnsafeAudit.Report.Summary

/-!
# Display patterns

A pattern says how a package is shown: text with placeholders in braces, where
a doubled brace stands for the brace itself. `parse` reads a pattern into
chunks in which no text is empty and no two texts are neighbours; `unparse`
writes chunks as a pattern.
-/

namespace UnsafeAudit

inductive Placeholder
  | package
  | license
  | repository
  | features
  deriving DecidableEq, Repr

namespace Placeholder

def all : List Placeholder := [.package, .license, .repository, .features]

def letter : Placeholder → Char
  | .package => 'p'
  | .license => 'l'
  | .repository => 'r'
  | .features => 'f'

def ofName? (name : List Char) : Option Placeholder := all.find? fun p => [p.letter] = name

/-- What a placeholder stands for in a package. A local package is shown with its directory. -/
def value (summary : PackageSummary) : Placeholder → String
  | .package =>
    let text := summary.packageId.toString
    match summary.manifestPath with
    | some manifest =>
      if summary.packageId.isLocal then s!"{text} ({manifest.parent})" else text
    | none => text
  | .license => summary.license.getD ""
  | .repository => summary.repository.getD ""
  | .features => Text.joinWith "," summary.features

end Placeholder

inductive PatternFault
  | unclosed
  | unsupported (name : List Char)
  | unexpected
  deriving DecidableEq, Repr

structure PatternError where
  fault : PatternFault
  text : String
  deriving DecidableEq, Repr

def PatternError.message (e : PatternError) : String :=
  let shown := Text.quoted e.text
  match e.fault with
  | .unclosed => s!"Unclosed '\x7b' in format pattern: {shown}"
  | .unsupported name =>
    "Unsupported placeholder '\x7b" ++ String.ofList name ++ "\x7d' in format pattern: " ++ shown
  | .unexpected => s!"Unexpected '\x7d' in format pattern: {shown}"

inductive Chunk
  | text (chars : List Char)
  | placeholder (which : Placeholder)
  deriving DecidableEq, Repr

abbrev Pattern := List Chunk

namespace Pattern

def consChar (c : Char) : Pattern → Pattern
  | .text chars :: rest => .text (c :: chars) :: rest
  | chunks => .text [c] :: chunks

def cutBrace : List Char → Option (List Char × List Char)
  | [] => none
  | '\x7d' :: rest => some ([], rest)
  | c :: rest => (cutBrace rest).map fun (name, after) => (c :: name, after)

theorem length_cutBrace {text name after : List Char} (h : cutBrace text = some (name, after)) :
    after.length < text.length := by
  induction text generalizing name with
  | nil => simp [cutBrace] at h
  | cons c rest ih =>
    unfold cutBrace at h
    split at h
    · simp at h
    · rename_i heq
      obtain ⟨_, rfl⟩ := List.cons.inj heq
      simp only [Option.some.injEq, Prod.mk.injEq] at h
      simp [h.2]
    · rename_i heq
      obtain ⟨_, rfl⟩ := List.cons.inj heq
      obtain ⟨⟨name', after'⟩, hc, he⟩ := Option.map_eq_some_iff.mp h
      simp only [Prod.mk.injEq] at he
      have := ih (hc.trans (by rw [he.2]))
      simp only [List.length_cons]
      omega

def parseChars (text : List Char) : Except PatternFault Pattern :=
  match text with
  | [] => .ok []
  | '\x7b' :: '\x7b' :: rest => (parseChars rest).map (consChar '\x7b')
  | '\x7d' :: '\x7d' :: rest => (parseChars rest).map (consChar '\x7d')
  | '\x7b' :: rest =>
    match _h : cutBrace rest with
    | none => .error .unclosed
    | some (name, after) =>
      match Placeholder.ofName? name with
      | none => .error (.unsupported name)
      | some which => (parseChars after).map (.placeholder which :: ·)
  | '\x7d' :: _ => .error .unexpected
  | c :: rest => (parseChars rest).map (consChar c)
termination_by text.length
decreasing_by
  · simp only [List.length_cons]
    omega
  · simp only [List.length_cons]
    omega
  · exact Nat.lt_succ_of_lt (length_cutBrace _h)
  · exact Nat.lt_succ_self _

def parse (text : String) : Except PatternError Pattern :=
  (parseChars text.toList).mapError fun fault => ⟨fault, text⟩

/-- A brace is doubled; every other character is written as it is. -/
def unparseChar (c : Char) : List Char :=
  if c = '\x7b' || c = '\x7d' then [c, c] else [c]

def unparseChunk : Chunk → List Char
  | .text chars => chars.flatMap unparseChar
  | .placeholder which => ['\x7b', which.letter, '\x7d']

def unparse (pattern : Pattern) : List Char := pattern.flatMap unparseChunk

def displayChunk (summary : PackageSummary) : Chunk → String
  | .text chars => String.ofList chars
  | .placeholder which => which.value summary

def display (pattern : Pattern) (summary : PackageSummary) : String :=
  String.join (pattern.map (displayChunk summary))

end Pattern

end UnsafeAudit
