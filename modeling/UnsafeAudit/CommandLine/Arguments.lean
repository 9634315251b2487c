import UnsafeAudit.Text.Lines

/-!
# Arguments

An argument that starts with a dash gives options: a word behind two dashes, or
letters behind one. The value of an option that takes one is the rest of its
argument, behind an equals sign if the option is a word, or the whole next
argument. Two dashes alone end the options. All other arguments are operands.
-/

namespace UnsafeAudit.CommandLine

structure OptionSpec where
  word : String
  letter : Option Char
  value : Option String
  summary : String

namespace OptionSpec

def flag (word : String) (letter : Option Char) (summary : String) : OptionSpec :=
  ⟨word, letter, none, summary⟩

def valued (word : String) (letter : Option Char) (value summary : String) : OptionSpec :=
  ⟨word, letter, some value, summary⟩

def long (spec : OptionSpec) : String := "--" ++ spec.word

end OptionSpec

inductive UsageError
  | unknownOption (name : String)
  | missingValue (name : String)
  | needlessValue (name : String)
  | badValue (name value : String)
  | missingCommand
  | unknownCommand (name : String)
  | extraArguments (texts : List String)
  deriving DecidableEq, Repr

def UsageError.message : UsageError → String
  | .unknownOption name => s!"No such option: {name}"
  | .missingValue name => s!"Option '{name}' requires an argument."
  | .needlessValue name => s!"Option '{name}' does not take a value."
  | .badValue name value => s!"Invalid value for '{name}': '{value}'"
  | .missingCommand => "Missing command."
  | .unknownCommand name => s!"No such command '{name}'."
  | .extraArguments texts =>
    let shown := Text.joinWith " " texts
    s!"Got unexpected extra arguments ({shown})"

structure Given where
  word : String
  value : Option String
  deriving DecidableEq, Repr

structure Arguments where
  options : List Given
  operands : List String
  deriving DecidableEq, Repr

/-- The options that one argument gives. The last of them may want the next argument. -/
structure Reading where
  complete : List Given
  wanting : Option OptionSpec

def readLetters (specs : List OptionSpec) : List Char → Except UsageError Reading
  | [] => .ok ⟨[], none⟩
  | c :: rest =>
    match specs.find? (·.letter = some c) with
    | none => .error (.unknownOption s!"-{c}")
    | some spec =>
      if spec.value.isNone then do
        let more ← readLetters specs rest
        return { more with complete := ⟨spec.word, none⟩ :: more.complete }
      else if rest.isEmpty then .ok ⟨[], some spec⟩
      else .ok ⟨[⟨spec.word, some (String.ofList rest)⟩], none⟩

def readOption (specs : List OptionSpec) (text : List Char) : Except UsageError Reading :=
  let (name, value) :=
    match Text.cut? ['='] text with
    | some (name, value) => (String.ofList name, some (String.ofList value))
    | none => (String.ofList text, none)
  match specs.find? (·.long = name), value with
  | some spec, none =>
    if spec.value.isNone then .ok ⟨[⟨spec.word, none⟩], none⟩ else .ok ⟨[], some spec⟩
  | some spec, some value =>
    if spec.value.isNone then .error (.needlessValue spec.long)
    else .ok ⟨[⟨spec.word, some value⟩], none⟩
  | none, _ =>
    match text with
    | '-' :: '-' :: _ => .error (.unknownOption name)
    | _ => readLetters specs (text.drop 1)

namespace Arguments

def after (options : List Given) (arguments : Arguments) : Arguments :=
  { arguments with options := options ++ arguments.options }

/-- Reads arguments. Unless operands may stand among the options, the first one ends them. -/
def read (specs : List OptionSpec) (mixed : Bool) : List String → Except UsageError Arguments
  | [] => .ok ⟨[], []⟩
  | text :: rest =>
    match text.toList with
    | ['-', '-'] => .ok ⟨[], rest⟩
    | '-' :: c :: more =>
      match readOption specs ('-' :: c :: more) with
      | .error e => .error e
      | .ok ⟨complete, none⟩ => (read specs mixed rest).map (after complete)
      | .ok ⟨complete, some spec⟩ =>
        match rest with
        | [] => .error (.missingValue spec.long)
        | value :: rest => (read specs mixed rest).map (after (complete ++ [⟨spec.word, some value⟩]))
    | _ =>
      if mixed then
        (read specs mixed rest).map fun more => { more with operands := text :: more.operands }
      else .ok ⟨[], text :: rest⟩

def has (arguments : Arguments) (word : String) : Bool := arguments.options.any (·.word = word)

def values (arguments : Arguments) (word : String) : List String :=
  arguments.options.filterMap fun given => if given.word = word then given.value else none

/-- The value of an option; the last one of several. -/
def value? (arguments : Arguments) (word : String) : Option String :=
  (arguments.values word).getLast?

end Arguments

end UnsafeAudit.CommandLine
