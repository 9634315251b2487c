import UnsafeAudit.Decimal.Shortest
import UnsafeAudit.Json.Basic
import UnsafeAudit.Yaml.Scalar

/-!
# Values as YAML texts

Mappings and sequences are written in blocks, the entries of a sequence at the
indentation of the key that it belongs to. Only empty ones are in brackets. Names
are written like other strings and are expected to fit on a line.
-/

namespace UnsafeAudit.Yaml

def nameText (name : String) : List Char := scalarText 0 0 name.toList ++ [':']

def step : Nat := 2

def leafText (indent column : Nat) : Json → List Char
  | .null => " null".toList
  | .bool true => " true".toList
  | .bool false => " false".toList
  | .int n => ' ' :: (Decimal.intText n).toList
  | .float x => ' ' :: (Decimal.text .yaml x).toList
  | .str s => ' ' :: scalarText (indent + step) (column + 1) s.toList
  | .arr _ => " []".toList
  | .obj _ => " \x7b\x7d".toList

mutual
def valueText (indent column : Nat) : Json → List Char
  | .arr (item :: items) =>
    newLine indent ++ entryText indent item ++ entriesText indent items
  | .obj ((name, value) :: fields) =>
    let inner := indent + step
    newLine inner ++ nameText name ++ valueText inner (inner + (nameText name).length) value ++
      fieldsText inner fields
  | leaf => leafText indent column leaf
def fieldsText (indent : Nat) : List (String × Json) → List Char
  | [] => []
  | (name, value) :: fields =>
    newLine indent ++ nameText name ++ valueText indent (indent + (nameText name).length) value ++
      fieldsText indent fields
/-- An entry of a sequence. A block in it starts on the same line. -/
def entryText (indent : Nat) : Json → List Char
  | .obj ((name, value) :: fields) =>
    let inner := indent + step
    '-' :: ' ' :: nameText name ++ valueText inner (inner + (nameText name).length) value ++
      fieldsText inner fields
  | .arr (item :: items) =>
    '-' :: ' ' :: entryText (indent + step) item ++ entriesText (indent + step) items
  | leaf => '-' :: leafText indent (indent + 1) leaf
def entriesText (indent : Nat) : List Json → List Char
  | [] => []
  | item :: items => newLine indent ++ entryText indent item ++ entriesText indent items
end

def write (fields : List (String × Json)) : String :=
  match fields with
  | [] => "\x7b\x7d\n"
  | _ => String.ofList ((fieldsText 0 fields).drop 1 ++ ['\n'])

end UnsafeAudit.Yaml
