import UnsafeAudit.Decimal.Shortest
import UnsafeAudit.Failure

/-!
# Reading documents on demand

Build metadata is not checked as a whole: a part is read when it is needed, and
what is wrong with it shows then. Reading takes what a value allows. A text
can be gone through character by character, an object name by name.
-/

namespace UnsafeAudit.Json

def shownKey : Json → String
  | .null => "None"
  | .bool b => if b then "True" else "False"
  | .int n => Decimal.intText n
  | .float x => Decimal.text .plain x
  | .str s => s
  | .arr _ | .obj _ => ""

def quotedKey : Json → String
  | .str s => Text.quoted s
  | value => shownKey value

/-- Whether a value stands for something: not for nothing, zero or the empty. -/
def isTruthy : Json → Bool
  | .null => false
  | .bool b => b
  | .int n => n ≠ 0
  | .float x => x.toInt? ≠ some 0
  | .str s => !s.isEmpty
  | .arr items => !items.isEmpty
  | .obj fields => !fields.isEmpty

def needed (value : Json) (name : String) : Except Fault Json :=
  match value with
  | .obj fields =>
    match fields.lookup name with
    | some v => .ok v
    | none => .error (.missingKey (Text.quoted name))
  | _ => .error .wrongType

def optional (value : Json) (name : String) (default : Json) : Except Fault Json :=
  match value with
  | .obj fields => .ok ((fields.lookup name).getD default)
  | _ => .error .noAttribute

def parts : Json → Except Fault (List Json)
  | .arr items => .ok items
  | .obj fields => .ok (fields.map fun (name, _) => .str name)
  | .str s => .ok (s.toList.map fun c => .str (String.ofList [c]))
  | _ => .error .wrongType

def asPath : Json → Except Fault Path
  | .str s => .ok (Path.ofString s)
  | _ => .error .wrongType

/-- A value as one by which something is looked up: a list or an object cannot be. -/
def asKey (value : Json) : Except Fault Json :=
  match value with
  | .arr _ | .obj _ => .error .wrongType
  | _ => .ok value

def text? : Json → Option String
  | .str s => some s
  | _ => none

end UnsafeAudit.Json
