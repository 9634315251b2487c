import UnsafeAudit.Decimal.Binary64
import UnsafeAudit.Table

/-!
# JSON values

Objects keep the order in which their names first appear; a name that is given
again replaces the earlier value in its place. Integers are unbounded and
distinct from floating point numbers.
-/

namespace UnsafeAudit

inductive Json where
  | null
  | bool (value : Bool)
  | int (value : Int)
  | float (value : Binary64)
  | str (value : String)
  | arr (items : List Json)
  | obj (fields : List (String × Json))
  deriving Inhabited, Repr

namespace Json

/-- The object with the given fields, a later one replacing an earlier one of the same name. -/
def ofFields (fields : List (String × Json)) : List (String × Json) :=
  Table.ofList (fun a b => a.1 = b.1) fields

def field? (value : Json) (name : String) : Option Json :=
  match value with
  | .obj fields => fields.lookup name
  | _ => none

def ofOption (f : α → Json) : Option α → Json
  | none => .null
  | some a => f a

def strings (texts : List String) : Json := .arr (texts.map .str)

def nat (n : Nat) : Json := .int n

end Json

end UnsafeAudit
