import UnsafeAudit.Yaml.Node
import UnsafeAudit.Yaml.ScalarValue

/-!
# YAML values

What the nodes of a document say under their tags. A merge key brings in the
entries of other mappings, which the entries beside it override. A document with
several troubles is refused for the first one that is nearest to its root: a
block is gone into only after everything beside it has been read.
-/

namespace UnsafeAudit.Yaml

inductive Value where
  | null
  | bool (value : Bool)
  | int (value : Int)
  | float (value : Binary64)
  | str (value : String)
  | bytes (value : List UInt8)
  | date
  | list (items : List Value)
  | set (items : List Value)
  | map (entries : List (Value × Value))

instance : Inhabited Value := ⟨.null⟩

namespace Value

def isKey : Value → Bool
  | .list _ | .set _ | .map _ => false
  | _ => true

/-- Sets an entry: in place if the key is a text that is there, last otherwise. -/
def put (key value : Value) : List (Value × Value) → List (Value × Value)
  | [] => [(key, value)]
  | (k, v) :: rest =>
    match k, key with
    | .str a, .str b => if a = b then (k, value) :: rest else (k, v) :: put key value rest
    | _, _ => (k, v) :: put key value rest

/-- Whether a value stands for nothing, zero or the empty. -/
def isFalsy : Value → Bool
  | .null => true
  | .bool b => !b
  | .int n => n = 0
  | .float x => x.isZero
  | .str s => s.isEmpty
  | .bytes found => found.isEmpty
  | .date => false
  | .list items | .set items => items.isEmpty
  | .map entries => entries.isEmpty

end Value

namespace Node

def tag : Node → Tag
  | .scalar tag _ | .sequence tag _ | .mapping tag _ => tag

/-- The text of a scalar. A mapping with a default entry stands for the scalar in that. -/
def text? : Nat → Node → Option String
  | _, .scalar _ text => some text
  | _, .sequence .. => none
  | 0, .mapping .. => none
  | fuel + 1, .mapping _ entries =>
    match entries.find? fun (key, _) => key.tag = .value with
    | some (_, value) => value.text? fuel
    | none => none

def retagged (tag : Tag) : Node → Node
  | .scalar _ text => .scalar tag text
  | .sequence _ items => .sequence tag items
  | .mapping _ entries => .mapping tag entries

/-- The entries of a mapping, those that are merged in first. Of several mappings in a list the
earlier ones override the later ones. -/
def merged : Nat → List (Node × Node) → Except Trouble (List (Node × Node))
  | 0, _ => .error .malformed
  | fuel + 1, entries => do
    let entriesIn (node : Node) : Except Trouble (List (Node × Node)) :=
      match node with
      | .mapping _ inner => merged fuel inner
      | _ => .error .malformed
    let found ← entries.mapM fun (key, value) => do
      if key.tag = .merge then
        match value with
        | .sequence _ items =>
          let lists ← items.mapM entriesIn
          return (lists.reverse.flatten, [])
        | _ => return (← entriesIn value, [])
      else if key.tag = .value then return ([], [(key.retagged .str, value)])
      else return ([], [(key, value)])
    return found.flatMap (·.1) ++ found.flatMap (·.2)

end Node

/-- Troubles with how far they are from the root, in reading order. -/
abbrev Troubles := List (Nat × Trouble)

def Troubles.first? : Troubles → Option Trouble
  | [] => none
  | (depth, trouble) :: rest =>
    some (rest.foldl (fun nearest other => if other.1 < nearest.1 then other else nearest)
      (depth, trouble)).2

abbrev Built := Value × Troubles

namespace Built

def bad (depth : Nat) (trouble : Trouble) : Built := (.null, [(depth, trouble)])

def ofExcept (depth : Nat) : Except Trouble Value → Built
  | .ok value => (value, [])
  | .error trouble => bad depth trouble

end Built

namespace Node

def scalarValue (tag : Tag) (text : String) : Except Trouble Value :=
  match tag with
  | .null => .ok .null
  | .bool => .bool <$> boolOfText text
  | .int => .int <$> intOfText text
  | .float => .float <$> floatOfText text
  | .binary => .bytes <$> bytesOfText text
  | .timestamp => (fun _ => .date) <$> checkTimestamp text
  | .str => .ok (.str text)
  | _ => .error .malformed

def entryOf (depth : Nat) (key value : Built) : (Value × Value) × Troubles :=
  let refused := if key.1.isKey then [] else [(depth, Trouble.malformed)]
  ((key.1, value.1), key.2 ++ refused ++ value.2)

def build (fuel depth : Nat) (node : Node) : Built :=
  match fuel with
  | 0 => .bad depth .malformed
  | fuel + 1 =>
    let inner := depth + 1
    let mapping (entries : List (Node × Node)) : List (Value × Value) × Troubles :=
      match merged (fuel + 1) entries with
      | .error trouble => ([], [(inner, trouble)])
      | .ok entries =>
        let built := entries.map fun (key, value) =>
          entryOf inner (build fuel inner key) (build fuel inner value)
        (built.foldl (fun all entry => Value.put entry.1.1 entry.1.2 all) [],
          built.flatMap (·.2))
    let pair (item : Node) : Built :=
      match item with
      | .mapping _ [(key, value)] =>
        let key := build fuel inner key
        let value := build fuel inner value
        (.list [key.1, value.1], key.2 ++ value.2)
      | _ => .bad inner .malformed
    match node.tag, node with
    | .seq, .sequence _ items =>
      let built := items.map (build fuel inner)
      (.list (built.map (·.1)), built.flatMap (·.2))
    | .omap, .sequence _ items | .pairs, .sequence _ items =>
      let built := items.map pair
      (.list (built.map (·.1)), built.flatMap (·.2))
    | .map, .mapping _ entries =>
      let (entries, troubles) := mapping entries
      (.map entries, troubles)
    | .set, .mapping _ entries =>
      let (entries, troubles) := mapping entries
      (.set (entries.map (·.1)), troubles)
    | .seq, _ | .omap, _ | .pairs, _ | .map, _ | .set, _ => .bad inner .malformed
    | tag, node =>
      match node.text? fuel with
      | some text => .ofExcept depth (scalarValue tag text)
      | none => .bad depth .malformed

end Node

def isForbidden (c : Char) : Bool :=
  let n := c.toNat
  !(n = 9 || n = 10 || n = 13 || (32 ≤ n && n < 127) || n = 0x85 || (0xa0 ≤ n && n < 0xfffe) ||
    0x10000 ≤ n)

/-- The value of the document in a text. A text without one says nothing. -/
def Value.ofText (text : List Char) : Except Trouble Value := do
  if text.any isForbidden then throw .malformed
  match ← Node.ofText text with
  | none => return .null
  | some node =>
    let (value, troubles) := node.build (text.length + 2) 0
    match troubles.first? with
    | some trouble => throw trouble
    | none => return value

end UnsafeAudit.Yaml
