import UnsafeAudit.Yaml.Token

/-!
# YAML nodes

A document is a scalar, a sequence or a mapping, and each of these has a tag.
Nodes come from tokens by descent, with the anchors met so far. An alias stands
for the node of its anchor; inside of that node it stands for an empty one of the
same kind. A stream has one document at most.
-/

namespace UnsafeAudit.Yaml

inductive Tag
  | null
  | bool
  | int
  | float
  | binary
  | timestamp
  | omap
  | pairs
  | set
  | str
  | seq
  | map
  | merge
  | value
  | unknown
  deriving DecidableEq, Repr

namespace Tag

def space : String := "tag:yaml.org,2002:"

def known : List (String × Tag) := [
  ("null", null), ("bool", bool), ("int", int), ("float", float), ("binary", binary),
  ("timestamp", timestamp), ("omap", omap), ("pairs", pairs), ("set", set), ("str", str),
  ("seq", seq), ("map", map), ("merge", merge), ("value", value)]

def ofText (text : String) : Tag :=
  match known.find? fun (name, _) => space ++ name = text with
  | some (_, tag) => tag
  | none => unknown

def ofPlainType : PlainType → Tag
  | .null => null
  | .bool => bool
  | .int => int
  | .float => float
  | .timestamp => timestamp
  | .merge => merge
  | .default => value
  | .string => str

end Tag

inductive Node where
  | scalar (tag : Tag) (text : String)
  | sequence (tag : Tag) (items : List Node)
  | mapping (tag : Tag) (entries : List (Node × Node))

def Node.empty : Node := .scalar .null ""

instance : Inhabited Node := ⟨.empty⟩

def defaultHandles : List (String × String) := [("!", "!"), ("!!", Tag.space)]

structure Reading where
  tokens : List Token
  anchors : List (String × Node)
  handles : List (String × String)

abbrev Read := StateT Reading (Except Trouble)

namespace Read

def peek : Read (Option Token) := do return (← get).tokens.head?

def drop : Read Unit := modify fun r => { r with tokens := r.tokens.drop 1 }

def accept (token : Token) : Read Bool := do
  if (← peek) = some token then
    drop
    return true
  else return false

/-- Fails, for the reason that the text cannot be read on if that is so. -/
def fail : Read α := do
  match ← peek with
  | some (.broken trouble) => throw trouble
  | _ => throw .malformed

def expect (token : Token) : Read Unit := do
  if !(← accept token) then fail

def sees (tokens : List Token) : Read Bool := do return (← peek).any (· ∈ tokens)

structure Properties where
  anchor : Option String
  tag : Option (Option String × String)

def anchor? : Read (Option String) := do
  match ← peek with
  | some (.anchor name) =>
    drop
    return some name
  | _ => return none

def tag? : Read (Option (Option String × String)) := do
  match ← peek with
  | some (.tag handle suffix) =>
    drop
    return some (handle, suffix)
  | _ => return none

def properties : Read Properties := do
  match ← anchor? with
  | some name => return ⟨some name, ← tag?⟩
  | none =>
    match ← tag? with
    | some tag => return ⟨← anchor?, some tag⟩
    | none => return ⟨none, none⟩

def tagName : Option (Option String × String) → Read (Option String)
  | none => return none
  | some (none, suffix) => return some suffix
  | some (some handle, suffix) => do
    match (← get).handles.lookup handle with
    | some expansion => return some (expansion ++ suffix)
    | none => fail

/-- The tag of a scalar. Without one, or with the mark alone, the text says what it is, unless it
has quotes and no mark. -/
def scalarTag (name : Option String) (text : List Char) (isPlain : Bool) : Tag :=
  match name with
  | none => if isPlain then .ofPlainType (.ofText text) else .str
  | some "!" => .ofPlainType (.ofText text)
  | some name => .ofText name

def blockTag (name : Option String) (otherwise : Tag) : Tag :=
  match name with
  | none | some "!" => otherwise
  | some name => .ofText name

def define (anchor : Option String) (node : Node) : Read Unit :=
  match anchor with
  | none => pure ()
  | some name => modify fun r => { r with anchors := (name, node) :: r.anchors }

/-- A node with members. Its anchor stands for an empty node until the members are read. -/
def container (anchor : Option String) (stub : Node) (members : Read Node) : Read Node := do
  drop
  define anchor stub
  let node ← members
  define anchor node
  return node

mutual
/-- A node. Blocks are read where they may stand, and entries without a block of their own
behind a name. -/
def node (inBlock unindented : Bool) : Nat → Read Node
  | 0 => fail
  | fuel + 1 => do
    if let some (.alias name) ← peek then
      match (← get).anchors.lookup name with
      | some node =>
        drop
        return node
      | none => fail
    else
      let p ← properties
      if let some name := p.anchor then
        if ((← get).anchors.lookup name).isSome then fail
      let name ← tagName p.tag
      let listTag := blockTag name .seq
      let entryTag := blockTag name .map
      let sequence := container p.anchor (.sequence listTag [])
      let mapping := container p.anchor (.mapping entryTag [])
      match ← peek with
      | some .blockEntry =>
        if unindented then
          define p.anchor (.sequence listTag [])
          let node := Node.sequence listTag (← unindentedItems fuel)
          define p.anchor node
          return node
        else bare p name
      | some (.scalar text isPlain) =>
        drop
        let node := Node.scalar (scalarTag name text isPlain) (String.ofList text)
        define p.anchor node
        return node
      | some .flowSequence => sequence (.sequence listTag <$> flowItems true fuel)
      | some .flowMapping => mapping (.mapping entryTag <$> flowEntries true fuel)
      | some .blockSequence =>
        if inBlock then sequence (.sequence listTag <$> blockItems fuel) else bare p name
      | some .blockMapping =>
        if inBlock then mapping (.mapping entryTag <$> blockEntries fuel) else bare p name
      | _ => bare p name
def bare (p : Properties) (name : Option String) : Read Node := do
  if p.anchor.isNone && p.tag.isNone then fail
  let node := Node.scalar (scalarTag name [] true) ""
  define p.anchor node
  return node
def nodeUnless (stops : List Token) (inBlock unindented : Bool) : Nat → Read Node
  | 0 => fail
  | fuel + 1 => do
    if ← sees stops then return .empty else node inBlock unindented fuel
def blockItems : Nat → Read (List Node)
  | 0 => fail
  | fuel + 1 => do
    if ← accept .blockEntry then
      let item ← nodeUnless [.blockEntry, .blockEnd] true false fuel
      return item :: (← blockItems fuel)
    else
      expect .blockEnd
      return []
def unindentedItems : Nat → Read (List Node)
  | 0 => fail
  | fuel + 1 => do
    if ← accept .blockEntry then
      let item ← nodeUnless [.blockEntry, .key, .value, .blockEnd] true false fuel
      return item :: (← unindentedItems fuel)
    else return []
def blockEntries : Nat → Read (List (Node × Node))
  | 0 => fail
  | fuel + 1 => do
    let stops := [Token.key, .value, .blockEnd]
    if ← accept .key then
      let key ← nodeUnless stops true true fuel
      let value ← if ← accept .value then nodeUnless stops true true fuel else pure .empty
      return (key, value) :: (← blockEntries fuel)
    else
      expect .blockEnd
      return []
/-- The items of a sequence in brackets. An item with a key is a mapping of one entry. -/
def flowItems (first : Bool) : Nat → Read (List Node)
  | 0 => fail
  | fuel + 1 => do
    if ← accept .flowSequenceEnd then return []
    if !first then expect .flowEntry
    if ← accept .key then
      let key ← nodeUnless [.value, .flowEntry, .flowSequenceEnd] false false fuel
      let value ←
        if ← accept .value then nodeUnless [.flowEntry, .flowSequenceEnd] false false fuel
        else pure .empty
      return .mapping .map [(key, value)] :: (← flowItems false fuel)
    else if ← accept .flowSequenceEnd then return []
    else
      let item ← node false false fuel
      return item :: (← flowItems false fuel)
/-- The entries of a mapping in braces. One without a key mark has no value. -/
def flowEntries (first : Bool) : Nat → Read (List (Node × Node))
  | 0 => fail
  | fuel + 1 => do
    if ← accept .flowMappingEnd then return []
    if !first then expect .flowEntry
    if ← accept .key then
      let key ← nodeUnless [.value, .flowEntry, .flowMappingEnd] false false fuel
      let value ←
        if ← accept .value then nodeUnless [.flowEntry, .flowMappingEnd] false false fuel
        else pure .empty
      return (key, value) :: (← flowEntries false fuel)
    else if ← accept .flowMappingEnd then return []
    else
      let key ← node false false fuel
      return (key, .empty) :: (← flowEntries false fuel)
end

/-- Reads directives: one version at most, and each handle once. -/
def directives : Nat → Bool → List (String × String) → Read (List (String × String))
  | 0, _, handles => return handles
  | fuel + 1, versioned, handles => do
    match ← peek with
    | some (.version major) =>
      if versioned || major ≠ 1 then fail
      drop
      directives fuel true handles
    | some (.handle name expansion) =>
      if (handles.lookup name).isSome then fail
      drop
      directives fuel versioned ((name, expansion) :: handles)
    | some .otherDirective =>
      drop
      directives fuel versioned handles
    | _ => return handles

def isDirective : Token → Bool
  | .version _ | .handle .. | .otherDirective => true
  | _ => false

def skipDocumentEnds : Nat → Read Unit
  | 0 => pure ()
  | fuel + 1 => do
    if ← accept .documentEnd then skipDocumentEnds fuel

def stream (bound : Nat) : Read (Option Node) := do
  if ← accept .streamEnd then return none
  let isExplicit := (← peek).any fun t => isDirective t || t = .documentStart
  let document ←
    if isExplicit then
      let handles ← directives bound false []
      expect .documentStart
      modify fun r => { r with handles := handles ++ defaultHandles }
      if (← peek).any fun t => isDirective t || t ∈ [.documentStart, .documentEnd, .streamEnd] then
        pure Node.empty
      else node true false bound
    else node true false bound
  skipDocumentEnds bound
  expect .streamEnd
  return some document

end Read

def Node.ofText (text : List Char) : Except Trouble (Option Node) :=
  let tokens := Token.ofText text
  (Read.stream (4 * tokens.length + 8)).run' ⟨tokens, [], defaultHandles⟩

end UnsafeAudit.Yaml
