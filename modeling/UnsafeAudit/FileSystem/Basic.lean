import UnsafeAudit.FileSystem.Error
import UnsafeAudit.Path.Basic
import UnsafeAudit.Text.Utf8

/-!
# File system states

A state is a tree of directories, regular files and symbolic links, together
with the working directory. A *location* is a list of names from the root in
which no name stands for a link. `find` follows links as path lookup does and
gives up after forty of them; `entry` looks at one location and follows none.
-/

namespace UnsafeAudit

mutual
inductive Node where
  | file (bytes : List UInt8)
  | link (target : String)
  | dir (entries : Entries)
inductive Entries where
  | nil
  | cons (name : String) (node : Node) (rest : Entries)
end

instance : Inhabited Node := ⟨.file []⟩

abbrev Location := List String

structure FileSystem where
  root : Entries
  cwd : Location

namespace Entries

def lookup (name : String) : Entries → Option Node
  | .nil => none
  | .cons n node rest => if n = name then some node else rest.lookup name

/-- Puts a node under a name, in the place of the node that has it or at the end. -/
def insert (name : String) (node : Node) : Entries → Entries
  | .nil => .cons name node .nil
  | .cons n old rest =>
    if n = name then .cons n node rest else .cons n old (rest.insert name node)

def erase (name : String) : Entries → Entries
  | .nil => .nil
  | .cons n old rest => if n = name then rest else .cons n old (rest.erase name)

def names : Entries → List String
  | .nil => []
  | .cons n _ rest => n :: rest.names

end Entries

/-- Longest name that a directory admits, in bytes. -/
def maxName : Nat := 255

/-- Length from which a path text is refused, in bytes. -/
def maxPath : Nat := 4096

/-- Links that one lookup follows before it gives up. -/
def maxLinks : Nat := 40

namespace Node

/-- The node that a list of names leads to without following a link. -/
def entry (node : Node) : Location → Except OsCause Node
  | [] => .ok node
  | name :: rest =>
    match node with
    | .dir entries =>
      if name.utf8ByteSize > maxName then .error .nameTooLong
      else match entries.lookup name with
        | none => .error .noSuchFile
        | some inner => inner.entry rest
    | _ => .error .notADirectory

/-- Replaces what stands at a location by what `change` makes of it; `none` erases it. -/
def update (change : Option Node → Option Node) : Location → Node → Node
  | [], node => (change (some node)).getD node
  | [name], .dir entries =>
    match change (entries.lookup name) with
    | some inner => .dir (entries.insert name inner)
    | none => .dir (entries.erase name)
  | name :: next :: rest, .dir entries =>
    match entries.lookup name with
    | some inner => .dir (entries.insert name (inner.update change (next :: rest)))
    | none => .dir entries
  | _, node => node

end Node

mutual
def Node.links (here : Location) : Node → List Location
  | .file _ => []
  | .link _ => [here]
  | .dir entries => entries.links here
def Entries.links (here : Location) : Entries → List Location
  | .nil => []
  | .cons name node rest => node.links (here ++ [name]) ++ rest.links here
end

namespace FileSystem

def entry (fs : FileSystem) (location : Location) : Except OsCause Node :=
  (Node.dir fs.root).entry location

def links (fs : FileSystem) : List Location := fs.root.links []

def update (fs : FileSystem) (location : Location) (change : Option Node → Option Node) :
    FileSystem :=
  match (Node.dir fs.root).update change location with
  | .dir root => { fs with root }
  | _ => fs

/-- The names that a text asks a lookup to walk. A separator at the end asks for a directory,
as a last `.` does. -/
def steps (text : String) : List String :=
  let names := (Text.splitOn '/' text.toList).map String.ofList
  match names.getLast? with
  | some "" => names.filter (· ≠ "") ++ ["."]
  | _ => names.filter (· ≠ "")

/-- Path lookup from the directory at `here`. A link in the last place is followed only if
`follow` says so. -/
def findFrom (fs : FileSystem) (follow : Bool) (budget : Nat) (here : Location)
    (todo : List String) : Except OsCause (Location × Node) :=
  match todo with
  | [] => (fs.entry here).map (here, ·)
  | name :: rest =>
    match fs.entry here with
    | .error cause => .error cause
    | .ok (.dir entries) =>
      if name = "." then findFrom fs follow budget here rest
      else if name = ".." then findFrom fs follow budget here.dropLast rest
      else if name.utf8ByteSize > maxName then .error .nameTooLong
      else match entries.lookup name with
        | none => .error .noSuchFile
        | some (.link target) =>
          if rest.isEmpty && !follow then .ok (here ++ [name], .link target)
          else match budget with
            | 0 => .error .tooManyLinks
            | budget + 1 =>
              findFrom fs follow budget (if target.startsWith "/" then [] else here)
                (steps target ++ rest)
        | some _ => findFrom fs follow budget (here ++ [name]) rest
    | .ok _ => .error .notADirectory
termination_by (budget, todo.length)

def find (fs : FileSystem) (path : Path) (follow : Bool) : Except OsCause (Location × Node) :=
  if path.toString.utf8ByteSize ≥ maxPath then .error .nameTooLong
  else findFrom fs follow maxLinks (if path.isAbsolute then [] else fs.cwd) path.parts

def stat (fs : FileSystem) (path : Path) : Except OsError Node :=
  match fs.find path true with
  | .ok (_, node) => .ok node
  | .error cause => .error ⟨cause, path.toString⟩

/-- What the text of a path leads to when links are followed. Unlike the path that it spells, a
text can ask for a directory by a separator at its end, and an empty one leads nowhere. -/
def statText (fs : FileSystem) (text : String) : Except OsCause Node :=
  if text = "" then .error .noSuchFile
  else if text.utf8ByteSize ≥ maxPath then .error .nameTooLong
  else (findFrom fs true maxLinks (if text.startsWith "/" then [] else fs.cwd) (steps text)).map
    (·.2)

def isFile (fs : FileSystem) (path : Path) : Bool :=
  match fs.stat path with
  | .ok (.file _) => true
  | _ => false

def isDir (fs : FileSystem) (path : Path) : Bool :=
  match fs.stat path with
  | .ok (.dir _) => true
  | _ => false

/-- Whether a path leads to something. A name that is too long is the one refusal that is
not an answer. -/
def pathExists (fs : FileSystem) (path : Path) : Except OsError Bool :=
  match fs.stat path with
  | .ok _ => .ok true
  | .error e => if e.cause = .nameTooLong then .error e else .ok false

/-- The bytes of a file. Paths with the null character are not asked for: here such a name is one
that is missing, where a system call would refuse the path. -/
def readBytes (fs : FileSystem) (path : Path) : Except OsError (List UInt8) :=
  match fs.stat path with
  | .ok (.file bytes) => .ok bytes
  | .ok _ => .error ⟨.isADirectory, path.toString⟩
  | .error e => .error e

/-- Creates a file or replaces its bytes; a link in the last place is written through. -/
def writeBytes (fs : FileSystem) (path : Path) (bytes : List UInt8) :
    Except OsError FileSystem :=
  let refuse (cause : OsCause) : Except OsError FileSystem := .error ⟨cause, path.toString⟩
  let rec place (budget : Nat) (path : Path) : Except OsCause Location :=
    match fs.find path false with
    | .ok (location, .file _) => .ok location
    | .ok (_, .dir _) => .error .isADirectory
    | .ok (location, .link target) =>
      match budget with
      | 0 => .error .tooManyLinks
      | budget + 1 => place budget ((Path.atRoot location.dropLast).join (Path.ofString target))
    | .error .noSuchFile =>
      match path.parts.getLast? with
      | none => .error .noSuchFile
      | some ".." => .error .noSuchFile
      | some name =>
        match fs.find path.parent true with
        | .ok (location, .dir _) => .ok (location ++ [name])
        | .ok _ => .error .notADirectory
        | .error cause => .error cause
    | .error cause => .error cause
  match place maxLinks path with
  | .ok location => .ok (fs.update location fun _ => some (.file bytes))
  | .error cause => refuse cause

def makeDirs (fs : FileSystem) (path : Path) : FileSystem :=
  let start : Path := ⟨path.anchor, []⟩
  (path.parts.foldl (fun (fs, here) name =>
    let here := here.child name
    match fs.find here true with
    | .ok _ => (fs, here)
    | .error _ =>
      match fs.find here.parent true with
      | .ok (location, .dir _) =>
        (fs.update (location ++ [name]) fun
          | some node => some node
          | none => some (.dir .nil), here)
      | _ => (fs, here)) (fs, start)).1

/-- Puts a node at a path whose directory exists, in the place of what stands there. -/
def put (fs : FileSystem) (path : Path) (node : Node) : FileSystem :=
  match fs.find path.parent true with
  | .ok (location, .dir _) => fs.update (location ++ [path.name]) fun _ => some node
  | _ => fs

/-- Removes the entry that a path names, without following a link in the last place. -/
def remove (fs : FileSystem) (path : Path) : Except OsError FileSystem :=
  match fs.find path false with
  | .ok (_, .dir _) => .error ⟨.isADirectory, path.toString⟩
  | .ok (location, _) => .ok (fs.update location fun _ => none)
  | .error cause => .error ⟨cause, path.toString⟩

end FileSystem

end UnsafeAudit
