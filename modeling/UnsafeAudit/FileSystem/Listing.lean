import UnsafeAudit.FileSystem.Basic

/-!
# Files below a directory

`entriesBelow` lists what stands below a directory, deeper directories
included. A link to a directory is not entered and is not listed, so a cycle
of links does not matter; every other link is listed like a file. `looks` says
what the file system is asked about on the way, directory by directory.
-/

namespace UnsafeAudit

mutual
/-- The paths of the entries of a directory at `here` that are no directories, `leadsToDir`
saying so for links, and of those of the real directories below it. -/
def Node.entriesBelow (leadsToDir : Path → Bool) (here : Path) : Node → List Path
  | .dir entries => entries.entriesBelow leadsToDir here
  | _ => []
def Entries.entriesBelow (leadsToDir : Path → Bool) (here : Path) : Entries → List Path
  | .nil => []
  | .cons name (.file _) rest => here.child name :: rest.entriesBelow leadsToDir here
  | .cons name (.link _) rest =>
    if leadsToDir (here.child name) then rest.entriesBelow leadsToDir here
    else here.child name :: rest.entriesBelow leadsToDir here
  | .cons name (.dir inner) rest =>
    inner.entriesBelow leadsToDir (here.child name) ++ rest.entriesBelow leadsToDir here
end

/-- What a walk asks the file system about: a directory, to be read, or another entry, of which
it wants to know what it leads to. -/
inductive Look
  | directory (path : Path)
  | entry (path : Path)
  deriving DecidableEq, Repr

def Entries.leaves (leadsToDir : Path → Bool) (here : Path) : Entries → List Path
  | .nil => []
  | .cons name (.file _) rest => here.child name :: rest.leaves leadsToDir here
  | .cons name (.link _) rest =>
    if leadsToDir (here.child name) then rest.leaves leadsToDir here
    else here.child name :: rest.leaves leadsToDir here
  | .cons _ (.dir _) rest => rest.leaves leadsToDir here

mutual
/-- What a walk at and below `here` looks at: a directory, its own entries, and then the real
directories in it one after the other. -/
def Node.looks (leadsToDir : Path → Bool) (here : Path) : Node → List Look
  | .dir entries => .directory here ::
    ((entries.leaves leadsToDir here).map .entry ++ entries.looks leadsToDir here)
  | _ => []
def Entries.looks (leadsToDir : Path → Bool) (here : Path) : Entries → List Look
  | .nil => []
  | .cons name node rest => node.looks leadsToDir (here.child name) ++ rest.looks leadsToDir here
end

namespace FileSystem

def looks (fs : FileSystem) (top : Path) : List Look :=
  match fs.stat top with
  | .ok node => node.looks fs.isDir top
  | .error _ => []

def entriesBelow (fs : FileSystem) (top : Path) : Except OsError (List Path) :=
  match fs.stat top with
  | .ok (.dir entries) => .ok (entries.entriesBelow fs.isDir top)
  | .ok _ => .error ⟨.notADirectory, top.toString⟩
  | .error e => .error e

def isFileWithSuffix (fs : FileSystem) (suffix : String) (path : Path) : Bool :=
  fs.isFile path && path.suffix == suffix

def filesBelow (fs : FileSystem) (suffix : String) (top : Path) : Except OsError (List Path) :=
  (fs.entriesBelow top).map fun paths => Path.sort (paths.filter (fs.isFileWithSuffix suffix))

end FileSystem

end UnsafeAudit
