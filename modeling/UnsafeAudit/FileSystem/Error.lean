import UnsafeAudit.Text.Quoted

/-!
# Refusals of the file system

Each refusal has a cause and names the path that was asked for, spelled as it
was asked.
-/

namespace UnsafeAudit

inductive OsCause
  | noSuchFile
  | fileExists
  | notADirectory
  | isADirectory
  | nameTooLong
  | tooManyLinks
  deriving DecidableEq, Repr

def OsCause.code : OsCause → Nat
  | .noSuchFile => 2
  | .fileExists => 17
  | .notADirectory => 20
  | .isADirectory => 21
  | .nameTooLong => 36
  | .tooManyLinks => 40

def OsCause.text : OsCause → String
  | .noSuchFile => "No such file or directory"
  | .fileExists => "File exists"
  | .notADirectory => "Not a directory"
  | .isADirectory => "Is a directory"
  | .nameTooLong => "File name too long"
  | .tooManyLinks => "Too many levels of symbolic links"

structure OsError where
  cause : OsCause
  path : String
  deriving DecidableEq, Repr

def OsError.message (e : OsError) : String :=
  s!"[Errno {e.cause.code}] {e.cause.text}: {Text.quoted e.path}"

/-- Why a path has no resolution: a refusal on the way, a chain of links that comes back to
itself, or a name that holds the null character, which no file has. -/
inductive ResolveError
  | refused (e : OsError)
  | loop (path : String)
  | nullName
  deriving DecidableEq, Repr

def ResolveError.message : ResolveError → String
  | .refused e => e.message
  | .loop path => s!"Symlink loop from {Text.quoted path}"
  | .nullName => "embedded null byte"

end UnsafeAudit
