import UnsafeAudit.FileSystem.Basic

/-!
# Canonical paths

Resolution replaces every link on a path by what it leads to and every `..` by
the directory above. Strict resolution refuses a path of which a part is
missing; the lenient one keeps the missing tail as it is spelled. Both give up
on a chain of links that comes back to itself.

The walk keeps the location reached so far, the spelling of that location in
the terms of the request, and the links it is inside of or has left. Each link
is entered once, so the walk ends.

The walk looks at locations and not at texts. A lookup refuses a path text of
`maxPath` bytes (`find`); that a part of a path has a text as long as that is
outside of the walk.
-/

namespace UnsafeAudit.FileSystem

/-- What is left to walk: a name, or the end of the target of the link at a location. -/
inductive Todo
  | name (name : String)
  | leave (link : Location)

def Todo.name? : Todo → Option String
  | .name n => some n
  | .leave _ => none

/-- A location and how it is spelled from the request's starting point. -/
structure Reached where
  place : Location
  spelled : Path

def Reached.into (r : Reached) (name : String) : Reached :=
  ⟨r.place ++ [name], r.spelled.child name⟩

/-- One directory up. A relative spelling grows a `..` once it has no name left to drop. -/
def Reached.up (r : Reached) : Reached :=
  let spelled :=
    match r.spelled.anchor, r.spelled.parts.getLast? with
    | .relative, none => r.spelled.child ".."
    | .relative, some ".." => r.spelled.child ".."
    | _, _ => r.spelled.parent
  ⟨r.place.dropLast, spelled⟩

/-- How a walk ends: at a location, at a link that it is already inside of (with the names
that were left), or at a refusal. -/
inductive WalkEnd
  | reached (place : Reached)
  | cycle (link : Reached) (left : List String)
  | refused (cause : OsCause) (place : Reached)
  | nullName

def unentered (fs : FileSystem) (entered : List (Location × Option Reached)) : List Location :=
  fs.links.filter fun link => !entered.any (·.1 == link)

theorem unentered_lt {fs : FileSystem} {entered : List (Location × Option Reached)}
    {link : Location} {r : Option Reached} (hm : link ∈ fs.links)
    (hn : entered.any (·.1 == link) = false) :
    (fs.unentered ((link, r) :: entered)).length < (fs.unentered entered).length := by
  unfold unentered
  have hsub : fs.links.filter (fun l => !((link, r) :: entered).any (·.1 == l)) =
      (fs.links.filter fun l => !entered.any (·.1 == l)).filter (fun l => !(link == l)) := by
    rw [List.filter_filter]
    congr 1
    funext l
    simp [List.any_cons, Bool.not_or]
  rw [hsub]
  have hmem : link ∈ fs.links.filter fun l => !entered.any (·.1 == l) := by
    simp only [List.mem_filter, hm, true_and]
    simp [hn]
  apply Nat.lt_of_le_of_ne (List.length_filter_le _ _)
  intro heq
  have hall := List.length_filter_eq_length_iff.mp heq link hmem
  simp at hall

theorem unentered_leave {fs : FileSystem} {entered : List (Location × Option Reached)}
    {link : Location} {r : Option Reached} :
    (fs.unentered ((link, r) :: entered)).length ≤ (fs.unentered entered).length := by
  have hsub : fs.unentered ((link, r) :: entered) =
      (fs.unentered entered).filter (fun l => !(link == l)) := by
    unfold unentered
    rw [List.filter_filter]
    congr 1
    funext l
    simp [List.any_cons, Bool.not_or]
  rw [hsub]
  exact List.length_filter_le _ _

def walkLinks (fs : FileSystem) (strict : Bool) (entered : List (Location × Option Reached))
    (here : Reached) (todo : List Todo) : WalkEnd :=
  match todo with
  | [] => .reached here
  | .leave link :: rest => walkLinks fs strict ((link, some here) :: entered) here rest
  | .name name :: rest =>
    if name = "" || name = "." then walkLinks fs strict entered here rest
    else if name = ".." then walkLinks fs strict entered here.up rest
    else if name.contains '\x00' then .nullName
    else
      let next := here.into name
      match fs.entry next.place with
      | .error cause =>
        if strict then .refused cause next else walkLinks fs strict entered next rest
      | .ok (.link target) =>
        match _unseen : entered.find? (·.1 == next.place) with
        | some (_, some left) => walkLinks fs strict entered left rest
        | some (_, none) =>
          if strict then
            match fs.find next.spelled true with
            | .error cause => .refused cause next
            | .ok _ => .refused .tooManyLinks next
          else .cycle next (rest.filterMap Todo.name?)
        | none =>
          if _known : next.place ∈ fs.links then
            let start : Reached := if target.startsWith "/" then ⟨[], ⟨.root, []⟩⟩ else here
            walkLinks fs strict ((next.place, none) :: entered) start
              ((Text.splitOn '/' target.toList).map (Todo.name ∘ String.ofList)
                ++ .leave next.place :: rest)
          else .refused .noSuchFile next
      | .ok _ => walkLinks fs strict entered next rest
termination_by ((fs.unentered entered).length, todo.length)
decreasing_by
  all_goals simp_wf
  · have hle : (fs.unentered ((link, some here) :: entered)).length ≤
        (fs.unentered entered).length := unentered_leave
    rcases Nat.lt_or_eq_of_le hle with hlt | heq
    · exact Prod.Lex.left _ _ hlt
    · rw [heq]
      exact Prod.Lex.right _ (Nat.lt_succ_self _)
  · exact Prod.Lex.right _ (Nat.lt_succ_self _)
  · exact Prod.Lex.right _ (Nat.lt_succ_self _)
  · exact Prod.Lex.right _ (Nat.lt_succ_self _)
  · exact Prod.Lex.right _ (Nat.lt_succ_self _)
  · refine Prod.Lex.left _ _ (unentered_lt _known ?_)
    rw [List.any_eq_false]
    intro x hx hxe
    exact (List.find?_eq_none.mp _unseen x hx) hxe
  · exact Prod.Lex.right _ (Nat.lt_succ_self _)

/-- Drops every `..` together with the name before it. -/
def collapse (names : List String) : Location :=
  names.foldl (fun done name =>
    if name = "" || name = "." then done
    else if name = ".." then done.dropLast
    else done ++ [name]) []

def startOf (fs : FileSystem) (path : Path) : Reached :=
  if path.isAbsolute then ⟨[], ⟨.root, []⟩⟩ else ⟨fs.cwd, ⟨.relative, []⟩⟩

def resolveStrict (fs : FileSystem) (path : Path) : Except ResolveError Path :=
  match walkLinks fs true [] (fs.startOf path) (path.parts.map .name) with
  | .reached here => .ok (.atRoot here.place)
  | .cycle link _ => .error (.loop link.spelled.toString)
  | .nullName => .error .nullName
  | .refused .tooManyLinks link => .error (.loop link.spelled.toString)
  | .refused cause next => .error (.refused ⟨cause, next.spelled.toString⟩)

/-- The canonical path of what exists, with a missing tail kept. -/
def resolve (fs : FileSystem) (path : Path) : Except ResolveError Path :=
  let settle (names : Location) : Except ResolveError Path :=
    let result := Path.atRoot names
    match fs.find result true with
    | .error .tooManyLinks => .error (.loop result.toString)
    | _ => .ok result
  match walkLinks fs false [] (fs.startOf path) (path.parts.map .name) with
  | .reached here => settle here.place
  | .cycle link left => settle (collapse (link.place ++ left))
  | .nullName => .error .nullName
  | .refused cause next => .error (.refused ⟨cause, next.spelled.toString⟩)

def canonical (fs : FileSystem) (path : Path) : Except ResolveError Path :=
  match fs.resolveStrict path with
  | .ok result => .ok result
  | .error .nullName => .error .nullName
  | .error _ => fs.resolve path

end UnsafeAudit.FileSystem
