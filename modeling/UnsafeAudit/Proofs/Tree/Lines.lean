import UnsafeAudit.Tree.Line

/-!
# Reading tree lines

A flat list of lines says what stands below what: the depth of a package line
is in the line, and a group line stands at the depth of the first package of its
group, the next package line.
-/

namespace UnsafeAudit

/-- What stands directly below a package: the header of a group, or a package. -/
inductive Entry
  | header (kind : DependencyKind)
  | package (id : PackageId)
  deriving DecidableEq, Repr

namespace TreeLines

def packages (lines : List TreeLine) : List PackageLine :=
  lines.filterMap fun
    | .package line => some line
    | .group _ => none

def ids (lines : List TreeLine) : List PackageId := (packages lines).map (·.packageId)

/-- The depth at which the first of some lines stands. -/
def depthOf : List TreeLine → Nat
  | [] => 0
  | .package line :: _ => line.depth
  | .group _ :: rest => depthOf rest

/-- Of the lines that follow a package line of some depth, those that stand below it. -/
def below (depth : Nat) : List TreeLine → List TreeLine
  | [] => []
  | line :: rest => if depth < depthOf (line :: rest) then line :: below depth rest else []

/-- Of the lines that follow a package line of some depth, those behind the ones below it. -/
def behind (depth : Nat) (lines : List TreeLine) : List TreeLine :=
  lines.drop (below depth lines).length

/-- Of the lines below a package line of some depth, those that stand directly below it. -/
def entries (depth : Nat) : List TreeLine → List Entry
  | [] => []
  | .package line :: rest =>
    if line.depth = depth + 1 then .package line.packageId :: entries depth rest
    else entries depth rest
  | .group line :: rest =>
    if depthOf rest = depth + 1 then .header line.kind :: entries depth rest
    else entries depth rest

/-- Each package line with the lines below it. -/
def blocks : List TreeLine → List (PackageLine × List TreeLine)
  | [] => []
  | .package line :: rest => (line, below line.depth rest) :: blocks rest
  | .group _ :: rest => blocks rest

@[simp] theorem packages_nil : packages [] = [] := rfl
@[simp] theorem packages_package : packages (.package line :: rest) = line :: packages rest := rfl
@[simp] theorem packages_group : packages (.group line :: rest) = packages rest := rfl

@[simp] theorem packages_append : packages (xs ++ ys) = packages xs ++ packages ys :=
  List.filterMap_append

theorem below_eq_nil (h : depthOf tail ≤ depth) : below depth tail = [] := by
  cases tail with
  | nil => rfl
  | cons line rest => rw [below, if_neg (by omega)]

theorem behind_eq_self (h : depthOf tail ≤ depth) : behind depth tail = tail := by
  rw [behind, below_eq_nil h]
  rfl

theorem behind_append (h : below depth (xs ++ ys) = xs ++ below depth ys) :
    behind depth (xs ++ ys) = behind depth ys := by
  rw [behind, behind, h, List.length_append, List.drop_append]
  simp

theorem blocks_split (before after : List TreeLine) (line : PackageLine) :
    ∃ first, blocks (before ++ .package line :: after) =
      first ++ (line, below line.depth after) :: blocks after ∧
      first.map (·.1) = packages before := by
  induction before with
  | nil => exact ⟨[], rfl, rfl⟩
  | cons other rest ih =>
    obtain ⟨first, hb, hf⟩ := ih
    cases other with
    | package other =>
      refine ⟨(other, below other.depth (rest ++ .package line :: after)) :: first, ?_, ?_⟩
      · simp [blocks, hb]
      · simp [hf]
    | group other => exact ⟨first, by simpa [blocks] using hb, by simpa using hf⟩

end TreeLines

end UnsafeAudit
