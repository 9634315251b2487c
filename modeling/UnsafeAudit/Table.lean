/-!
# Tables

A table is a list of entries of which no two are the same in what they stand
for. An entry that is put into it takes the place of the one that is the same.
-/

namespace UnsafeAudit.Table

/-- Puts an entry in the place of the first that is the same, or last. -/
def put (same : α → α → Bool) (entry : α) : List α → List α
  | [] => [entry]
  | e :: rest => if same e entry then entry :: rest else e :: put same entry rest

def ofList (same : α → α → Bool) (entries : List α) : List α :=
  entries.foldl (fun table entry => put same entry table) []

end UnsafeAudit.Table
