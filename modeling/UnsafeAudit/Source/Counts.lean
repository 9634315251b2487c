import UnsafeAudit.Json.Decode

/-!
# Counts of unsafe constructs
-/

namespace UnsafeAudit

structure UnsafeCounts where
  functions : Nat
  exprs : Nat
  itemTraits : Nat
  itemImpls : Nat
  methods : Nat
  deriving DecidableEq, Repr

namespace UnsafeCounts

def zero : UnsafeCounts := ⟨0, 0, 0, 0, 0⟩

def add (a b : UnsafeCounts) : UnsafeCounts :=
  ⟨a.functions + b.functions, a.exprs + b.exprs, a.itemTraits + b.itemTraits,
    a.itemImpls + b.itemImpls, a.methods + b.methods⟩

instance : Add UnsafeCounts := ⟨add⟩

def sum (counts : List UnsafeCounts) : UnsafeCounts := counts.foldl add zero

def total (c : UnsafeCounts) : Nat :=
  c.functions + c.exprs + c.itemTraits + c.itemImpls + c.methods

def hasUnsafe (c : UnsafeCounts) : Bool := 0 < c.total

def toJson (c : UnsafeCounts) : Json := .obj [
  ("functions", .nat c.functions),
  ("exprs", .nat c.exprs),
  ("item_traits", .nat c.itemTraits),
  ("item_impls", .nat c.itemImpls),
  ("methods", .nat c.methods)]

open Decode in
def ofJson : Decoder UnsafeCounts := record fun fields =>
  UnsafeCounts.mk <$> defaulted "functions" natural 0 fields
    <*> defaulted "exprs" natural 0 fields
    <*> defaulted "item_traits" natural 0 fields
    <*> defaulted "item_impls" natural 0 fields
    <*> defaulted "methods" natural 0 fields

end UnsafeCounts

end UnsafeAudit
