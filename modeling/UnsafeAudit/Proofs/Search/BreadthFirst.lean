import Mathlib.Data.List.Perm.Subperm
import Mathlib.Logic.Relation
import Mathlib.Tactic.Tauto
import UnsafeAudit.Proofs.Search.FirstOccurrences

/-!
# Breadth-first order

What can be reached from a start along some steps has a breadth-first order:
whoever comes is followed, as soon as it is its turn, by those of its
successors that did not come before. `BreadthFirst` says so of a finished list.
`Frontier` says it of a search that has expanded some members and has queued
the others, and is what a search keeps from step to step.
-/

namespace UnsafeAudit

variable [DecidableEq α] {next : α → List α} {start a : α} {done pending order : List α}

/-- What can be reached along steps from each `a` to a member of `next a`. -/
abbrev Reachable (next : α → List α) : α → α → Prop :=
  Relation.ReflTransGen fun a b => b ∈ next a

/-- `order` holds what can be reached from `start`, each once, in breadth-first order: it is read
off by writing down the start and then, member by member, the successors of the members in this
same order, and by leaving out what was written down before. -/
structure BreadthFirst (next : α → List α) (start : α) (order : List α) : Prop where
  mem_iff : ∀ a, a ∈ order ↔ Reachable next start a
  nodup : order.Nodup
  order_eq : order = (start :: order.flatMap next).eraseDups

/-- A search that has expanded the members of `done` and has queued those of `pending`. -/
structure Frontier (next : α → List α) (start : α) (done pending : List α) : Prop where
  found_eq : done ++ pending = (start :: done.flatMap next).eraseDups
  reached : ∀ a ∈ done ++ pending, Reachable next start a

namespace Frontier

theorem init : Frontier next start [] [start] :=
  ⟨by simp [List.eraseDups_cons], by simp [Relation.ReflTransGen.refl]⟩

/-- The first in the queue is expanded: of its successors those that are new are queued. -/
theorem step (h : Frontier next start done (a :: pending)) :
    Frontier next start (done ++ [a])
      (pending ++ ((next a).filter (· ∉ done ++ a :: pending)).eraseDups) := by
  constructor
  · have hmem : ∀ b, b ∈ done ++ a :: pending ↔ b ∈ start :: done.flatMap next := by
      intro b
      rw [h.found_eq, List.mem_eraseDups]
    rw [List.flatMap_append, ← List.cons_append, eraseDups_append_filter, ← h.found_eq,
      filter_eraseDups]
    simp only [hmem, List.flatMap_singleton, List.append_assoc, List.cons_append, List.nil_append]
  · intro b hb
    have hcases : b ∈ done ++ a :: pending ∨ b ∈ next a := by
      simp only [List.mem_append, List.mem_cons, List.mem_eraseDups, List.mem_filter] at hb ⊢
      tauto
    rcases hcases with hb | hab
    · exact h.reached b hb
    · exact (h.reached a (by simp)).tail hab

theorem breadthFirst (h : Frontier next start done []) : BreadthFirst next start done := by
  have heq : done = (start :: done.flatMap next).eraseDups := by simpa using h.found_eq
  refine ⟨fun a => ⟨fun ha => h.reached a (by simpa using ha), fun ha => ?_⟩, ?_, heq⟩
  · induction ha with
    | refl => rw [heq]; simp
    | tail _ hbc ih =>
      rw [heq]
      simp only [List.mem_eraseDups, List.mem_cons, List.mem_flatMap]
      exact .inr ⟨_, ih, hbc⟩
  · rw [heq]
    exact nodup_eraseDups _

theorem nodup (h : Frontier next start done pending) : (done ++ pending).Nodup := by
  rw [h.found_eq]
  exact nodup_eraseDups _

/-- A search within finitely many members has come to its end when it has expanded that many. -/
theorem pending_eq_nil {members : List α} (h : Frontier next start done pending)
    (hsub : ∀ a ∈ done ++ pending, a ∈ members) (hlen : members.length ≤ done.length) :
    pending = [] := by
  have hle : (done ++ pending).length ≤ members.length :=
    (h.nodup.subperm hsub).length_le
  rw [List.length_append] at hle
  exact List.length_eq_zero_iff.mp (by omega)

end Frontier

theorem BreadthFirst.head?_eq (h : BreadthFirst next start order) : order.head? = some start := by
  rw [h.order_eq, List.eraseDups_cons]
  rfl

omit [DecidableEq α] in
theorem reachable_swap {previous : α → List α} (h : ∀ a b, b ∈ next a ↔ a ∈ previous b) :
    Reachable next a b ↔ Reachable previous b a := by
  have hswap : Function.swap (fun a b => b ∈ next a) = fun a b => b ∈ previous a := by
    funext a b
    exact propext (h b a)
  rw [Reachable, Reachable, ← hswap, Relation.reflTransGen_swap]

end UnsafeAudit
