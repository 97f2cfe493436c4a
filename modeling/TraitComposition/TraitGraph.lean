import Std.Data.TreeSet

/-!
Graphs of traits, each listing its parents. The ancestry of a trait is everything
that can be reached by following parents.
-/
namespace TraitComposition

structure TraitGraph where
  parents : Array (List Nat)

namespace TraitGraph

def size (graph : TraitGraph) : Nat :=
  graph.parents.size

def isEmpty (graph : TraitGraph) : Bool :=
  graph.parents.isEmpty

def parentsOf (graph : TraitGraph) (node : Nat) : List Nat :=
  graph.parents.getD node []

def unseen (graph : TraitGraph) (seen : Std.TreeSet Nat) : List Nat :=
  (List.range graph.size).filter (· ∉ seen)

theorem length_unseen_insert_lt (graph : TraitGraph) {seen : Std.TreeSet Nat} {node : Nat}
    (inside : node < graph.size) (fresh : node ∉ seen) :
    (graph.unseen (seen.insert node)).length < (graph.unseen seen).length := by
  have narrowed : graph.unseen (seen.insert node) = (graph.unseen seen).filter (· ≠ node) := by
    rw [unseen, unseen, List.filter_filter]
    congr 1
    funext other
    grind
  rw [narrowed, List.length_filter_lt_length_iff_exists]
  exact ⟨node, by simp [unseen, inside, fresh], by simp⟩

/-- Visits the nodes of a worklist and everything that can be reached from them;
`seen` are the nodes visited before. -/
def visit (graph : TraitGraph) (seen : Std.TreeSet Nat) : List Nat → Std.TreeSet Nat
  | [] => seen
  | node :: waiting =>
      if node < graph.size ∧ node ∉ seen then
        visit graph (seen.insert node) (graph.parentsOf node ++ waiting)
      else
        visit graph seen waiting
termination_by worklist => ((graph.unseen seen).length, worklist.length)
decreasing_by
  · rename_i fresh
    exact Prod.Lex.left _ _ (length_unseen_insert_lt graph fresh.1 fresh.2)
  · exact Prod.Lex.right _ (Nat.lt_succ_self _)

/-- Every node that can be reached from a node, itself included, in increasing
order. -/
def ancestry (graph : TraitGraph) (node : Nat) : List Nat :=
  let reached := graph.visit {} [node]
  (List.range graph.size).filter (· ∈ reached)

end TraitGraph

end TraitComposition
