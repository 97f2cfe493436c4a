import Mathlib.Data.List.Induction
import Mathlib.Logic.Relation
import TraitComposition.Proofs.Flattening.FirstOccurrence
import TraitComposition.TraitGraph

/-!
Orders of the nodes of a trait graph in which every node comes after its parents. Such
an order holds a node together with all its ancestors, and none of them after it. Two
orders may be united, and a node may be put at the end of an order with its parents.
-/
namespace TraitComposition.TraitGraph

def Reaches (graph : TraitGraph) : (node ancestor : Nat) → Prop :=
  Relation.ReflTransGen fun node parent => parent ∈ graph.parentsOf node

structure AncestorsFirst (graph : TraitGraph) (order : List Nat) : Prop where
  nodup : order.Nodup
  preceded : ∀ inner node outer, order = inner ++ node :: outer →
    ∀ parent ∈ graph.parentsOf node, parent ∈ inner

variable {graph : TraitGraph}

theorem parentsOf_of_size_le {node : Nat} (outside : graph.size ≤ node) :
    graph.parentsOf node = [] := by
  simp [parentsOf, Array.getD_eq_getD_getElem?, Array.getElem?_eq_none outside]

theorem Reaches.refl (node : Nat) : graph.Reaches node node :=
  Relation.ReflTransGen.refl

theorem reaches_iff {node ancestor : Nat} :
    graph.Reaches node ancestor ↔
      ancestor = node ∨ ∃ parent ∈ graph.parentsOf node, graph.Reaches parent ancestor := by
  rw [Reaches, Relation.ReflTransGen.cases_head_iff]
  simp only [eq_comm]

/-! ### Ordered graphs

Every node of an ordered graph lists earlier nodes as its parents. -/

def Ordered (graph : TraitGraph) : Prop :=
  ∀ node, ∀ parent ∈ graph.parentsOf node, parent < node

private theorem ordered_iff :
    graph.Ordered ↔ ∀ node < graph.size, ∀ parent ∈ graph.parentsOf node, parent < node := by
  constructor
  · exact fun ordered node _ => ordered node
  · intro inside node parent edge
    by_cases known : node < graph.size
    · exact inside node known parent edge
    · rw [parentsOf_of_size_le (Nat.le_of_not_lt known)] at edge
      cases edge

instance (graph : TraitGraph) : Decidable graph.Ordered :=
  decidable_of_iff' _ ordered_iff

private theorem Ordered.le_of_reaches (ordered : graph.Ordered) {node ancestor : Nat}
    (reach : graph.Reaches node ancestor) : ancestor ≤ node := by
  induction reach with
  | refl => exact Nat.le_refl _
  | tail _ edge induction => exact Nat.le_trans (Nat.le_of_lt (ordered _ _ edge)) induction

/-! ### Orders -/

namespace AncestorsFirst

variable {order first second : List Nat}

theorem nil : graph.AncestorsFirst [] where
  nodup := List.nodup_nil
  preceded inner node outer equal := by simp at equal

private theorem of_append (ancestorsFirst : graph.AncestorsFirst (first ++ second)) :
    graph.AncestorsFirst first where
  nodup := (List.nodup_append.mp ancestorsFirst.nodup).1
  preceded inner node outer equal :=
    ancestorsFirst.preceded inner node (outer ++ second) (by simp [equal])

theorem precedes_of_reaches (ancestorsFirst : graph.AncestorsFirst order)
    {node ancestor : Nat} (reach : graph.Reaches node ancestor) :
    ∀ inner outer, order = inner ++ node :: outer → ancestor = node ∨ ancestor ∈ inner := by
  induction reach using Relation.ReflTransGen.head_induction_on with
  | refl => exact fun _ _ _ => .inl rfl
  | @head node parent edge _ induction =>
      intro inner outer equal
      rcases List.append_of_mem (ancestorsFirst.preceded inner node outer equal parent edge) with
        ⟨farther, nearer, split⟩
      have whole : order = farther ++ parent :: (nearer ++ node :: outer) := by
        rw [equal, split, List.append_assoc, List.cons_append]
      rcases induction farther _ whole with rfl | member
      · exact .inr (split ▸ by simp)
      · exact .inr (split ▸ by simp [member])

private theorem not_reaches_last {node last : Nat}
    (ancestorsFirst : graph.AncestorsFirst (order ++ [last])) (member : node ∈ order) :
    ¬graph.Reaches node last := by
  intro reach
  rcases List.append_of_mem member with ⟨inner, outer, split⟩
  have whole : order ++ [last] = inner ++ node :: (outer ++ [last]) := by
    rw [split, List.append_assoc, List.cons_append]
  have early : last ∈ order := by
    rcases ancestorsFirst.precedes_of_reaches reach _ _ whole with rfl | earlier
    · exact member
    · rw [split]
      exact List.mem_append_left _ earlier
  exact (List.nodup_append.mp ancestorsFirst.nodup).2.2 last early last (by simp) rfl

theorem pairwise (ancestorsFirst : graph.AncestorsFirst order) :
    order.Pairwise fun inner outer => ¬graph.Reaches inner outer := by
  induction order using List.reverseRecOn with
  | nil => exact List.Pairwise.nil
  | append_singleton order last induction =>
      rw [List.pairwise_append]
      refine ⟨induction ancestorsFirst.of_append, List.pairwise_singleton _ _, ?_⟩
      intro node member other equal
      rw [List.mem_singleton.mp equal]
      exact ancestorsFirst.not_reaches_last member

theorem append_singleton (ancestorsFirst : graph.AncestorsFirst order) {node : Nat}
    (fresh : node ∉ order) (parents : ∀ parent ∈ graph.parentsOf node, parent ∈ order) :
    graph.AncestorsFirst (order ++ [node]) where
  nodup := by
    have appended : FirstSeen.insert order node = order ++ [node] := if_neg fresh
    rw [← appended]
    exact FirstSeen.nodup_insert ancestorsFirst.nodup
  preceded inner other outer equal parent edge := by
    rcases List.eq_nil_or_concat outer with rfl | ⟨outer, last, rfl⟩
    · rcases List.append_inj' equal rfl with ⟨rfl, last⟩
      cases last
      exact parents parent edge
    · have shorter : order ++ [node] = (inner ++ other :: outer) ++ [last] := by
        rw [equal, List.concat_eq_append, List.append_assoc, List.cons_append]
      exact ancestorsFirst.preceded inner other outer (List.append_inj' shorter rfl).1 parent edge

theorem union (ancestorsFirst : graph.AncestorsFirst first)
    (ancestorsFirstToo : graph.AncestorsFirst second) :
    graph.AncestorsFirst (FirstSeen.union first second) := by
  induction second using List.reverseRecOn with
  | nil => exact ancestorsFirst
  | append_singleton second node induction =>
      have united := induction ancestorsFirstToo.of_append
      rw [FirstSeen.union_append, FirstSeen.union_cons, FirstSeen.union_nil, FirstSeen.insert]
      split
      · exact united
      · next fresh =>
        refine united.append_singleton fresh fun parent edge => FirstSeen.mem_union.mpr (.inr ?_)
        exact ancestorsFirstToo.preceded second node [] rfl parent edge

/-- An order of everything that the parents of a node reach is completed by the node. -/
theorem complete (ordered : graph.Ordered) (ancestorsFirst : graph.AncestorsFirst order)
    {node : Nat} (reached : ∀ other, other ∈ order ↔
      ∃ parent ∈ graph.parentsOf node, graph.Reaches parent other) :
    graph.AncestorsFirst (FirstSeen.insert order node) ∧
      ∀ other, other ∈ FirstSeen.insert order node ↔ graph.Reaches node other := by
  have fresh : node ∉ order := by
    intro member
    rcases (reached node).mp member with ⟨parent, edge, reach⟩
    exact absurd (ordered.le_of_reaches reach) (Nat.not_le.mpr (ordered node parent edge))
  constructor
  · rw [FirstSeen.insert, if_neg fresh]
    exact ancestorsFirst.append_singleton fresh fun parent edge =>
      (reached parent).mpr ⟨parent, edge, .refl parent⟩
  · intro other
    rw [FirstSeen.mem_insert, reached, reaches_iff, or_comm]

end AncestorsFirst

end TraitComposition.TraitGraph
