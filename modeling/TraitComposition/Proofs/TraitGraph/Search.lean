import Mathlib.Data.Multiset.AddSub
import TraitComposition.Proofs.TraitGraph.AncestorsFirst

/-!
Searching a trait graph. A search keeps the nodes that it has seen and the nodes that wait, some
of them perhaps several times and in no particular order; it takes one of these, whichever one,
and if it has not seen it yet, has its parents wait as well. In a graph whose parents are nodes of
it every search ends, comes across nodes of the graph only, and has then seen what can be reached
from where it started. So the ancestry of a node is what it reaches.
-/
namespace TraitComposition.TraitGraph

/-! ### Closed graphs

A graph is closed if everything that is listed as a parent is a node of it. -/

def Closed (graph : TraitGraph) : Prop :=
  ∀ node, ∀ parent ∈ graph.parentsOf node, parent < graph.size

private theorem closed_iff {graph : TraitGraph} :
    graph.Closed ↔ ∀ node < graph.size, ∀ parent ∈ graph.parentsOf node, parent < graph.size := by
  constructor
  · exact fun closed node _ => closed node
  · intro inside node parent edge
    by_cases known : node < graph.size
    · exact inside node known parent edge
    · rw [parentsOf_of_size_le (Nat.le_of_not_lt known)] at edge
      cases edge

instance (graph : TraitGraph) : Decidable graph.Closed :=
  decidable_of_iff' _ closed_iff

private theorem Closed.lt_of_reaches {graph : TraitGraph} (closed : graph.Closed)
    {node ancestor : Nat}
    (known : node < graph.size) (reach : graph.Reaches node ancestor) : ancestor < graph.size := by
  cases reach with
  | refl => exact known
  | tail _ edge => exact closed _ _ edge

/-! ### Searches

A search begins with nothing seen and one node waiting, and goes on by taking some waiting node,
whichever it is. -/

structure Search where
  seen : Std.TreeSet Nat := {}
  waiting : Multiset Nat

namespace Search

def start (node : Nat) : Search where
  waiting := {node}

/-- Whether a search goes on by taking a waiting node. One that is not in the graph has no parents
to be looked up, and cannot be taken. -/
inductive Takes (graph : TraitGraph) (node : Nat) : Search → Search → Prop
  | drop {seen : Std.TreeSet Nat} {waiting : Multiset Nat} (known : node ∈ seen) :
      Takes graph node ⟨seen, node ::ₘ waiting⟩ ⟨seen, waiting⟩
  | look {seen : Std.TreeSet Nat} {waiting : Multiset Nat} (inside : node < graph.size)
      (new : node ∉ seen) :
      Takes graph node ⟨seen, node ::ₘ waiting⟩
        ⟨seen.insert node, (graph.parentsOf node : Multiset Nat) + waiting⟩

def Steps (graph : TraitGraph) (search later : Search) : Prop :=
  ∃ node, Takes graph node search later

def Comes (graph : TraitGraph) : Search → Search → Prop :=
  Relation.ReflTransGen (Steps graph)

variable {graph : TraitGraph} {search later : Search} {node : Nat}

/-! ### Every search ends

Taking a node that was not seen leaves fewer such nodes, and may have many more wait. Taking any
other leaves fewer that wait. -/

private theorem steps_shortens (steps : Steps graph search later) :
    Prod.Lex (· < ·) (· < ·) ((graph.unseen later.seen).length, later.waiting.card)
      ((graph.unseen search.seen).length, search.waiting.card) := by
  rcases steps with ⟨node, taken⟩
  cases taken with
  | drop known =>
      rw [Multiset.card_cons]
      exact .right _ (Nat.lt_succ_self _)
  | look inside new => exact .left _ _ (length_unseen_insert_lt graph inside new)

private theorem wellFounded_steps (graph : TraitGraph) :
    WellFounded fun later search => Steps graph search later :=
  Subrelation.wf (fun steps => steps_shortens steps)
    (InvImage.wf (fun search : Search => ((graph.unseen search.seen).length, search.waiting.card))
      (Prod.lex Nat.lt_wfRel Nat.lt_wfRel).wf)

/-! ### What a search has seen -/

def Met (search : Search) (node : Nat) : Prop :=
  node ∈ search.seen ∨ node ∈ search.waiting

structure From (graph : TraitGraph) (node : Nat) (search : Search) : Prop where
  started : search.Met node
  reached : ∀ other, search.Met other → graph.Reaches node other
  followed : ∀ other ∈ search.seen, ∀ parent ∈ graph.parentsOf other, search.Met parent

namespace From

private theorem of_start (graph : TraitGraph) (node : Nat) : From graph node (start node) where
  started := .inr (Multiset.mem_singleton_self node)
  reached other met := by
    rcases met with seen | waits
    · exact absurd seen Std.TreeSet.not_mem_emptyc
    · rw [Multiset.mem_singleton.mp waits]
      exact .refl node
  followed other seen := absurd seen Std.TreeSet.not_mem_emptyc

theorem met_of_takes {taken : Nat} (takes : Takes graph taken search later) {other : Nat}
    (met : search.Met other) : later.Met other := by
  cases takes with
  | drop known =>
      rcases met with seen | waits
      · exact .inl seen
      · rcases Multiset.mem_cons.mp waits with rfl | waits
        · exact .inl known
        · exact .inr waits
  | look inside new =>
      rcases met with seen | waits
      · exact .inl (Std.TreeSet.mem_insert.mpr (.inr seen))
      · rcases Multiset.mem_cons.mp waits with rfl | waits
        · exact .inl Std.TreeSet.mem_insert_self
        · exact .inr (Multiset.mem_add.mpr (.inr waits))

private theorem takes (from_ : From graph node search) {taken : Nat}
    (takes : Takes graph taken search later) : From graph node later where
  started := met_of_takes takes from_.started
  reached other met := by
    cases takes with
    | drop known => exact from_.reached other (met.imp_right Multiset.mem_cons_of_mem)
    | look inside new =>
        have reachesTaken := from_.reached taken (.inr (Multiset.mem_cons_self ..))
        rcases met with seen | waits
        · rcases Std.TreeSet.mem_insert.mp seen with equal | seen
          · rwa [Std.LawfulEqOrd.compare_eq_iff_eq.mp equal] at reachesTaken
          · exact from_.reached other (.inl seen)
        · rcases Multiset.mem_add.mp waits with parent | waits
          · exact .tail reachesTaken parent
          · exact from_.reached other (.inr (Multiset.mem_cons_of_mem waits))
  followed other seen parent edge := by
    have followed (seen : other ∈ search.seen) : later.Met parent :=
      met_of_takes takes (from_.followed other seen parent edge)
    cases takes with
    | drop known => exact followed seen
    | look inside new =>
        rcases Std.TreeSet.mem_insert.mp seen with equal | seen
        · rw [← Std.LawfulEqOrd.compare_eq_iff_eq.mp equal] at edge
          exact .inr (Multiset.mem_add.mpr (.inl edge))
        · exact followed seen

private theorem comes (from_ : From graph node search) (comes : Comes graph search later) :
    From graph node later := by
  induction comes with
  | refl => exact from_
  | tail _ steps induction =>
      rcases steps with ⟨_, takes⟩
      exact induction.takes takes

theorem exists_takes (from_ : From graph node search) (closed : graph.Closed)
    (known : node < graph.size) {taken : Nat} (waits : taken ∈ search.waiting) :
    taken < graph.size ∧ ∃ later, Takes graph taken search later := by
  have inside := closed.lt_of_reaches known (from_.reached taken (.inr waits))
  refine ⟨inside, ?_⟩
  rcases search with ⟨seen, waiting⟩
  rcases Multiset.exists_cons_of_mem waits with ⟨rest, rfl⟩
  by_cases known : taken ∈ seen
  · exact ⟨_, .drop known⟩
  · exact ⟨_, .look inside known⟩

theorem mem_seen_iff (from_ : From graph node search) (ended : search.waiting = 0) {other : Nat} :
    other ∈ search.seen ↔ graph.Reaches node other := by
  have seen_of_met {other : Nat} (met : search.Met other) : other ∈ search.seen := by
    rcases met with seen | waits
    · exact seen
    · rw [ended] at waits
      exact absurd waits (Multiset.notMem_zero other)
  refine ⟨fun seen => from_.reached other (.inl seen), fun reach => ?_⟩
  induction reach with
  | refl => exact seen_of_met from_.started
  | tail _ edge induction => exact seen_of_met (from_.followed _ induction _ edge)

end From

end Search

/-! ### Ancestries -/

variable {graph : TraitGraph}

open Search (Comes Takes start)

theorem comes_visit (closed : graph.Closed) (seen : Std.TreeSet Nat) (waiting : List Nat)
    (inside : ∀ node ∈ waiting, node < graph.size) :
    Comes graph ⟨seen, (waiting : Multiset Nat)⟩ ⟨graph.visit seen waiting, 0⟩ := by
  fun_induction visit graph seen waiting with
  | case1 seen => exact .refl
  | case2 seen node waiting fresh induction =>
      rw [← Multiset.cons_coe]
      refine .head ⟨node, .look fresh.1 fresh.2⟩ (induction fun other member => ?_)
      rcases List.mem_append.mp member with parent | waits
      · exact closed node other parent
      · exact inside other (List.mem_cons_of_mem node waits)
  | case3 seen node waiting stale induction =>
      have known : node ∈ seen :=
        Classical.not_not.mp fun new => stale ⟨inside node List.mem_cons_self, new⟩
      rw [← Multiset.cons_coe]
      exact .head ⟨node, .drop known⟩ (induction fun other member =>
        inside other (List.mem_cons_of_mem node member))

/-- In a graph whose parents are nodes of it, whatever its cycles, a search from a node ends,
whichever of the waiting nodes it takes each time, and any of them is one that it can take: it is
a node of the graph. Visiting is such a search. Whenever one ends, it has seen the ancestry of the
node, which lists in increasing order what the node reaches. -/
theorem ancestry_eq_reachable (closed : graph.Closed) {node : Nat} (known : node < graph.size) :
    Acc (fun later search => Search.Steps graph search later) (start node) ∧
    (∀ search, Comes graph (start node) search → ∀ taken ∈ search.waiting,
      taken < graph.size ∧ ∃ later, Takes graph taken search later) ∧
    Comes graph (start node) ⟨graph.visit {} [node], 0⟩ ∧
    (∀ search, Comes graph (start node) search → search.waiting = 0 →
      graph.ancestry node = (List.range graph.size).filter (· ∈ search.seen)) ∧
    (graph.ancestry node).Pairwise (· < ·) ∧
    ∀ other, other ∈ graph.ancestry node ↔ graph.Reaches node other := by
  have along {search : Search} (comes : Comes graph (start node) search) :=
    (Search.From.of_start graph node).comes comes
  have visited : Comes graph (start node) ⟨graph.visit {} [node], 0⟩ :=
    comes_visit closed {} [node] fun other member => List.mem_singleton.mp member ▸ known
  have seenByVisit (other : Nat) : other ∈ graph.visit {} [node] ↔ graph.Reaches node other :=
    (along visited).mem_seen_iff rfl
  refine ⟨(Search.wellFounded_steps graph).apply _, fun search comes taken waits =>
      (along comes).exists_takes closed known waits, visited, fun search comes ended => ?_,
    List.pairwise_lt_range.filter _, fun other => ?_⟩
  · apply List.filter_congr
    intro other _
    rw [decide_eq_decide, seenByVisit, (along comes).mem_seen_iff ended]
  · rw [ancestry, List.mem_filter, List.mem_range, decide_eq_true_iff, seenByVisit]
    exact ⟨And.right, fun reach => ⟨closed.lt_of_reaches known reach, reach⟩⟩

/-- Two nodes that are each other's parents, one of them its own as well and listed twice, one
that builds on them, and one apart. -/
def entangled : TraitGraph :=
  ⟨#[[1, 0, 1], [0], [1, 1], []]⟩

theorem ancestry_of_entangled :
    entangled.Closed ∧ 2 < entangled.size ∧ entangled.ancestry 2 = [0, 1, 2] ∧
      entangled.Reaches 2 0 ∧ ¬entangled.Reaches 2 3 := by
  have closed : entangled.Closed := by decide
  have listed : entangled.ancestry 2 = [0, 1, 2] := by cbv
  rcases ancestry_eq_reachable closed (show 2 < entangled.size by decide)
    with ⟨_, _, _, _, _, reached⟩
  rw [listed] at reached
  exact ⟨closed, by decide, listed, (reached 0).mp (by decide), fun reach =>
    absurd ((reached 3).mpr reach) (by decide)⟩

end TraitComposition.TraitGraph
