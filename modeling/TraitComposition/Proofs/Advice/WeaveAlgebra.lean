import TraitComposition.Advice
import TraitComposition.Proofs.Flattening.FirstOccurrence

/-!
The algebra of stacking. Weaves without repeated layers form a band under stacking, with
the empty weave as its identity, and a left regular one if only the Required Marker stands
for what is required. What a member carries is therefore decided by the order in which
weaves are first installed, and neither by how they are grouped nor by what is repeated.
-/
namespace TraitComposition

namespace Weave

/-- The weaves there are: the empty one, a single layer, the weave of a member value, and
what is stacked of those. A value carries a weave that was there when it was marked. -/
inductive Obtained : Weave → Prop
  | empty : Obtained {}
  | single (layer : LayerId) : Obtained (.single layer)
  | ofValue (store : Store) (value : Option Value)
      (marked : ∀ procedure weave, value = some (.procedure procedure) →
        (store.procedure procedure).mark = some (.weave weave) → Obtained weave) :
      Obtained (store.weaveOf value)
  | stack {weave incoming : Weave} (store : Store) (below : Obtained weave)
      (above : Obtained incoming) : Obtained (store.stackWeaves weave incoming)

private theorem Obtained.nodup {weave : Weave} (obtained : Obtained weave) :
    weave.layers.Nodup := by
  induction obtained with
  | empty => exact List.nodup_nil
  | single layer => exact List.pairwise_singleton _ layer
  | ofValue store value _ induction =>
      unfold Store.weaveOf
      split
      · split
        · rename_i found
          exact induction _ _ rfl found
        · exact List.nodup_nil
      · exact List.nodup_nil
  | stack store _ _ induction _ => exact nodup_stack _ _ induction

/-! ### Roots -/

section Roots

variable (isRequired : ProcedureId → Bool)

private theorem stackRoot_self (root : Option ProcedureId) :
    stackRoot isRequired root root = root := by
  cases root with
  | none => rfl
  | some current => simp [stackRoot]

private theorem stackRoot_assoc (first second third : Option ProcedureId) :
    stackRoot isRequired (stackRoot isRequired first second) third =
      stackRoot isRequired first (stackRoot isRequired second third) := by
  rcases first with _ | first
  · rfl
  rcases second with _ | second
  · rfl
  rcases third with _ | third
  · cases required : isRequired first <;> simp [stackRoot, required]
  · cases required : isRequired first <;> cases requiredToo : isRequired second <;>
      simp [stackRoot, required, requiredToo]

variable {isRequired}

theorem stackRoot_again {first second : Option ProcedureId}
    (unique : ∀ below above, first = some below → second = some above →
      isRequired below = true → isRequired above = true → below = above) :
    stackRoot isRequired (stackRoot isRequired first second) first =
      stackRoot isRequired first second := by
  rcases first with _ | below
  · cases second <;> rfl
  rcases second with _ | above
  · exact stackRoot_self isRequired (some below)
  cases required : isRequired below with
  | false => simp [stackRoot, required]
  | true =>
      cases requiredToo : isRequired above with
      | false => simp [stackRoot, required, requiredToo]
      | true => simp [stackRoot, unique below above rfl rfl required requiredToo]

end Roots

end Weave

/-! ### Weaves

A weave covers another one if it has all its layers and a root that stays below it. -/

namespace Store

open Weave (stackRoot_self stackRoot_assoc stackRoot_again)

def MarksRequired (store : Store) (weave : Weave) : Prop :=
  ∀ root, weave.root = some root → store.isRequired root = true → root = requiredMarker

def stackAll (store : Store) (start : Weave) (incoming : List Weave) : Weave :=
  incoming.foldl store.stackWeaves start

@[simp] theorem stackAll_cons (store : Store) (start next : Weave) (incoming : List Weave) :
    store.stackAll start (next :: incoming) =
      store.stackAll (store.stackWeaves start next) incoming := rfl

variable {store : Store} {first second third : Weave}

theorem stackWeaves_empty : store.stackWeaves first {} = first :=
  Weave.stack_empty _ first

theorem empty_stackWeaves (unique : first.layers.Nodup) :
    store.stackWeaves {} first = first := by
  have layers : FirstSeen.union [] first.layers = first.layers := FirstSeen.union_eq_append unique
  rw [stackWeaves, Weave.stack, layers]
  rfl

private theorem stackWeaves_assoc :
    store.stackWeaves (store.stackWeaves first second) third =
      store.stackWeaves first (store.stackWeaves second third) := by
  simp only [stackWeaves, Weave.stack, stackRoot_assoc, FirstSeen.union_union]

private theorem stackWeaves_self : store.stackWeaves first first = first := by
  rw [stackWeaves, Weave.stack, stackRoot_self, FirstSeen.union_eq_self fun _ => id]

private theorem stackWeaves_again (firstMarks : store.MarksRequired first)
    (secondMarks : store.MarksRequired second) :
    store.stackWeaves (store.stackWeaves first second) first =
      store.stackWeaves first second := by
  have layers : first.layers ⊆ FirstSeen.union first.layers second.layers := fun _ member =>
    FirstSeen.mem_union.mpr (.inl member)
  have root := stackRoot_again fun below above belowRoot aboveRoot required requiredToo =>
    (firstMarks below belowRoot required).trans (secondMarks above aboveRoot requiredToo).symm
  simp only [stackWeaves, Weave.stack, root, FirstSeen.union_eq_self layers]

structure Covers (store : Store) (weave incoming : Weave) : Prop where
  layers : incoming.layers ⊆ weave.layers
  root : incoming.root = weave.root ∨
    ∃ root, weave.root = some root ∧ store.isRequired root = false

theorem Covers.stackWeaves (covers : store.Covers first second) :
    store.stackWeaves first second = first := by
  have root : Weave.stackRoot store.isRequired first.root second.root = first.root := by
    rcases covers.root with same | ⟨root, grown, implemented⟩
    · rw [same, stackRoot_self]
    · rw [grown]
      cases second.root <;> simp [Weave.stackRoot, implemented]
  rw [Store.stackWeaves, Weave.stack, root, FirstSeen.union_eq_self covers.layers]

/-! ### Many installs -/

theorem layers_stackAll (start : Weave) (incoming : List Weave) :
    (store.stackAll start incoming).layers =
      FirstSeen.union start.layers (incoming.flatMap Weave.layers) := by
  induction incoming generalizing start with
  | nil => rfl
  | cons next incoming induction =>
      rw [stackAll_cons, induction, List.flatMap_cons, FirstSeen.union_append]
      rfl

/-- The layers of a stack are those of all its weaves in order, each once, if the first weave
repeats none. -/
theorem layers_stackAll_eq_eraseDups {start : Weave} (unique : start.layers.Nodup)
    (incoming : List Weave) :
    (store.stackAll start incoming).layers =
      ((start :: incoming).flatMap Weave.layers).eraseDups := by
  have first : FirstSeen.union [] start.layers = start.layers :=
    FirstSeen.union_eq_append unique
  calc
    _ = FirstSeen.union start.layers (incoming.flatMap Weave.layers) :=
      layers_stackAll start incoming
    _ = FirstSeen.union [] ((start :: incoming).flatMap Weave.layers) := by
      rw [List.flatMap_cons, FirstSeen.union_append, first]
    _ = _ := by
      rw [FirstSeen.union_eq_append_eraseDups, List.nil_append,
        List.filter_eq_self.mpr fun _ _ => decide_eq_true List.not_mem_nil]

/-- The root that weaves are stacked over: the first that is implemented or, if all are
placeholders, the last one. -/
def foundation (store : Store) (weaves : List Weave) : Option ProcedureId :=
  let roots := weaves.filterMap Weave.root
  (roots.find? (!store.isRequired ·)).or roots.getLast?

theorem root_stackAll (start : Weave) (incoming : List Weave) :
    (store.stackAll start incoming).root = store.foundation (start :: incoming) := by
  induction incoming generalizing start with
  | nil =>
      rcases start with ⟨_ | root, layers⟩
      · rfl
      · cases required : store.isRequired root <;> simp [stackAll, foundation, required]
  | cons next incoming induction =>
      rw [stackAll_cons, induction]
      rcases start with ⟨_ | below, layers⟩ <;> rcases next with ⟨_ | above, more⟩
      · simp [foundation, stackWeaves, Weave.stack, Weave.stackRoot]
      · simp [foundation, stackWeaves, Weave.stack, Weave.stackRoot]
      · simp [foundation, stackWeaves, Weave.stack, Weave.stackRoot]
      · cases required : store.isRequired below <;>
          simp [foundation, stackWeaves, Weave.stack, Weave.stackRoot, required]

private theorem stackWeaves_stackAll (start : Weave) (incoming : List Weave) :
    store.stackWeaves start (store.stackAll first incoming) =
      store.stackAll (store.stackWeaves start first) incoming := by
  induction incoming generalizing first with
  | nil => rfl
  | cons next incoming induction =>
      rw [stackAll_cons, stackAll_cons, induction, stackWeaves_assoc]

theorem stackAll_groups (start : Weave) (groups : List (List Weave)) :
    store.stackAll start (groups.map (store.stackAll {})) =
      store.stackAll start groups.flatten := by
  induction groups generalizing start with
  | nil => rfl
  | cons group groups induction =>
      have joined : store.stackWeaves start (store.stackAll {} group) =
          store.stackAll start group := by
        rw [stackWeaves_stackAll, stackWeaves_empty]
      rw [List.map_cons, stackAll_cons, joined, induction, List.flatten_cons]
      exact List.foldl_append.symm

theorem stackAll_absorbs {incoming : List Weave} (absorbed : store.stackWeaves first second = first)
    (secondMarks : store.MarksRequired second)
    (marks : ∀ other ∈ incoming, store.MarksRequired other) :
    store.stackWeaves (store.stackAll first incoming) second = store.stackAll first incoming := by
  induction incoming generalizing first with
  | nil => exact absorbed
  | cons next incoming induction =>
      rw [List.forall_mem_cons] at marks
      refine induction ?_ marks.2
      calc
        store.stackWeaves (store.stackWeaves first next) second =
            store.stackWeaves first (store.stackWeaves (store.stackWeaves second next) second) := by
          rw [← stackWeaves_assoc, ← stackWeaves_assoc, absorbed]
        _ = store.stackWeaves first (store.stackWeaves second next) := by
          rw [stackWeaves_again secondMarks marks.1]
        _ = store.stackWeaves first next := by
          rw [← stackWeaves_assoc, absorbed]

theorem stackAll_again {start weave : Weave} {incoming : List Weave}
    (member : weave ∈ start :: incoming) (weaveMarks : store.MarksRequired weave)
    (marks : ∀ other ∈ incoming, store.MarksRequired other) :
    store.stackWeaves (store.stackAll start incoming) weave = store.stackAll start incoming := by
  induction incoming generalizing start with
  | nil =>
      obtain rfl := List.mem_singleton.mp member
      exact stackWeaves_self
  | cons next incoming induction =>
      have rest := (List.forall_mem_cons.mp marks).2
      rcases List.mem_cons.mp member with rfl | member
      · exact stackAll_absorbs stackWeaves_self weaveMarks marks
      rcases List.mem_cons.mp member with rfl | member
      · have absorbed : store.stackWeaves (store.stackWeaves start weave) weave =
            store.stackWeaves start weave := by
          rw [stackWeaves_assoc, stackWeaves_self]
        rw [stackAll_cons]
        exact stackAll_absorbs absorbed weaveMarks rest
      · exact induction (List.mem_cons_of_mem _ member) rest

/-- Stacking weaves without repeated layers is a band with the empty weave as identity,
left regular over the Required Marker; so grouping installs makes no difference, and
neither does repeating one. -/
theorem stackWeaves_leftRegularBand (store : Store) {first : Weave}
    (unique : first.layers.Nodup) (second third : Weave) :
    (∀ weave, Weave.Obtained weave → weave.layers.Nodup) ∧
    (store.stackWeaves first second).layers.Nodup ∧
    store.stackWeaves {} first = first ∧
    store.stackWeaves first {} = first ∧
    store.stackWeaves (store.stackWeaves first second) third =
      store.stackWeaves first (store.stackWeaves second third) ∧
    store.stackWeaves first first = first ∧
    (store.MarksRequired first → store.MarksRequired second →
      store.stackWeaves (store.stackWeaves first second) first =
        store.stackWeaves first second) ∧
    (∀ groups : List (List Weave),
      store.stackAll first (groups.map (store.stackAll {})) =
        store.stackAll first groups.flatten) ∧
    (∀ incoming : List Weave, (∀ other ∈ first :: incoming, store.MarksRequired other) →
      ∀ weave ∈ first :: incoming,
        store.stackWeaves (store.stackAll first incoming) weave =
          store.stackAll first incoming) := by
  refine ⟨fun weave obtained => obtained.nodup, Weave.nodup_stack _ second unique,
    empty_stackWeaves unique, stackWeaves_empty, stackWeaves_assoc, stackWeaves_self,
    stackWeaves_again, stackAll_groups first, fun incoming marks weave member => ?_⟩
  exact stackAll_again member (marks weave member) fun other inside =>
    marks other (List.mem_cons_of_mem _ inside)

/-- Advice over the Required Marker meets advice over a procedure, and is met again. -/
theorem stackWeaves_leftRegularBand_of_required :
    let store := (initial.addProcedure { body := .code ⟨0⟩ }).2
    let required : Weave := ⟨some requiredMarker, [⟨0⟩, ⟨1⟩]⟩
    let implemented : Weave := ⟨some ⟨1⟩, [⟨2⟩, ⟨0⟩]⟩
    store.stackWeaves {} required = required ∧
      store.stackWeaves (store.stackWeaves required implemented) required =
        ⟨some ⟨1⟩, [⟨0⟩, ⟨1⟩, ⟨2⟩]⟩ := by
  intro store required implemented
  have unique : required.layers.Nodup := by decide
  have requiredMarks : store.MarksRequired required := fun root equal _ =>
    (Option.some.inj equal).symm
  have implementedMarks : store.MarksRequired implemented := by
    intro root equal placeholder
    obtain rfl : (⟨1⟩ : ProcedureId) = root := Option.some.inj equal
    cases placeholder
  rcases stackWeaves_leftRegularBand store unique implemented {} with
    ⟨_, _, identity, _, _, _, again, _⟩
  exact ⟨identity, (again requiredMarks implementedMarks).trans (by decide)⟩

end Store

end TraitComposition
