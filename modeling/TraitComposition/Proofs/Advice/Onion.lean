import TraitComposition.Proofs.Machine.Evolution
import TraitComposition.Proofs.Store.Assignment
import TraitComposition.Proofs.Store.Focus

/-!
Advice that runs afterwards, woven in layers. Each layer makes a procedure around the one
before it, so a woven procedure is an onion with the root at its core. Calling it runs
the root and then every piece of advice, from the inside out.
-/
namespace TraitComposition

/-! ### More procedures -/

namespace Store

def withProcedures (store : Store) (more : Array Procedure) : Store :=
  { store with procedures := store.procedures ++ more }

theorem addProcedure_eq_withProcedures (store : Store) (procedure : Procedure) :
    (store.addProcedure procedure).2 = store.withProcedures #[procedure] := by
  simp [addProcedure, withProcedures]

theorem withProcedures_withProcedures (store : Store) (more others : Array Procedure) :
    (store.withProcedures more).withProcedures others = store.withProcedures (more ++ others) := by
  simp [withProcedures]

theorem withProcedures_empty (store : Store) : store.withProcedures #[] = store := by
  simp [withProcedures]

private theorem procedure_withProcedures_of_hasProcedure {store : Store} {reference : ProcedureId}
    (more : Array Procedure) (known : store.hasProcedure reference = true) :
    (store.withProcedures more).procedure reference = store.procedure reference := by
  simp [withProcedures, Store.procedure, Array.getD_eq_getD_getElem?,
    Array.getElem?_append_left (hasProcedure_iff.mp known)]

theorem extends_withProcedures (store : Store) (more : Array Procedure) :
    store.Extends (store.withProcedures more) :=
  { Extends.refl store with
    procedure := fun reference known => by
      rw [procedure_withProcedures_of_hasProcedure more known]
      refine ⟨?_, _, rfl, fun _ found => found⟩
      rw [hasProcedure_iff] at known ⊢
      simp only [withProcedures, Array.size_append]
      omega }

theorem Fills.of_withProcedures (store : Store) (more : Array Procedure) (target : ObjectId) :
    Fills target store (store.withProcedures more) where
  toChangesOnly := .of_objects_eq (store.extends_withProcedures more) rfl
    (fun _ _ found => (store.extends_withProcedures more).composite?_of_composites_eq rfl found)
    target
  layers := rfl
  procedures _ known := procedure_withProcedures_of_hasProcedure more known

/-! ### Weaves and layers -/

theorem weaveOf_of_mark {store : Store} {method : ProcedureId} {weave : Weave}
    (marked : (store.procedure method).mark = some (.weave weave)) :
    store.weaveOf (some (.procedure method)) = weave := by
  rw [weaveOf, marked]

theorem Extends.weaveOf {before after : Store} (extends_ : before.Extends after)
    {method : ProcedureId} (known : before.hasProcedure method = true) :
    after.weaveOf (some (.procedure method)) = before.weaveOf (some (.procedure method)) := by
  rw [Store.weaveOf, Store.weaveOf, extends_.mark known]

def adviceAfter? (store : Store) (layer : LayerId) : Option ProcedureId :=
  match (store.layer layer).map Layer.advice with
  | some (.after advice) => some advice
  | _ => none

theorem Extends.adviceAfter? {before after : Store} (extends_ : before.Extends after)
    {layer : LayerId} {advice : ProcedureId} (found : before.adviceAfter? layer = some advice) :
    after.adviceAfter? layer = some advice := by
  unfold Store.adviceAfter? at found ⊢
  cases known : before.layer layer with
  | none => simp [known] at found
  | some made =>
      rcases extends_.layer layer made known with ⟨standalone, kept⟩
      rw [kept]
      rw [known] at found
      exact found

inductive Onion (store : Store) (root : ProcedureId) : List ProcedureId → ProcedureId → Prop
  | bare : Onion store root [] root
  | wrap {advices : List ProcedureId} {advice base woven : ProcedureId}
      (inner : Onion store root advices base)
      (body : (store.procedure woven).body = .after advice base) :
      Onion store root (advices ++ [advice]) woven

theorem Onion.extends {before after : Store} (extends_ : before.Extends after)
    {root woven : ProcedureId} {advices : List ProcedureId}
    (onion : before.Onion root advices woven) : after.Onion root advices woven := by
  induction onion with
  | bare => exact .bare
  | wrap inner body induction =>
      exact .wrap induction (extends_.body_eq_of_ne body nofun)

theorem Onion.of_body_eq {before after : Store} (extends_ : before.Extends after)
    {root woven other : ProcedureId} {advices : List ProcedureId}
    (onion : before.Onion root advices woven) (layered : advices ≠ [])
    (same : (after.procedure other).body = (before.procedure woven).body) :
    after.Onion root advices other := by
  cases onion with
  | bare => exact absurd rfl layered
  | wrap inner body => exact .wrap (inner.extends extends_) (same.trans body)

theorem Onion.isRequired_eq_false {store : Store} {root woven : ProcedureId}
    {advices : List ProcedureId} (onion : store.Onion root advices woven)
    (layered : advices ≠ []) : store.isRequired woven = false := by
  cases onion with
  | bare => exact absurd rfl layered
  | wrap inner body => rw [isRequired, body]

end Store

variable {σ : Type}

/-! ### Weaving -/

section Weaving

variable (meaning : Meaning σ)

variable {node : Type} {layerOf : node → LayerId} {adviceOf : node → ProcedureId}

namespace Layer

def wrapper (advice base : ProcedureId) : Procedure :=
  { label := some "after", body := .after advice base }

private theorem run_weave {world : World σ} {layer : LayerId} {advice : ProcedureId}
    (after : world.store.adviceAfter? layer = some advice) (base : ProcedureId) :
    (weave meaning layer (some base)).run world =
      (.ok ⟨world.store.procedures.size⟩,
        { world with store := world.store.withProcedures #[wrapper advice base] }) := by
  unfold Store.adviceAfter? at after
  split at after
  · next found =>
    cases after
    rw [weave, Action.run_getStore_bind, found, ← Store.addProcedure_eq_withProcedures]
    rfl
  · cases after

theorem run_weaveAll {root : ProcedureId} :
    ∀ (nodes : List node) (world : World σ) {base : ProcedureId} {inner : List ProcedureId},
      (∀ node ∈ nodes, world.store.adviceAfter? (layerOf node) = some (adviceOf node)) →
      world.store.Onion root inner base →
      ∃ woven more,
        (weaveAll meaning (nodes.map layerOf) (some base)).run world =
          (.ok (some woven), { world with store := world.store.withProcedures more }) ∧
        (world.store.withProcedures more).Onion root (inner ++ nodes.map adviceOf) woven
  | [], world, base, inner, _, onion => by
      refine ⟨base, #[], ?_, ?_⟩
      · rw [Store.withProcedures_empty]
        rfl
      · rw [Store.withProcedures_empty, List.map_nil, List.append_nil]
        exact onion
  | first :: nodes, world, base, inner, after, onion => by
      have woven := run_weave meaning (after first (List.mem_cons_self ..)) base
      have extends_ := Store.extends_withProcedures world.store #[wrapper (adviceOf first) base]
      have wrapped : (world.store.withProcedures #[wrapper (adviceOf first) base]).Onion root
          (inner ++ [adviceOf first]) ⟨world.store.procedures.size⟩ :=
        .wrap (onion.extends extends_) (by simp [Store.withProcedures, Store.procedure, wrapper])
      rcases run_weaveAll nodes
        { world with store := world.store.withProcedures #[wrapper (adviceOf first) base] }
        (fun node member => extends_.adviceAfter? (after node (List.mem_cons_of_mem _ member)))
        wrapped with ⟨outer, more, ran, whole⟩
      rw [Store.withProcedures_withProcedures] at ran whole
      refine ⟨outer, #[wrapper (adviceOf first) base] ++ more, ?_, ?_⟩
      · rw [List.map_cons, weaveAll, Action.run_bind_of_ok _ woven]
        exact ran
      · rw [List.map_cons]
        simpa using whole

end Layer

namespace Weave

def finish (weave : Weave) (woven : Procedure) : Array Procedure :=
  let marked := { woven with mark := some (.weave weave), table := none }
  #[marked, { marked with hook := some (.weave weave) }]

theorem run_finish (weave : Weave) (woven : ProcedureId) (world : World σ) :
    (do
      let marked ← Action.edit (·.withMark woven (.weave weave))
      return some (← Action.edit (·.withHook marked (.weave weave))) :
        Action σ (Option ProcedureId)).run world =
      (.ok (some ⟨world.store.procedures.size + 1⟩),
        { world with
          store := world.store.withProcedures
            (weave.finish (world.store.procedure woven)) }) := by
  rw [Action.run_edit_bind, Action.run_edit_bind, Action.run_pure]
  simp only [Store.withMark, Store.withHook, Store.addProcedure_fst,
    Store.procedure_addProcedure_self]
  simp [Store.addProcedure, Store.withProcedures, finish, ← Array.toList_inj]

theorem procedure_finish (weave : Weave) (woven : Procedure) (store : Store) :
    (store.withProcedures (weave.finish woven)).procedure ⟨store.procedures.size + 1⟩ =
      { woven with
        hook := some (.weave weave), mark := some (.weave weave), table := none } := by
  simp [Store.withProcedures, Store.procedure, Array.getD_eq_getD_getElem?, finish]

theorem run_build (root : ProcedureId) {nodes : List node} (layered : nodes ≠ [])
    (world : World σ)
    (after : ∀ node ∈ nodes, world.store.adviceAfter? (layerOf node) = some (adviceOf node)) :
    ∃ woven more,
      (build meaning ⟨some root, nodes.map layerOf⟩).run world =
        (.ok (some woven), { world with store := world.store.withProcedures more }) ∧
      (world.store.withProcedures more).Onion root (nodes.map adviceOf) woven ∧
      ((world.store.withProcedures more).procedure woven).mark =
        some (.weave ⟨some root, nodes.map layerOf⟩) ∧
      ((world.store.withProcedures more).procedure woven).hook =
        some (.weave ⟨some root, nodes.map layerOf⟩) := by
  rcases Layer.run_weaveAll meaning nodes world after
    (Store.Onion.bare : world.store.Onion root [] root)
    with ⟨inner, more, ran, onion⟩
  let weave : Weave := ⟨some root, nodes.map layerOf⟩
  have extends_ := (world.store.withProcedures more).extends_withProcedures
    (weave.finish ((world.store.withProcedures more).procedure inner))
  have made := weave.procedure_finish ((world.store.withProcedures more).procedure inner)
    (world.store.withProcedures more)
  have finished := run_finish weave inner { world with store := world.store.withProcedures more }
  rw [Store.withProcedures_withProcedures] at extends_ made finished
  refine ⟨⟨(world.store.withProcedures more).procedures.size + 1⟩, _, ?_,
    onion.of_body_eq extends_ (by simpa using layered) ?_, ?_, ?_⟩
  · rw [build, Action.run_bind_of_ok _ ran]
    exact finished
  · rw [made]
  · rw [made]
  · rw [made]

end Weave

end Weaving

/-! ### Calls -/

/-- Calls pieces of advice one after the other, with `result` as what the call comes to
as long as none of them answers. -/
def adviseInTurn (receiver : Value) (arguments : List Value) :
    (budget : Nat) → List ProcedureId → Value → Action σ Value
  | _, [], result => return result
  | budget, advice :: advices, result => do
      let advised ← (Meaning.ofBudget budget).call advice receiver arguments
      adviseInTurn receiver arguments (budget + 1) advices
        (if advised.isUndefined then result else advised)

private theorem adviseInTurn_append_singleton (receiver : Value) (arguments : List Value)
    (advice : ProcedureId) :
    ∀ (budget : Nat) (advices : List ProcedureId) (result : Value),
      (adviseInTurn receiver arguments budget (advices ++ [advice]) result : Action σ Value) = do
        let inner ← adviseInTurn receiver arguments budget advices result
        let advised ← (Meaning.ofBudget (budget + advices.length)).call advice receiver arguments
        return if advised.isUndefined then inner else advised
  | budget, [], result => by simp [adviseInTurn]
  | budget, first :: advices, result => by
      simp only [List.cons_append, adviseInTurn, bind_assoc]
      congr 1
      funext advised
      rw [adviseInTurn_append_singleton receiver arguments advice (budget + 1) advices,
        List.length_cons, Nat.add_right_comm, Nat.add_assoc]

theorem Store.Onion.run_call {world : World σ} {root woven : ProcedureId}
    {advices : List ProcedureId} (onion : world.store.Onion root advices woven) (budget : Nat)
    (receiver : Value) (arguments : List Value) :
    ((Meaning.ofBudget (budget + advices.length)).call woven receiver arguments).run world =
      (((Meaning.ofBudget budget).call root receiver arguments) >>=
        adviseInTurn receiver arguments budget advices).run world := by
  induction onion with
  | bare => simp [adviseInTurn]
  | @wrap advices advice base woven inner body induction =>
      have layers : budget + (advices ++ [advice]).length = budget + advices.length + 1 := by
        rw [List.length_append, List.length_singleton, Nat.add_assoc]
      have called : ((Meaning.ofBudget (budget + advices.length + 1)).call woven receiver
          arguments).run world =
        (do
          let result ← (Meaning.ofBudget (budget + advices.length)).call base receiver arguments
          let advised ← (Meaning.ofBudget (budget + advices.length)).call advice receiver arguments
          return if advised.isUndefined then result else advised : Action σ Value).run world := by
        rw [Meaning.ofBudget_succ, Meaning.step, Action.run_getStore_bind, Procedure.call, body]
      have outermost : adviseInTurn (σ := σ) receiver arguments budget (advices ++ [advice]) = _ :=
        funext (adviseInTurn_append_singleton receiver arguments advice budget advices)
      rw [layers, called, outermost, ← bind_assoc, Action.run_bind, Action.run_bind, induction]

/-- Invoking a member that resolves to an onion goes through its advice to the root, with the object
as the receiver. -/
theorem Store.Onion.run_invoke {world : World σ} {root woven : ProcedureId}
    {advices : List ProcedureId} (onion : world.store.Onion root advices woven) (budget : Nat)
    {object : ObjectId} {name : String} (arguments : List Value)
    (resolved : world.store.dataValue? object name = some (.procedure woven)) :
    (Member.invoke (.ofBudget (budget + advices.length)) object name arguments).run world =
      (Action.naming name ((Meaning.ofBudget budget).call root (.object object) arguments >>=
        adviseInTurn (.object object) arguments budget advices)).run world := by
  rw [Member.invoke, Action.run_bind_of_ok _ (Member.run_read_of_dataValue? _ resolved),
    Action.run_naming, Action.run_naming, onion.run_call]

end TraitComposition
