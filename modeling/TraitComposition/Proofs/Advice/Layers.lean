import Mathlib.Data.List.Forall2
import TraitComposition.Proofs.Advice.Onion

/-!
Advice on both sides. Pieces of advice that run first and pieces that run afterwards, woven
over a root or over nothing, make an onion; calling the procedure that is woven runs them
from the outside in and from the inside out, with the root at the core.
-/
namespace TraitComposition

inductive Wrap where
  | before (advice : CodeId)
  | after (advice : ProcedureId)
deriving DecidableEq

def Advice.wrap? : Advice → Option Wrap
  | .before advice => some (.before advice)
  | .after advice => some (.after advice)
  | .around .. => none

variable {σ : Type}

/-! ### Running through an onion -/

def Meaning.callAny (meaning : Meaning σ) (procedure : Option ProcedureId) (receiver : Value)
    (arguments : List Value) : Action σ Value :=
  match procedure with
  | some procedure => meaning.call procedure receiver arguments
  | none => return .undefined

namespace Wrap

/-- What a call comes to that gets to a root through pieces of advice, outermost first.
Advice that runs first decides whether and with which arguments the call goes on; advice
that runs afterwards has the last word unless it has nothing to say. What is `level` pieces
away from the root is called in the machine of that level. -/
def callThrough (machine : Nat → Meaning σ) (root : Option ProcedureId) (receiver : Value) :
    List Wrap → List Value → Action σ Value
  | [], arguments => (machine 0).callAny root receiver arguments
  | .before advice :: inner, arguments => do
      match BeforeOutcome.ofAnswer
        (← (machine inner.length).enter advice (.call receiver arguments)) with
      | .stop => return .undefined
      | .proceed => callThrough machine root receiver inner arguments
      | .replaceArguments others => callThrough machine root receiver inner others
  | .after advice :: inner, arguments => do
      let result ← callThrough machine root receiver inner arguments
      let advised ← (machine inner.length).call advice receiver arguments
      return if advised.isUndefined then result else advised

end Wrap

/-! ### Woven procedures

Advice that runs before or after a procedure is woven around it without asking user code. Layers
come to such pieces of advice, in the same order. -/

namespace Store

def wrap? (store : Store) (layer : LayerId) : Option Wrap :=
  (store.layer layer).bind fun layer => layer.advice.wrap?

theorem isSome_layer_of_wrap? {store : Store} {layer : LayerId} {wrap : Wrap}
    (found : store.wrap? layer = some wrap) : (store.layer layer).isSome = true := by
  rcases Option.bind_eq_some_iff.mp found with ⟨made, known, _⟩
  rw [known, Option.isSome_some]

theorem Extends.wrap?_eq {before after : Store} (extends_ : before.Extends after)
    {layer : LayerId} (known : (before.layer layer).isSome = true) :
    after.wrap? layer = before.wrap? layer := by
  rcases Option.isSome_iff_exists.mp known with ⟨made, found⟩
  rcases extends_.layer layer made found with ⟨standalone, kept⟩
  rw [Store.wrap?, Store.wrap?, kept, found]
  rfl

theorem Extends.wrap? {before after : Store} (extends_ : before.Extends after) {layer : LayerId}
    {wrap : Wrap} (found : before.wrap? layer = some wrap) : after.wrap? layer = some wrap :=
  (extends_.wrap?_eq (isSome_layer_of_wrap? found)).trans found

abbrev Layered (store : Store) : List LayerId → List Wrap → Prop :=
  List.Forall₂ fun layer wrap => store.wrap? layer = some wrap

private theorem Layered.extends {before after : Store} (extends_ : before.Extends after)
    {layers : List LayerId} {wraps : List Wrap} (layered : before.Layered layers wraps) :
    after.Layered layers wraps :=
  layered.imp fun _ _ => extends_.wrap?

section Layered

variable {store : Store} {layers : List LayerId} {wraps : List Wrap}

private theorem Layered.map_eq (layered : store.Layered layers wraps) :
    layers.map store.wrap? = wraps.map some := by
  induction layered with
  | nil => rfl
  | cons found _ induction => rw [List.map_cons, List.map_cons, found, induction]

theorem Layered.exists_wrap (layered : store.Layered layers wraps) {layer : LayerId}
    (member : layer ∈ layers) : ∃ wrap ∈ wraps, store.wrap? layer = some wrap := by
  have mapped : store.wrap? layer ∈ layers.map store.wrap? := List.mem_map.mpr ⟨layer, member, rfl⟩
  rw [Layered.map_eq layered] at mapped
  rcases List.mem_map.mp mapped with ⟨wrap, inside, equal⟩
  exact ⟨wrap, inside, equal.symm⟩

theorem Layered.exists_layer (layered : store.Layered layers wraps) {wrap : Wrap}
    (member : wrap ∈ wraps) : ∃ layer ∈ layers, store.wrap? layer = some wrap := by
  have mapped : some wrap ∈ wraps.map some := List.mem_map.mpr ⟨wrap, member, rfl⟩
  rw [← Layered.map_eq layered] at mapped
  exact List.mem_map.mp mapped

end Layered

inductive Wrapped (store : Store) (root : Option ProcedureId) :
    List Wrap → Option ProcedureId → Prop
  | core : Wrapped store root [] root
  | before {inner : List Wrap} {advice : CodeId} {base : Option ProcedureId}
      {woven : ProcedureId} (around : Wrapped store root inner base)
      (body : (store.procedure woven).body = .before advice base) :
      Wrapped store root (.before advice :: inner) (some woven)
  | after {inner : List Wrap} {advice base woven : ProcedureId}
      (around : Wrapped store root inner (some base))
      (body : (store.procedure woven).body = .after advice base) :
      Wrapped store root (.after advice :: inner) (some woven)
  | alone {inner : List Wrap} {advice : ProcedureId} (around : Wrapped store root inner none) :
      Wrapped store root (.after advice :: inner) (some advice)
  | copy {wraps : List Wrap} {woven other : ProcedureId}
      (original : Wrapped store root wraps (some woven))
      (known : store.hasProcedure woven = true) (knownToo : store.hasProcedure other = true)
      (body : (store.procedure other).body = (store.procedure woven).body) :
      Wrapped store root wraps (some other)

namespace Wrapped

variable {store : Store} {root woven : Option ProcedureId} {wraps : List Wrap}

theorem later {after : Store} (wrapped : store.Wrapped root wraps woven)
    (extends_ : store.Extends after) : after.Wrapped root wraps woven := by
  induction wrapped with
  | core => exact .core
  | before around body induction => exact .before induction (extends_.body_eq_of_ne body nofun)
  | after around body induction => exact .after induction (extends_.body_eq_of_ne body nofun)
  | alone around induction => exact .alone induction
  | copy original known knownToo body induction =>
    refine .copy induction (extends_.procedure _ known).1 (extends_.procedure _ knownToo).1 ?_
    rw [extends_.body known, extends_.body knownToo, body]

theorem eq_of_none (wrapped : store.Wrapped root wraps none) : wraps = [] ∧ root = none := by
  cases wrapped
  exact ⟨rfl, rfl⟩

/-- What is woven is there if the root is, and the procedures that run afterwards are. -/
theorem hasProcedure {procedure : ProcedureId} (wrapped : store.Wrapped root wraps (some procedure))
    (rooted : ∀ known, root = some known → store.hasProcedure known = true)
    (advised : ∀ advice, Wrap.after advice ∈ wraps → store.hasProcedure advice = true) :
    store.hasProcedure procedure = true := by
  cases wrapped with
  | core => exact rooted procedure rfl
  | before around body => exact hasProcedure_of_body_ne (by rw [body]; nofun)
  | after around body => exact hasProcedure_of_body_ne (by rw [body]; nofun)
  | alone around => exact advised procedure (List.mem_cons_self ..)
  | copy original known knownToo body => exact knownToo

end Wrapped

end Store

/-! ### Calls -/

namespace Meaning

variable {world : World σ} (receiver : Value) (arguments : List Value)

theorem run_call_of_body_eq {procedure other : ProcedureId}
    (same : (world.store.procedure other).body = (world.store.procedure procedure).body) :
    ∀ budget : Nat, ((ofBudget budget).call other receiver arguments).run world =
      ((ofBudget budget).call procedure receiver arguments).run world
  | 0 => rfl
  | budget + 1 => by
    simp only [ofBudget_succ, step, Action.run_getStore_bind, Procedure.call, same]

private theorem run_call_before {advice : CodeId} {base : Option ProcedureId} {woven : ProcedureId}
    (body : (world.store.procedure woven).body = .before advice base) (budget : Nat) :
    ((ofBudget (budget + 1)).call woven receiver arguments).run world =
      (do
        match BeforeOutcome.ofAnswer
          (← (ofBudget budget).enter advice (.call receiver arguments)) with
        | .stop => return .undefined
        | .proceed => (ofBudget budget).callAny base receiver arguments
        | .replaceArguments others => (ofBudget budget).callAny base receiver others :
          Action σ Value).run world := by
  rw [ofBudget_succ, step, Action.run_getStore_bind, Procedure.call, body]
  dsimp only
  rw [Action.run_bind, Action.run_bind]
  rcases ((ofBudget budget).enter advice (.call receiver arguments)).run world with
    ⟨fault | answer, later⟩
  · rfl
  · dsimp only
    cases base <;> cases BeforeOutcome.ofAnswer answer <;> rfl

private theorem run_call_after {advice base woven : ProcedureId}
    (body : (world.store.procedure woven).body = .after advice base) (budget : Nat) :
    ((ofBudget (budget + 1)).call woven receiver arguments).run world =
      (do
        let result ← (ofBudget budget).call base receiver arguments
        let advised ← (ofBudget budget).call advice receiver arguments
        return if advised.isUndefined then result else advised : Action σ Value).run world := by
  rw [ofBudget_succ, step, Action.run_getStore_bind, Procedure.call, body]

end Meaning

namespace Store.Wrapped

/-- Calling what is woven goes through all the advice to the root. All calls on the way
can be nested at least as deep as `budget` and the distance from the root allow; advice
that wraps nothing has one level to spare. -/
theorem exists_spare {store : Store} {root woven : Option ProcedureId} {wraps : List Wrap}
    (wrapped : store.Wrapped root wraps woven) :
    ∃ spare ≤ wraps.length, ∀ {world : World σ}, store.Extends world.store →
      ∀ (budget : Nat) (receiver : Value) (arguments : List Value),
        ((Meaning.ofBudget (budget + wraps.length)).callAny woven receiver arguments).run world =
          (Wrap.callThrough (fun level => .ofBudget (budget + max level spare)) root receiver
            wraps arguments).run world := by
  induction wrapped with
  | core => exact ⟨0, Nat.le_refl 0, fun _ _ _ _ => rfl⟩
  | @before inner advice base woven around body induction =>
    rcases induction with ⟨spare, least, runs⟩
    refine ⟨spare, Nat.le_succ_of_le least, fun {world} extends_ budget receiver arguments => ?_⟩
    have bodyNow := extends_.body_eq_of_ne body nofun
    rw [List.length_cons, ← Nat.add_assoc, Meaning.callAny,
      Meaning.run_call_before receiver arguments bodyNow, Wrap.callThrough,
      Nat.max_eq_left least, Action.run_bind, Action.run_bind]
    have evolution := (Meaning.evolving_ofBudget (budget + inner.length)).enter advice
      (.call receiver arguments) world
    rcases ran : ((Meaning.ofBudget (budget + inner.length)).enter advice
      (.call receiver arguments)).run world with ⟨fault | answer, later⟩
    · rfl
    · rw [ran] at evolution
      have extendsThen := extends_.trans evolution.1.extends
      dsimp only
      cases BeforeOutcome.ofAnswer answer with
      | stop => rfl
      | proceed => exact runs extendsThen budget receiver arguments
      | replaceArguments others => exact runs extendsThen budget receiver others
  | @after inner advice base woven around body induction =>
    rcases induction with ⟨spare, least, runs⟩
    refine ⟨spare, Nat.le_succ_of_le least, fun {world} extends_ budget receiver arguments => ?_⟩
    have bodyNow := extends_.body_eq_of_ne body nofun
    have inside := runs extends_ budget receiver arguments
    rw [Meaning.callAny] at inside
    rw [List.length_cons, ← Nat.add_assoc, Meaning.callAny,
      Meaning.run_call_after receiver arguments bodyNow, Wrap.callThrough,
      Nat.max_eq_left least, Action.run_bind, Action.run_bind, inside]
  | @alone inner advice around induction =>
    rcases around.eq_of_none with ⟨rfl, rfl⟩
    refine ⟨1, Nat.le_refl 1, fun {world} _ budget receiver arguments => ?_⟩
    have settled (advised : Value) :
        (if advised.isUndefined then .undefined else advised) = advised := by
      cases advised <;> rfl
    simp [Wrap.callThrough, Meaning.callAny, settled]
  | copy original known knownToo body induction =>
    rcases induction with ⟨spare, least, runs⟩
    refine ⟨spare, least, fun {world} extends_ budget receiver arguments => ?_⟩
    have same := (extends_.body knownToo).trans (body.trans (extends_.body known).symm)
    rw [← runs extends_]
    exact Meaning.run_call_of_body_eq receiver arguments same _

end Store.Wrapped

/-! ### Weaving -/

section Weaving

variable (meaning : Meaning σ) {world : World σ} {root base : Option ProcedureId}
  {inner : List Wrap}

namespace Layer

/-- Weaving a layer puts its advice around what is there, and does nothing but make a
procedure if there is something to be called in between. -/
theorem run_weave_of_wrap {layer : LayerId} {wrap : Wrap}
    (found : world.store.wrap? layer = some wrap)
    (wrapped : world.store.Wrapped root inner base) :
    ∃ woven more,
      (weave meaning layer base).run world =
        (.ok woven, { world with store := world.store.withProcedures more }) ∧
      (world.store.withProcedures more).Wrapped root (wrap :: inner) (some woven) := by
  rcases Option.bind_eq_some_iff.mp found with ⟨⟨advice, standalone⟩, known, wraps⟩
  rw [weave, Action.run_getStore_bind, known, Option.map_some]
  have made (procedure : Procedure) :
      ((world.store.withProcedures #[procedure]).procedure ⟨world.store.procedures.size⟩) =
        procedure := by
    rw [← Store.addProcedure_eq_withProcedures, Store.procedure_addProcedure_self]
  cases advice with
  | before advice =>
    cases wraps
    refine ⟨_, #[_], by rw [← Store.addProcedure_eq_withProcedures]; rfl, ?_⟩
    exact .before (wrapped.later (world.store.extends_withProcedures _)) (by rw [made])
  | after advice =>
    cases wraps
    cases base with
    | none =>
      refine ⟨advice, #[], by rw [Store.withProcedures_empty]; rfl, ?_⟩
      rw [Store.withProcedures_empty]
      exact .alone wrapped
    | some base =>
      refine ⟨_, #[_], by rw [← Store.addProcedure_eq_withProcedures]; rfl, ?_⟩
      exact .after (wrapped.later (world.store.extends_withProcedures _)) (by rw [made])
  | around => cases wraps

theorem run_weaveAll_of_layered :
    ∀ {layers : List LayerId} {wraps inner : List Wrap} {world : World σ}
      {base : Option ProcedureId}, world.store.Layered layers wraps →
      world.store.Wrapped root inner base →
      ∃ woven more,
        (weaveAll meaning layers base).run world =
          (.ok woven, { world with store := world.store.withProcedures more }) ∧
        (world.store.withProcedures more).Wrapped root (wraps.reverse ++ inner) woven
  | [], [], inner, world, base, .nil, wrapped => by
      refine ⟨base, #[], ?_, ?_⟩
      · rw [Store.withProcedures_empty]
        rfl
      · rwa [Store.withProcedures_empty]
  | layer :: layers, wrap :: wraps, inner, world, base, .cons found layered, wrapped => by
      rcases run_weave_of_wrap meaning found wrapped with ⟨woven, more, ran, around⟩
      have extends_ := world.store.extends_withProcedures more
      let now : World σ := { world with store := world.store.withProcedures more }
      have layeredNow : now.store.Layered layers wraps := Store.Layered.extends extends_ layered
      rcases run_weaveAll_of_layered layeredNow around with ⟨outer, others, ranRest, whole⟩
      rw [Store.withProcedures_withProcedures] at ranRest whole
      refine ⟨outer, more ++ others, ?_, ?_⟩
      · rw [weaveAll, Action.run_bind_of_ok _ ran]
        exact ranRest
      · simpa using whole

end Layer

namespace Weave

/-- Whether a weave comes to pieces of advice, innermost first, and all it is made of is
there. -/
structure Wraps (store : Store) (weave : Weave) (wraps : List Wrap) : Prop where
  layered : store.Layered weave.layers wraps
  root : ∀ root, weave.root = some root → store.hasProcedure root = true
  advice : ∀ advice, Wrap.after advice ∈ wraps → store.hasProcedure advice = true

/-- Building a weave makes a procedure with all its advice around its root that carries the
weave, unless there is neither a root nor advice. -/
theorem run_build_of_wraps {weave : Weave} {wraps : List Wrap}
    (comes : weave.Wraps world.store wraps) (something : weave.root ≠ none ∨ wraps ≠ []) :
    ∃ woven more,
      (weave.build meaning).run world =
        (.ok (some woven), { world with store := world.store.withProcedures more }) ∧
      (world.store.withProcedures more).Wrapped weave.root wraps.reverse (some woven) ∧
      ((world.store.withProcedures more).procedure woven).mark = some (.weave weave) := by
  rcases Layer.run_weaveAll_of_layered meaning comes.layered
    (.core : world.store.Wrapped weave.root [] weave.root) with ⟨inner, more, ran, wrapped⟩
  rw [List.append_nil] at wrapped
  cases inner with
  | none =>
    rcases wrapped.eq_of_none with ⟨bare, rootless⟩
    rcases something with rooted | advised
    · exact absurd rootless rooted
    · exact absurd (List.reverse_eq_nil_iff.mp bare) advised
  | some inner =>
    have extends_ := world.store.extends_withProcedures more
    have known := wrapped.hasProcedure
      (fun root equal => (extends_.procedure root (comes.root root equal)).1)
      (fun advice member =>
        (extends_.procedure advice (comes.advice advice (by simpa using member))).1)
    have finished := weave.run_finish inner { world with store := world.store.withProcedures more }
    have made := weave.procedure_finish ((world.store.withProcedures more).procedure inner)
      (world.store.withProcedures more)
    have extendsThen := (world.store.withProcedures more).extends_withProcedures
      (weave.finish ((world.store.withProcedures more).procedure inner))
    rw [Store.withProcedures_withProcedures] at finished made extendsThen
    refine ⟨_, _, (Action.run_bind_of_ok _ ran).trans finished, ?_, by rw [made]⟩
    refine .copy (wrapped.later extendsThen) (extendsThen.procedure inner known).1 ?_ ?_
    · rw [Store.hasProcedure_iff]
      simp [Store.withProcedures, finish]
      omega
    · rw [made, extendsThen.body known]

end Weave

end Weaving

end TraitComposition
