import TraitComposition.Proofs.Advice.ComposedTrait

/-!
A graph of traits that advise a shared member. Every trait is composed of its parents, or of
a root type if it has none. However the graph branches and joins, calling the member of a
trait runs the root procedure once, and then once the advice of the trait and of each of
its ancestors, where no trait comes before one of its ancestors.
-/
namespace TraitComposition

variable {σ : Type}

/-! ### Composing the traits of a graph -/

def Composer.composeTrait (composer : Composer) (meaning : Meaning σ) (member : String)
    (code : CodeId) (advice : ProcedureId) (parents : List ProcedureId) :
    Action σ ProcedureId := do
  let table ← (Advice.after advice).createTable member
  let constructor ← Action.edit (·.addProcedure { body := .code code })
  composer.compose meaning
    (parents.map .procedure ++ [.procedure constructor, .object table])

structure AdvisedTraits where
  graph : TraitGraph
  composer : Composer
  member : String
  /-- The type that the traits without parents are composed of. -/
  rootType : ProcedureId
  /-- The code of the constructor of each trait. -/
  code : Nat → CodeId
  /-- What each trait calls after the member. -/
  advice : Nat → ProcedureId

namespace AdvisedTraits

open Store (ChangesOnly)

variable (traits : AdvisedTraits)

def parentTypes (types : List ProcedureId) (trait : Nat) : List ProcedureId :=
  match traits.graph.parentsOf trait with
  | [] => [traits.rootType]
  | parents => parents.map fun parent => types.getD parent traits.rootType

def compose (meaning : Meaning σ) : (count : Nat) → Action σ (List ProcedureId)
  | 0 => return []
  | count + 1 => do
      let types ← compose meaning count
      let type ← traits.composer.composeTrait meaning traits.member (traits.code count)
        (traits.advice count) (traits.parentTypes types count)
      return types ++ [type]

/-- Whether the root type resolves the member to an unadvised procedure. What else it
enumerates are plain values, and whatever its tables hold under the member is there. -/
structure StartsFrom (store : Store) (rootComposite : Composite) (root : ProcedureId) : Prop where
  rooted : store.Rooted
  houses : store.Houses traits.rootType rootComposite
  raw : rootComposite.definer = none
  found : ∃ owner descriptor,
    store.lookup rootComposite.prototype traits.member = some (owner, descriptor) ∧
      descriptor.shape = .data (.procedure root) true
  known : store.hasProcedure root = true
  bare : store.weaveOf (some (.procedure root)) = .bare root
  entered : ∀ table ∈ rootComposite.bases.prototypes, ∀ method,
    store.dataValue? table traits.member = some (.procedure method) →
      store.hasProcedure method = true ∧
        ∀ layer ∈ (store.weaveOf (some (.procedure method))).layers,
          layer.index < store.layers.size
  others : ∀ name, name ≠ traits.member → ∀ descriptor,
    store.descriptor? rootComposite.prototype name = some descriptor →
      descriptor.enumerable = true → ∃ value, descriptor = .ofValue value ∧
        ∀ method, value = .procedure method →
          store.hasProcedure method = true ∧ (store.procedure method).hook = none

def shared (store : Store) (rootComposite : Composite) (root : ProcedureId) : SharedMember where
  name := traits.member
  root := root
  firstLayer := store.layers.size
  advice := traits.advice
  others := store.descriptor? rootComposite.prototype

def rootAdvised (rootComposite : Composite) (root : ProcedureId) : AdvisedType where
  type := traits.rootType
  composite := rootComposite
  order := []
  method := root

variable {traits} {store : Store} {rootComposite : Composite} {root : ProcedureId}

private theorem StartsFrom.carries (starts : traits.StartsFrom store rootComposite root) :
    (traits.shared store rootComposite root).Carries store
      (traits.rootAdvised rootComposite root) where
  houses := starts.houses
  raw := starts.raw
  resolves :=
    { found := starts.found
      woven :=
        { known := starts.known
          weave := starts.bare
          onion := .bare
          hooked := fun layered => absurd rfl layered
          advised := fun trait member => nomatch member }
      others := fun _ _ => rfl }
  entered table member method holds := by
    rcases starts.entered table member method holds with ⟨known, layers⟩
    refine ⟨known, fun trait layer => ?_⟩
    have inside : store.layers.size + trait < store.layers.size := layers _ layer
    exact absurd inside (Nat.not_lt.mpr (Nat.le_add_right _ _))
  owned layered := absurd rfl layered

end AdvisedTraits

/-! ### One trait -/

namespace SharedMember

open Store (ChangesOnly)
open TraitGraph (Merges)

variable {shared : SharedMember}

private theorem run_composeTrait (meaning : Meaning σ) (composer : Composer) (code : CodeId)
    (world : World σ) {first : AdvisedType} {rest : List AdvisedType} {trait : Nat}
    (rooted : world.store.Rooted)
    (carries : ∀ parent ∈ first :: rest, shared.Carries world.store parent)
    (layered : ∀ parent ∈ rest, parent.order ≠ []) (others : shared.OthersPlain world.store)
    (next : shared.layer trait = ⟨world.store.layers.size⟩) :
    ∃ advised : AdvisedType, ∃ later,
      (composer.composeTrait meaning.step shared.name code (shared.advice trait)
        ((first :: rest).map AdvisedType.type)).run world =
          (.ok advised.type, { world with store := later }) ∧
      (∀ other, ChangesOnly other world.store later) ∧
      later.layers.size = world.store.layers.size + 1 ∧ shared.Carries later advised ∧
      ∃ merged, Merges first.order (rest.map AdvisedType.order) merged ∧
        advised.order = FirstSeen.insert merged trait := by
  rcases run_createTable next with ⟨table, decorated, ranTable, changesTable, layers, binds⟩
  have adding := ChangesOnly.of_addProcedure decorated { body := .code code }
  have changes (other : ObjectId) := (changesTable other).trans (adding other)
  have rootedTable := (changesTable table).rooted rooted
  have plain : (decorated.addProcedure { body := .code code }).2.isPlain
      ⟨decorated.procedures.size⟩ = true := by
    rw [Store.isPlain, Store.hasProcedure_addProcedure_self, Store.procedure_addProcedure_self]
    rfl
  have tableless : ((decorated.addProcedure { body := .code code }).2.procedure
      ⟨decorated.procedures.size⟩).table = none := by
    rw [Store.procedure_addProcedure_self]
  rcases run_compose meaning composer
      { world with store := (decorated.addProcedure { body := .code code }).2 }
      ((changes table).rooted rooted)
      (fun parent member => (carries parent member).later_of_new (changes _) rooted)
      layered (others.extends (changes table).extends_) plain tableless
      (binds.later (adding decorated.nextObject) (Store.nextObject_ne binds.known).symm) with
    ⟨advised, later, ran, changesLater, layersLater, carriesLater, merged⟩
  refine ⟨advised, later, ?_, fun other => (changes other).trans (changesLater other), ?_,
    carriesLater, merged⟩
  · rw [Composer.composeTrait, Action.run_bind_of_ok _ ranTable, Action.run_edit_bind,
      List.map_map]
    exact ran
  · rw [layersLater]
    exact layers

end SharedMember

/-! ### All traits -/

namespace AdvisedTraits

open Store (ChangesOnly)

variable {traits : AdvisedTraits} {store : Store} {rootComposite : Composite}
  {root : ProcedureId}

structure Stand (shared : SharedMember) (graph : TraitGraph) (store : Store)
    (types : List AdvisedType) : Prop where
  carries : ∀ advised ∈ types, shared.Carries store advised
  ordered : ∀ trait advised, types[trait]? = some advised →
    graph.AncestorsFirst advised.order ∧
      ∀ other, other ∈ advised.order ↔ graph.Reaches trait other

def parentsIn (traits : AdvisedTraits) (root : AdvisedType) (types : List AdvisedType)
    (trait : Nat) : List AdvisedType :=
  match traits.graph.parentsOf trait with
  | [] => [root]
  | parents => parents.map fun parent => types.getD parent root

private theorem parentTypes_map (root : AdvisedType) (rooted : root.type = traits.rootType)
    (types : List AdvisedType) (trait : Nat) :
    traits.parentTypes (types.map AdvisedType.type) trait =
      (traits.parentsIn root types trait).map AdvisedType.type := by
  unfold parentTypes parentsIn
  cases traits.graph.parentsOf trait with
  | nil => simp [rooted]
  | cons first rest => simp [← rooted]

section Parents

variable {shared : SharedMember} {types : List AdvisedType} (rootAdvised : AdvisedType)
  (stand : Stand shared traits.graph store types) (ordered : traits.graph.Ordered)

include stand ordered

theorem Stand.parent {parent : Nat} (edge : parent ∈ traits.graph.parentsOf types.length) :
    shared.Carries store (types.getD parent rootAdvised) ∧
      traits.graph.AncestorsFirst (types.getD parent rootAdvised).order ∧
      ∀ other, other ∈ (types.getD parent rootAdvised).order ↔
        traits.graph.Reaches parent other := by
  have inside := ordered types.length parent edge
  have found := List.getElem?_eq_getElem inside
  have same : types.getD parent rootAdvised = types[parent] := by
    rw [List.getD_eq_getElem?_getD, found, Option.getD_some]
  rw [same]
  exact ⟨stand.carries _ (List.getElem_mem _), stand.ordered parent _ found⟩

theorem Stand.parentsIn (carries : shared.Carries store rootAdvised)
    (unadvised : rootAdvised.order = []) :
    ∃ first rest, traits.parentsIn rootAdvised types types.length = first :: rest ∧
      (∀ parent ∈ first :: rest, shared.Carries store parent) ∧
      (∀ parent ∈ rest, parent.order ≠ []) ∧
      ∀ merged, TraitGraph.Merges first.order (rest.map AdvisedType.order) merged →
        traits.graph.AncestorsFirst merged ∧ ∀ other, other ∈ merged ↔
          ∃ parent ∈ traits.graph.parentsOf types.length, traits.graph.Reaches parent other := by
  unfold AdvisedTraits.parentsIn
  cases parents : traits.graph.parentsOf types.length with
  | nil =>
      refine ⟨rootAdvised, [], rfl, by simpa using carries, by simp, fun merged merges => ?_⟩
      rw [unadvised] at merges
      cases merges
      exact ⟨.nil, by simp⟩
  | cons first rest =>
      have stands (parent : Nat) (member : parent ∈ first :: rest) :=
        stand.parent rootAdvised ordered (parents ▸ member)
      refine ⟨types.getD first rootAdvised, rest.map fun parent => types.getD parent rootAdvised,
        rfl, fun advised member => ?_, fun advised member => ?_, fun merged merges => ⟨?_, ?_⟩⟩
      · have among : advised ∈ (first :: rest).map fun parent => types.getD parent rootAdvised :=
          member
        rcases List.mem_map.mp among with ⟨parent, edge, rfl⟩
        exact (stands parent edge).1
      · rcases List.mem_map.mp member with ⟨parent, edge, rfl⟩
        exact List.ne_nil_of_mem
          (((stands parent (List.mem_cons_of_mem _ edge)).2.2 parent).mpr (.refl parent))
      · apply merges.ancestorsFirst (stands first (List.mem_cons_self ..)).2.1
        intro order member
        rcases List.mem_map.mp member with ⟨advised, inside, rfl⟩
        rcases List.mem_map.mp inside with ⟨parent, edge, rfl⟩
        exact (stands parent (List.mem_cons_of_mem _ edge)).2.1
      · intro other
        rw [merges.mem_iff, (stands first (List.mem_cons_self ..)).2.2]
        constructor
        · rintro (reach | ⟨order, member, inside⟩)
          · exact ⟨first, List.mem_cons_self .., reach⟩
          · rcases List.mem_map.mp member with ⟨advised, among, rfl⟩
            rcases List.mem_map.mp among with ⟨parent, edge, rfl⟩
            have later := List.mem_cons_of_mem first edge
            exact ⟨parent, later, ((stands parent later).2.2 other).mp inside⟩
        · rintro ⟨parent, edge, reach⟩
          rcases List.mem_cons.mp edge with rfl | later
          · exact .inl reach
          · exact .inr ⟨_, List.mem_map_of_mem (List.mem_map_of_mem later),
              ((stands parent edge).2.2 other).mpr reach⟩

end Parents

private theorem Stand.append_singleton {shared : SharedMember} {graph : TraitGraph}
    {before after : Store} {types : List AdvisedType} {advised : AdvisedType}
    (stand : Stand shared graph before types) (rooted : before.Rooted)
    (changes : ChangesOnly before.nextObject before after)
    (carries : shared.Carries after advised)
    (ordered : graph.AncestorsFirst advised.order ∧
      ∀ other, other ∈ advised.order ↔ graph.Reaches types.length other) :
    Stand shared graph after (types ++ [advised]) where
  carries other member := by
    rcases List.mem_append.mp member with old | new
    · exact (stand.carries other old).later_of_new changes rooted
    · rw [List.mem_singleton.mp new]
      exact carries
  ordered trait other found := by
    rcases Nat.lt_or_ge trait types.length with old | new
    · rw [List.getElem?_append_left old] at found
      exact stand.ordered trait other found
    · rw [List.getElem?_append_right new, List.getElem?_singleton] at found
      split at found
      · next last =>
        cases found
        obtain rfl : trait = types.length := by omega
        exact ordered
      · cases found

/-! ### The run -/

theorem run_compose (meaning : Meaning σ) {world : World σ}
    (starts : traits.StartsFrom world.store rootComposite root)
    (ordered : traits.graph.Ordered) :
    ∀ count, ∃ types later,
      (traits.compose meaning.step count).run world =
        (.ok (types.map AdvisedType.type), { world with store := later }) ∧
      types.length = count ∧ later.layers.size = world.store.layers.size + count ∧
      (∀ other, ChangesOnly other world.store later) ∧
      Stand (traits.shared world.store rootComposite root) traits.graph later types
  | 0 => ⟨[], world.store, rfl, rfl, rfl, fun other => .refl other world.store, nofun, nofun⟩
  | count + 1 => by
      rcases run_compose meaning starts ordered count with
        ⟨types, between, ran, length, layers, changes, stand⟩
      have rooted := (changes world.store.nextObject).rooted starts.rooted
      have carriesRoot := starts.carries.later_of_new (changes _) starts.rooted
      rcases stand.parentsIn _ ordered carriesRoot rfl with
        ⟨first, rest, parents, carries, layered, merging⟩
      have others : (traits.shared world.store rootComposite root).OthersPlain between :=
        SharedMember.OthersPlain.extends starts.others (changes world.store.nextObject).extends_
      have next : (traits.shared world.store rootComposite root).layer count =
          ⟨between.layers.size⟩ := by
        rw [layers]
        rfl
      rcases SharedMember.run_composeTrait meaning traits.composer (traits.code count)
          { world with store := between } rooted carries layered others next with
        ⟨advised, later, ranTrait, changesTrait, layersTrait, carriesTrait, merged, merges, order⟩
      subst length
      have completed := (merging merged merges).1.complete ordered (merging merged merges).2
      rw [← order] at completed
      refine ⟨types ++ [advised], later, ?_, by simp, by rw [layersTrait, layers, Nat.add_assoc],
        fun other => (changes other).trans (changesTrait other),
        stand.append_singleton rooted (changesTrait _) carriesTrait completed⟩
      rw [compose, Action.run_bind_of_ok _ ran,
        parentTypes_map (traits.rootAdvised rootComposite root) rfl, parents]
      exact (Action.run_bind_of_ok _ ranTrait).trans (by simp)

/-- Whether the member that a type holds is the onion of a trait: over the root, one layer
of advice for the trait and for each of its ancestors, none of them inside one of its own
ancestors. A new instance of the type resolves the member to it. Whenever an object does,
invoking the member calls the root, and then the advice of each of them in that order. -/
structure Holds (traits : AdvisedTraits) (shared : SharedMember) (later : World σ)
    (trait : Nat) (type : ProcedureId) (order : List Nat) (woven : ProcedureId) : Prop where
  nodup : order.Nodup
  mem_iff : ∀ other, other ∈ order ↔ traits.graph.Reaches trait other
  pairwise : order.Pairwise fun inner outer => ¬traits.graph.Reaches inner outer
  resolved : ∃ composite, later.store.composite? type = some composite ∧
    later.store.dataValue? composite.prototype traits.member = some (.procedure woven) ∧
    (later.store.delegating composite.prototype).dataValue? later.store.nextObject
      traits.member = some (.procedure woven)
  weave : later.store.weaveOf (some (.procedure woven)) = shared.weave order
  advised : ∀ other ∈ order,
    later.store.adviceAfter? (shared.layer other) = some (traits.advice other)
  invoked : ∀ (now : World σ) (budget : Nat) (object : ObjectId) (arguments : List Value),
    (Passage.evolution σ).leads later now →
    now.store.dataValue? object traits.member = some (.procedure woven) →
      (Member.invoke (.ofBudget (budget + order.length)) object traits.member arguments).run now =
        (Action.naming traits.member
          ((Meaning.ofBudget budget).call shared.root (.object object) arguments >>=
            adviseInTurn (.object object) arguments budget (order.map traits.advice))).run now

private theorem Stand.holds {world later : World σ} {types : List AdvisedType}
    (stand : Stand (traits.shared world.store rootComposite root) traits.graph later.store types)
    (rooted : later.store.Rooted) {trait : Nat} {advised : AdvisedType}
    (found : types[trait]? = some advised) :
    Holds traits (traits.shared world.store rootComposite root) later trait advised.type
      advised.order advised.method := by
  rcases stand.ordered trait advised found with ⟨ancestorsFirst, reached⟩
  have carries := stand.carries advised (List.mem_of_getElem? found)
  have resolved := carries.resolves.dataValue?_eq
  have known := carries.houses.hasObject_prototype
  have created := ((Store.AddsTable.of_delegating known).dataValue?_nextObject rooted known
    (later.store.ownDescriptor?_delegating_nextObject _ traits.member)).trans resolved
  refine
    { nodup := ancestorsFirst.nodup
      mem_iff := reached
      pairwise := ancestorsFirst.pairwise
      resolved := ⟨_, carries.houses.found, resolved, created⟩
      weave := carries.resolves.woven.weave
      advised := carries.resolves.woven.advised
      invoked := fun now budget object arguments evolution resolved => ?_ }
  have onion := carries.resolves.woven.onion.extends evolution.1.extends
  have invoked := onion.run_invoke budget arguments resolved
  rw [List.length_map] at invoked
  exact invoked

/-- All traits of a graph can be composed, and the member of each is the onion of its
ancestors: advice that reaches a trait on many paths runs once, ancestors first. -/
theorem advice_once_ancestors_first {world : World σ}
    (starts : traits.StartsFrom world.store rootComposite root)
    (ordered : traits.graph.Ordered) (budget : Nat) :
    ∃ types later,
      (traits.compose (.ofBudget (budget + 1)) traits.graph.size).run world =
        (.ok types, later) ∧
      types.length = traits.graph.size ∧
      ∀ trait type, types[trait]? = some type → ∃ order woven,
        Holds traits (traits.shared world.store rootComposite root) later trait type order
          woven := by
  rcases run_compose (.ofBudget budget) starts ordered traits.graph.size with
    ⟨types, later, ran, length, _, changes, stand⟩
  have rooted := (changes later.nextObject).rooted starts.rooted
  refine ⟨types.map AdvisedType.type, { world with store := later }, ran,
    (List.length_map _).trans length, fun trait type found => ?_⟩
  rw [List.getElem?_map, Option.map_eq_some_iff] at found
  rcases found with ⟨advised, known, rfl⟩
  exact ⟨advised.order, advised.method, stand.holds rooted known⟩

/-! A diamond of traits over a type that owns nothing but the member. -/

def diamond : AdvisedTraits where
  graph := ⟨#[[], [0], [0], [1, 2]]⟩
  composer := {}
  member := "visit"
  rootType := ⟨6⟩
  code trait := ⟨trait⟩
  advice trait := ⟨trait + 2⟩

def visited : Composite where
  procedure := ⟨6⟩
  prototype := ⟨0⟩
  bases := ⟨[], [⟨0⟩]⟩
  composer := {}

def unvisited : World Unit where
  store := {
    objects := #[{ members := MemberTable.empty.insert "visit" (.ofValue (.procedure ⟨1⟩)) }]
    procedures := #[
      { body := .required }, { body := .code ⟨4⟩ }, { body := .code ⟨5⟩ }, { body := .code ⟨6⟩ },
      { body := .code ⟨7⟩ }, { body := .code ⟨8⟩ }, { body := .composite ⟨0⟩ }]
    composites := #[visited] }
  state := ()

/-- The last trait of the diamond is advised by all four, the advice of the first running
once although both parents have it. -/
theorem advice_once_of_diamond :
    ∃ types later,
      (diamond.compose (.ofBudget 1) 4).run unvisited = (.ok types, later) ∧
      ∃ type order woven, types[3]? = some type ∧
        Holds diamond (diamond.shared unvisited.store visited ⟨1⟩) later 3 type order woven := by
  have owned : unvisited.store.ownDescriptor? ⟨0⟩ "visit" = some (.ofValue (.procedure ⟨1⟩)) :=
    MemberTable.find?_insert_same ..
  have starts : diamond.StartsFrom unvisited.store visited ⟨1⟩ := by
    refine
      { rooted := by decide
        houses := ⟨rfl, by decide, by decide⟩
        raw := rfl
        found := ⟨_, _, Store.lookup_of_own owned, rfl⟩
        known := by decide
        bare := rfl
        entered := fun table member method holds => ?_
        others := fun name different descriptor resolved => ?_ }
    · have only : unvisited.store.dataValue? ⟨0⟩ diamond.member = some (.procedure ⟨1⟩) :=
        congrArg (·.bind Descriptor.value?) (Store.descriptor?_of_own owned)
      rw [List.mem_singleton.mp member, only] at holds
      cases holds
      exact ⟨by decide, nofun⟩
    · have missing : unvisited.store.ownDescriptor? ⟨0⟩ name = none :=
        (MemberTable.find?_insert_other {} _ different).trans (MemberTable.find?_empty name)
      have alone : unvisited.store.parent visited.prototype = none := rfl
      rw [Store.descriptor?, Store.lookup_of_alone alone, visited, missing] at resolved
      cases resolved
  obtain ⟨types, later, ran, length, holds⟩ := advice_once_ancestors_first starts (by decide) 0
  have inside : 3 < types.length := length ▸ (by decide)
  have found := List.getElem?_eq_getElem inside
  rcases holds 3 _ found with ⟨order, woven, held⟩
  exact ⟨types, later, ran, _, order, woven, found, held⟩

end AdvisedTraits

end TraitComposition
