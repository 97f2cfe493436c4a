import Mathlib.Data.List.Basic
import TraitComposition.Proofs.Composition.Composing
import TraitComposition.Proofs.Flattening.FirstOccurrence

/-!
Composition trees. A composite type is a node with its sources below it, down to plain
procedures and bare tables. The types store flat lists and never expand a source again;
what is shown here is that the flat lists are those of the whole tree all the same.
-/
namespace TraitComposition

inductive CompositionTree where
  | procedure (reference : ProcedureId)
  | table (reference : ObjectId)
  | composite (type : ProcedureId) (sources : List CompositionTree)

namespace CompositionTree

variable {σ : Type}

def value : CompositionTree → Value
  | procedure reference => .procedure reference
  | table reference => .object reference
  | composite type _ => .procedure type

mutual

def walk : CompositionTree → List ProcedureId
  | procedure reference => [reference]
  | table _ => []
  | composite _ sources => walkAll sources

def walkAll : List CompositionTree → List ProcedureId
  | [] => []
  | tree :: trees => tree.walk ++ walkAll trees

end

theorem walkAll_eq_flatMap (trees : List CompositionTree) : walkAll trees = trees.flatMap walk := by
  induction trees with
  | nil => rfl
  | cons tree trees induction => rw [walkAll, induction, List.flatMap_cons]

theorem walkAll_append (first second : List CompositionTree) :
    walkAll (first ++ second) = walkAll first ++ walkAll second := by
  simp only [walkAll_eq_flatMap, List.flatMap_append]

/-- Whether a tree was grown by composing and extending, and what it led to is a world.
Between two compositions anything may happen that a machine can do. -/
inductive Grown : CompositionTree → World σ → Prop
  | procedure {world : World σ} {reference : ProcedureId}
      (plain : world.store.isPlain reference = true) : Grown (.procedure reference) world
  | table {world : World σ} {reference : ObjectId}
      (known : world.store.hasObject reference = true) : Grown (.table reference) world
  | composed {world later : World σ} {sources : List CompositionTree} {type : ProcedureId}
      (composer : Composer) (budget : Nat) (grown : ∀ source ∈ sources, Grown source world)
      (ran : (composer.compose (.ofBudget budget) (sources.map value)).run world =
        (.ok type, later)) :
      Grown (.composite type sources) later
  | extended {world later : World σ} {base : ProcedureId} {composite : Composite}
      {ingredients sources : List CompositionTree} {type : ProcedureId} (budget : Nat)
      (grownBase : Grown (.composite base ingredients) world)
      (found : world.store.composite? base = some composite)
      (grown : ∀ source ∈ sources, Grown source world)
      (ran : (composite.extend (.ofBudget budget) (sources.map value)).run world =
        (.ok type, later)) :
      Grown (.composite type (.composite base ingredients :: sources)) later
  | later {world later : World σ} {tree : CompositionTree} (grown : Grown tree world)
      (evolution : (Passage.evolution σ).leads world later) : Grown tree later

/-! ### Flattened constructors -/

def Flattened (store : Store) : CompositionTree → Prop
  | procedure reference => store.isPlain reference = true
  | table _ => True
  | composite type sources =>
      ∃ composite, store.composite? type = some composite ∧ composite.procedure = type ∧
        composite.bases.constructors = FirstSeen.ofList (walkAll sources)

theorem Flattened.extends {before after : Store} {tree : CompositionTree}
    (flattened : tree.Flattened before) (extends_ : before.Extends after) :
    tree.Flattened after := by
  cases tree with
  | procedure reference => exact extends_.isPlain flattened
  | table reference => trivial
  | composite type sources =>
      rcases flattened with ⟨composite, found, same, constructors⟩
      rcases extends_.composite? found with ⟨definer, kept⟩
      exact ⟨_, kept, same, constructors⟩

theorem sourceConstructors_eq {store : Store} {tree : CompositionTree}
    (flattened : tree.Flattened store) :
    FirstSeen.ofList (store.sourceConstructors tree.value) = FirstSeen.ofList tree.walk := by
  cases tree with
  | procedure reference => rw [value, Store.sourceConstructors_of_isPlain flattened, walk]
  | table reference => rfl
  | composite type sources =>
      rcases flattened with ⟨composite, found, _, constructors⟩
      rw [value, Store.sourceConstructors_of_composite? found, constructors, walk,
        FirstSeen.ofList_ofList]

theorem constructors_eq {store : Store} {sources : List CompositionTree}
    (flattened : ∀ source ∈ sources, source.Flattened store) :
    store.constructors (sources.map value) = FirstSeen.ofList (walkAll sources) := by
  rw [Store.constructors, List.flatMap_map, ← FirstSeen.ofList_flatMap_ofList, walkAll_eq_flatMap,
    ← FirstSeen.ofList_flatMap_ofList walk]
  congr 1
  exact List.flatMap_congr fun source member => sourceConstructors_eq (flattened source member)

theorem flattened_of_composed {budget : Nat} {composer : Composer} {world later : World σ}
    {sources : List CompositionTree} {type : ProcedureId}
    (flattened : ∀ source ∈ sources, source.Flattened world.store)
    (ran : (composer.compose (.ofBudget budget) (sources.map value)).run world =
      (.ok type, later)) :
    (composite type sources).Flattened later.store := by
  rcases Composer.compose_succeeded ran with ⟨prototype, merged, table, rfl, rfl⟩
  have evolution : world.store.Evolves merged.store := by
    have reached := composer.evolving_composeTable (Meaning.evolving_ofBudget budget)
      ((sources.map value).headD .undefined) (sources.map value).tail world
    rw [table] at reached
    exact reached.1
  refine ⟨_, composer.composite?_enterType _ prototype merged.store, rfl, ?_⟩
  exact constructors_eq fun source member =>
    (flattened source member).extends evolution.extends

theorem Grown.flattened {tree : CompositionTree} {world : World σ} (grown : tree.Grown world) :
    tree.Flattened world.store := by
  induction grown with
  | procedure plain => exact plain
  | table known => trivial
  | composed composer budget grown ran induction => exact flattened_of_composed induction ran
  | @extended world later base built ingredients sources type budget grownBase found grown ran
      inductionBase induction =>
      rcases inductionBase with ⟨known, foundKnown, same, constructors⟩
      rw [found] at foundKnown
      cases foundKnown
      rw [Composite.extend, same] at ran
      have flattened : ∀ source ∈ composite base ingredients :: sources,
          source.Flattened world.store := by
        intro source member
        rcases List.mem_cons.mp member with rfl | member
        · exact ⟨built, found, same, constructors⟩
        · exact induction source member
      exact flattened_of_composed flattened ran
  | later grown evolution induction => exact induction.extends evolution.1.extends

/-! ### Regrouping -/

/-- Whether a type came from another one by extending it with one group of sources after
the other, where anything may happen in between. -/
inductive ExtendedInTurn :
    ProcedureId → World σ → List (List CompositionTree) → ProcedureId → World σ → Prop
  | done (type : ProcedureId) (world : World σ) : ExtendedInTurn type world [] type world
  | extend {type next last : ProcedureId} {world start later final : World σ}
      {composite : Composite} {group : List CompositionTree}
      {groups : List (List CompositionTree)} (budget : Nat)
      (evolution : (Passage.evolution σ).leads world start)
      (found : start.store.composite? type = some composite)
      (ran : (composite.extend (.ofBudget budget) (group.map value)).run start =
        (.ok next, later))
      (rest : ExtendedInTurn next later groups last final) :
      ExtendedInTurn type world (group :: groups) last final

theorem leads_compose {budget : Nat} {composer : Composer} {world later : World σ}
    {sources : List Value} {type : ProcedureId}
    (ran : (composer.compose (.ofBudget budget) sources).run world = (.ok type, later)) :
    (Passage.evolution σ).leads world later := by
  have reached := composer.evolving_compose (Meaning.evolving_ofBudget budget) sources world
  rw [ran] at reached
  exact reached

theorem ExtendedInTurn.grown {type last : ProcedureId} {world final : World σ}
    {groups : List (List CompositionTree)} (extended : ExtendedInTurn type world groups last final)
    {sources : List CompositionTree} (grown : (composite type sources).Grown world)
    (grownGroups : ∀ group ∈ groups, ∀ source ∈ group, source.Grown world) :
    ∃ all, (composite last all).Grown final ∧
      walkAll all = walkAll sources ++ walkAll groups.flatten := by
  induction extended generalizing sources with
  | done type world => exact ⟨sources, grown, by simp [walkAll]⟩
  | @extend type next last world start later final built group groups budget evolution found ran
      rest induction =>
      have grownNext : (composite next (composite type sources :: group)).Grown later :=
        .extended budget (grown.later evolution) found
          (fun source member =>
            (grownGroups group (List.mem_cons_self ..) source member).later evolution) ran
      have onward := (Passage.evolution σ).trans evolution (leads_compose ran)
      rcases induction grownNext fun other member source inside =>
        (grownGroups other (List.mem_cons_of_mem _ member) source inside).later onward with
        ⟨all, grownLast, walked⟩
      refine ⟨all, grownLast, ?_⟩
      rw [walked, walkAll, walk, List.flatten_cons, walkAll_append, List.append_assoc]

theorem Grown.constructors {type : ProcedureId} {sources : List CompositionTree}
    {world : World σ} (grown : (composite type sources).Grown world) :
    ∃ built, world.store.composite? type = some built ∧
      built.bases.constructors = (walkAll sources).eraseDups := by
  rcases grown.flattened with ⟨built, found, _, constructors⟩
  exact ⟨built, found, by rw [constructors, FirstSeen.ofList_eq_eraseDups]⟩

/-- A type holds the constructors met on a walk of its composition tree, each at its
first occurrence. Hence it makes no difference whether a type is extended with groups
of sources in turn, or composed with all of them at once. -/
theorem constructors_eq_eraseDups_walk {type : ProcedureId} {sources : List CompositionTree}
    {world : World σ} (grown : (composite type sources).Grown world) :
    (∃ built, world.store.composite? type = some built ∧
      built.bases.constructors = (walkAll sources).eraseDups ∧
      built.bases.constructors.Nodup) ∧
    ∀ (groups : List (List CompositionTree)) (composer : Composer) (budget : Nat)
      (start after final : World σ) (last whole : ProcedureId),
      (∀ group ∈ groups, ∀ source ∈ group, source.Grown world) →
      ExtendedInTurn type world groups last final →
      (Passage.evolution σ).leads world start →
      (composer.compose (.ofBudget budget)
        (.procedure type :: groups.flatten.map value)).run start = (.ok whole, after) →
      ∃ extended composed, final.store.composite? last = some extended ∧
        after.store.composite? whole = some composed ∧
        extended.bases.constructors = composed.bases.constructors := by
  refine ⟨?_, ?_⟩
  · rcases grown.constructors with ⟨built, found, constructors⟩
    refine ⟨built, found, constructors, ?_⟩
    rw [constructors, ← FirstSeen.ofList_eq_eraseDups]
    exact FirstSeen.nodup_ofList _
  · intro groups composer budget start after final last whole grownGroups extension evolution ran
    rcases extension.grown grown grownGroups with ⟨all, grownLast, walked⟩
    have grownWhole : (composite whole (composite type sources :: groups.flatten)).Grown after := by
      refine .composed composer budget (fun source member => ?_) ran
      rcases List.mem_cons.mp member with rfl | member
      · exact grown.later evolution
      · rcases List.mem_flatten.mp member with ⟨group, inside, member⟩
        exact (grownGroups group inside source member).later evolution
    rcases grownLast.constructors with ⟨extended, foundLast, constructorsLast⟩
    rcases grownWhole.constructors with ⟨composed, foundWhole, constructorsWhole⟩
    refine ⟨extended, composed, foundLast, foundWhole, ?_⟩
    rw [constructorsLast, constructorsWhole, walked, walkAll, walk]

/-! A diamond: two types share the second of three plain procedures, and one is extended
with the other and then with what it has already. -/

def diamondRoots : World Unit where
  store := { Store.initial with
    procedures := Store.initial.procedures ++
      #[{ body := .code ⟨0⟩ }, { body := .code ⟨1⟩ }, { body := .code ⟨2⟩ }] }
  state := ()

def composing (sources : List CompositionTree) : Action Unit ProcedureId :=
  ({} : Composer).compose (.ofBudget 0) (sources.map value)

def diamondLeft : World Unit :=
  ((composing [procedure ⟨1⟩, procedure ⟨2⟩]).run diamondRoots).2

def diamond : World Unit :=
  ((composing [procedure ⟨2⟩, procedure ⟨3⟩]).run diamondLeft).2

def extending (world : World Unit) (type : ProcedureId) (sources : List CompositionTree) :
    Action Unit ProcedureId :=
  (world.store.composite? type).get!.extend (.ofBudget 0) (sources.map value)

def diamondExtended : World Unit :=
  ((extending diamond ⟨4⟩ [composite ⟨5⟩ [procedure ⟨2⟩, procedure ⟨3⟩]]).run diamond).2

theorem constructors_eq_eraseDups_walk_of_diamond :
    ∃ built extended composed : Composite, ∃ stepwise whole : World Unit,
      diamond.store.composite? ⟨4⟩ = some built ∧
      built.bases.constructors = [⟨1⟩, ⟨2⟩] ∧
      stepwise.store.composite? ⟨7⟩ = some extended ∧
      whole.store.composite? ⟨6⟩ = some composed ∧
      extended.bases.constructors = composed.bases.constructors := by
  have root (index : Fin 3) : (procedure ⟨index + 1⟩).Grown diamondRoots :=
    .procedure (by revert index; decide)
  have ranLeft := Action.run_eq_of_toOption (composing [procedure ⟨1⟩, procedure ⟨2⟩])
    diamondRoots ⟨4⟩ (by decide +kernel)
  have ranRight := Action.run_eq_of_toOption (composing [procedure ⟨2⟩, procedure ⟨3⟩])
    diamondLeft ⟨5⟩ (by decide +kernel)
  have left : (composite ⟨4⟩ [procedure ⟨1⟩, procedure ⟨2⟩]).Grown diamondLeft := by
    refine .composed {} 0 (fun source member => ?_) ranLeft
    rcases List.mem_pair.mp member with rfl | rfl
    · exact root 0
    · exact root 1
  have right : (composite ⟨5⟩ [procedure ⟨2⟩, procedure ⟨3⟩]).Grown diamond := by
    refine .composed {} 0 (fun source member => ?_) ranRight
    rcases List.mem_pair.mp member with rfl | rfl
    · exact (root 1).later (leads_compose ranLeft)
    · exact (root 2).later (leads_compose ranLeft)
  have ranFirst := Action.run_eq_of_toOption
    (extending diamond ⟨4⟩ [composite ⟨5⟩ [procedure ⟨2⟩, procedure ⟨3⟩]]) diamond ⟨6⟩
    (by decide +kernel)
  have ranSecond := Action.run_eq_of_toOption
    (extending diamondExtended ⟨6⟩ [procedure ⟨1⟩, procedure ⟨3⟩]) diamondExtended ⟨7⟩
    (by decide +kernel)
  have foundFirst := (Option.some_get! (diamond.store.composite? ⟨4⟩) (by decide +kernel)).symm
  have foundSecond :=
    (Option.some_get! (diamondExtended.store.composite? ⟨6⟩) (by decide +kernel)).symm
  have ranWhole := Action.run_eq_of_toOption
    (({} : Composer).compose (.ofBudget 0)
      [.procedure ⟨4⟩, .procedure ⟨5⟩, .procedure ⟨1⟩, .procedure ⟨3⟩]) diamond ⟨6⟩
    (by decide +kernel)
  have extension : ExtendedInTurn ⟨4⟩ diamond
      [[composite ⟨5⟩ [procedure ⟨2⟩, procedure ⟨3⟩]], [procedure ⟨1⟩, procedure ⟨3⟩]] ⟨7⟩ _ :=
    .extend 0 ((Passage.evolution Unit).refl _) foundFirst ranFirst
      (.extend 0 ((Passage.evolution Unit).refl _) foundSecond ranSecond (.done _ _))
  have early : (Passage.evolution Unit).leads diamondRoots diamond :=
    (Passage.evolution Unit).trans (leads_compose ranLeft) (leads_compose ranRight)
  have grownGroups : ∀ group ∈ [[composite ⟨5⟩ [procedure ⟨2⟩, procedure ⟨3⟩]],
      [procedure ⟨1⟩, procedure ⟨3⟩]], ∀ source ∈ group, source.Grown diamond := by
    intro group inside source member
    rcases List.mem_pair.mp inside with rfl | rfl
    · rw [List.mem_singleton.mp member]
      exact right
    · rcases List.mem_pair.mp member with rfl | rfl
      · exact (root 0).later early
      · exact (root 2).later early
  rcases constructors_eq_eraseDups_walk (left.later (leads_compose ranRight)) with
    ⟨⟨built, found, constructors, _⟩, regrouped⟩
  rcases regrouped _ {} 0 diamond _ _ ⟨7⟩ ⟨6⟩ grownGroups extension
      ((Passage.evolution Unit).refl _) ranWhole with
    ⟨extended, composed, foundExtended, foundComposed, same⟩
  exact ⟨built, extended, composed, _, _, found, constructors, foundExtended, foundComposed, same⟩

end CompositionTree

end TraitComposition
