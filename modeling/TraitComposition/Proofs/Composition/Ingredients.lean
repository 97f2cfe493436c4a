import TraitComposition.Proofs.Composition.Installations
import TraitComposition.Proofs.Composition.Reporting
import TraitComposition.Proofs.Machine.Sheltering

/-!
Composition leaves its ingredients alone. All that composing, extending and mixing in write
to is the destination of the merge, which is new unless it is the object that was to be
changed, and objects made on the way. So whatever comes of it, what was there before owns
what it owned, as long as the procedures that are run on the way leave it alone.
-/
namespace TraitComposition

variable {σ : Type}

/-! ### Calls that compose

Three calls compose: composing sources, extending a type and mixing into an object. Whatever is
there when the call is made is an ingredient, but for the object that it is to change. -/

/-- A call of the library that merges sources: into the table of a new type, with or without
a type in front, or into an object. -/
inductive Composing where
  | compose (composer : Composer) (sources : List Value)
  | extend (type : Composite) (sources : List Value)
  | mixinInto (composer : Composer) (target : ObjectId) (sources : List Value)

namespace Composing

def request : Composing → Request
  | compose composer sources => .compose composer sources
  | extend type sources => .extend type sources
  | mixinInto composer target sources => .mixinInto composer target sources

def perform (call : Composing) (meaning : Meaning σ) : Action σ call.request.Answer :=
  call.request.perform meaning

def sources : Composing → List Value
  | compose _ sources | extend _ sources | mixinInto _ _ sources => sources

/-- The position of the first source listed. What they are composed with comes before it. -/
def offset : Composing → Nat
  | compose .. => 0
  | extend .. | mixinInto .. => 1

def destination? : Composing → Option ObjectId
  | mixinInto _ target _ => some target
  | compose .. | extend .. => none

end Composing

def Store.IsIngredient (store : Store) (call : Composing) (object : ObjectId) : Prop :=
  store.hasObject object = true ∧ call.destination? ≠ some object

instance (store : Store) (call : Composing) : DecidablePred (store.IsIngredient call) :=
  fun object =>
    inferInstanceAs (Decidable (store.hasObject object = true ∧ call.destination? ≠ some object))

/-! ### Sources that cannot be composed -/

namespace Sources

private theorem invalidFrom_append (position : Nat) {valid : List Value}
    (composable : ∀ source ∈ valid, source.isSource = true) (rest : List Value) :
    invalidFrom position (valid ++ rest) = invalidFrom (position + valid.length) rest := by
  induction valid generalizing position with
  | nil => rfl
  | cons source valid induction =>
      rw [List.forall_mem_cons] at composable
      have later := induction (position + 1) composable.2
      rw [List.length_cons, ← Nat.succ_add_eq_add_succ, ← Nat.add_one, ← later]
      cases source with
      | procedure | object => rfl
      | _ => cases composable.1

theorem invalidFrom_of_not_isSource (position : Nat) {source : Value}
    (refused : source.isSource = false) (rest : List Value) :
    invalidFrom position (source :: rest) = some (.invalidInput position source.typeName) := by
  cases source with
  | procedure | object => cases refused
  | _ => rfl

theorem validate_of_not_isSource (offset : Nat) {valid : List Value}
    (composable : ∀ source ∈ valid, source.isSource = true) {source : Value}
    (refused : source.isSource = false) (rest : List Value) :
    validate (valid ++ source :: rest) offset =
      .error (.invalidInput (offset + valid.length) source.typeName) := by
  have nonempty : (valid ++ source :: rest).isEmpty = false := by simp
  rw [validate, nonempty, invalidFrom_append offset composable,
    invalidFrom_of_not_isSource _ refused]
  rfl

end Sources

namespace Composer

private theorem run_compose_of_invalid (composer : Composer) (meaning : Meaning σ)
    {sources : List Value}
    {fault : Fault} (invalid : Sources.validate sources 0 = .error fault) (world : World σ) :
    (composer.compose meaning sources).run world = (.error fault, world) := by
  rw [compose, invalid]
  rfl

theorem run_mixinInto_of_invalid (composer : Composer) (meaning : Meaning σ) (target : ObjectId)
    {sources : List Value} {fault : Fault}
    (invalid : Sources.validate sources 1 = .error fault) (world : World σ) :
    (composer.mixinInto meaning target sources).run world = (.error fault, world) := by
  rw [mixinInto, invalid]
  rfl

end Composer

theorem Composing.run_perform_of_not_isSource (call : Composing) (meaning : Meaning σ)
    {valid rest : List Value} {source : Value} (listed : call.sources = valid ++ source :: rest)
    (composable : ∀ source ∈ valid, source.isSource = true)
    (refused : source.isSource = false) (world : World σ) :
    (call.perform meaning).run world =
      (.error (.invalidInput (call.offset + valid.length) source.typeName), world) := by
  cases call with
  | compose composer sources =>
      cases listed
      exact composer.run_compose_of_invalid meaning
        (Sources.validate_of_not_isSource 0 composable refused rest) world
  | extend type sources =>
      cases listed
      have first : ∀ source ∈ Value.procedure type.procedure :: valid, source.isSource = true :=
        List.forall_mem_cons.mpr ⟨rfl, composable⟩
      have invalid := Sources.validate_of_not_isSource 0 first refused rest
      rw [List.length_cons, Nat.zero_add, Nat.add_comm] at invalid
      exact type.composer.run_compose_of_invalid meaning invalid world
  | mixinInto composer target sources =>
      cases listed
      exact composer.run_mixinInto_of_invalid meaning target
        (Sources.validate_of_not_isSource 1 composable refused rest) world

/-! ### What is written to -/

section Keeping

open TraitComposition.Action (Follows)

variable {kept : ObjectId → Prop} {meaning : Meaning σ} (shelters : meaning.Shelters kept)

theorem Composer.keeping_report (composer : Composer) (conflicts : List Conflict) :
    Follows (Passage.keeping σ kept) (composer.report conflicts) := by
  intro world
  rw [run_report]
  exact .of_all fun target => Store.changesOnly_reportAll _ _ _ target

private theorem Sources.keeping_delegate (base : Value) :
    Follows (Passage.keeping σ kept) (delegate base) := by
  have creates (parent : Option ObjectId) :
      Follows (Passage.keeping σ kept) (Action.edit (·.createObject parent)) :=
    Action.keeping_edit fun store => .of_createObject store parent
  unfold delegate
  split
  · exact creates _
  · exact Follows.bind (Merge.asks_keeping _) fun table => creates (some table)
  · exact Follows.throw _

theorem Store.keeps_enterType (composer : Composer) (sources : List Value) (prototype : ObjectId)
    (world : World σ) :
    world.store.Keeps kept (composer.enterType sources prototype world.store).2 :=
  (Merge.asks_keeping.prototypes (Composer.chainSources prototype sources) world).trans
    (.of_all fun target => .of_addComposite _ _ _ _ target)

include shelters

theorem Definer.keeping_ofValue (value : Value) :
    Follows (Passage.keeping σ kept) (ofValue meaning value) := by
  unfold ofValue
  split
  · apply Follows.bind (Member.follows_read shelters.call _ _)
    intro found
    split
    · exact Follows.pure _
    · exact Follows.pure _
  · apply Follows.bind Follows.getStore
    intro store
    split
    · exact Follows.pure _
    · exact Follows.pure _
  · exact Follows.pure _

theorem Composer.keeping_merge (composer : Composer) {target : ObjectId} (apart : ¬kept target)
    (sources : List Value) (definer : Definer) :
    Follows (Passage.keeping σ kept) (do
      composer.report (← mixin meaning target sources definer)
      return target) :=
  Follows.bind (keeping_mixin apart shelters.call
    (fun hook name => shelters.install_of_apart apart hook name) sources definer) fun conflicts =>
      Follows.bind (composer.keeping_report conflicts) fun _ => Follows.pure _

private theorem Composer.keeping_mixinInto (composer : Composer) {target : ObjectId}
    (apart : ¬kept target) (sources : List Value) :
    Follows (Passage.keeping σ kept) (composer.mixinInto meaning target sources) :=
  Follows.bind (Follows.ofExcept _) fun _ =>
    Follows.bind (Definer.keeping_ofValue shelters _) fun definer =>
      composer.keeping_merge shelters apart sources definer

variable {world : World σ} (present : ∀ object, kept object → world.store.hasObject object = true)

include present

theorem Composer.keeps_composeTable (composer : Composer) (base : Value) (sources : List Value) :
    world.store.Keeps kept ((composer.composeTable meaning base sources).run world).2.store := by
  unfold composeTable
  split
  · exact .refl kept world.store
  · have begins : (Passage.keeping σ kept).leads world ((Sources.delegate base).run world).2 :=
      Sources.keeping_delegate base world
    rw [Action.run_bind]
    rcases delegated : (Sources.delegate base).run world with ⟨fault | target, begun⟩
    · rwa [delegated] at begins
    · rw [delegated] at begins
      have apart : ¬kept target := fun sheltered => by
        have known := present target sheltered
        rw [Sources.fresh_of_delegate delegated] at known
        cases known
      exact begins.trans (Follows.bind (Definer.keeping_ofValue shelters base)
        (fun definer => composer.keeping_merge shelters apart sources definer) begun)

private theorem Composer.keeps_compose (composer : Composer) (sources : List Value) :
    world.store.Keeps kept ((composer.compose meaning sources).run world).2.store := by
  have composed := composer.keeps_composeTable shelters present (sources.headD .undefined)
    sources.tail
  cases valid : Sources.validate sources 0 with
  | error fault =>
      rw [composer.run_compose_of_invalid meaning valid]
      exact .refl kept world.store
  | ok _ =>
      rw [composer.run_compose meaning valid]
      rcases ran : (composer.composeTable meaning (sources.headD .undefined)
        sources.tail).run world with ⟨fault | prototype, later⟩
      · rwa [ran] at composed
      · rw [ran] at composed
        exact composed.trans (Store.keeps_enterType composer sources prototype later)

theorem Composing.keeps_perform (call : Composing)
    (apart : ∀ target, call.destination? = some target → ¬kept target) :
    world.store.Keeps kept ((call.perform meaning).run world).2.store := by
  cases call with
  | compose composer sources => exact composer.keeps_compose shelters present sources
  | extend type sources => exact type.composer.keeps_compose shelters present _
  | mixinInto composer target sources =>
      exact composer.keeping_mixinInto shelters (apart target rfl) sources world

end Keeping

/-! ### What stays -/

theorem Store.Extends.bases?_eq {before after : Store} (extends_ : before.Extends after)
    {type : ProcedureId} {bases : Bases} (found : before.bases? type = some bases) :
    after.bases? type = some bases := by
  have known : before.hasProcedure type = true := by
    cases known : before.hasProcedure type with
    | true => rfl
    | false =>
        rw [bases?, procedure_of_not_hasProcedure known] at found
        cases found
  have same := extends_.body known
  unfold bases? at found ⊢
  rw [same]
  split at found
  · next reference _ =>
    rcases Option.map_eq_some_iff.mp found with ⟨composite, made, rfl⟩
    rcases extends_.composite reference composite made with ⟨definer, kept⟩
    exact Option.map_eq_some_iff.mpr ⟨_, kept, rfl⟩
  · exact found
  · cases found

private theorem Composing.evolving_perform (call : Composing) {meaning : Meaning σ}
    (evolving : meaning.Evolving) : (call.perform meaning).Evolving :=
  Passage.bears_evolution.follows_perform evolving.within trivial

/-- Composing, extending and mixing in leave their ingredients alone, whatever comes of it:
if no procedure that is run on the way changes one, every object that was there before, other
than the one that is to be changed, owns the same members, in the same order. So do the
flattened bases of every type stay what they are. Of sources that cannot be composed the
first one is rejected before anything is called, installed, defined or reported. -/
theorem Composing.ingredients_stay (call : Composing) (budget : Nat) (world : World σ) :
    (Harmless (world.store.IsIngredient call) call.perform budget world →
      ∀ object, world.store.IsIngredient call object →
        ((call.perform (.ofBudget budget)).run world).2.store.members object =
          world.store.members object) ∧
    (∀ type bases, world.store.bases? type = some bases →
      ((call.perform (.ofBudget budget)).run world).2.store.bases? type = some bases) ∧
    (∀ valid source rest, call.sources = valid ++ source :: rest →
      (∀ source ∈ valid, source.isSource = true) → source.isSource = false →
      ∀ meaning : Meaning σ, (call.perform meaning).run world =
        (.error (.invalidInput (call.offset + valid.length) source.typeName), world)) := by
  refine ⟨fun harmless object ingredient => ?_, fun type bases found => ?_, ?_⟩
  · have keeps := call.keeps_perform (Meaning.shelters_sheltering (world.store.IsIngredient call)
      budget) (fun object ingredient => ingredient.1)
      (fun target equal ingredient => ingredient.2 equal)
    rw [harmless] at keeps
    exact keeps.members object ingredient.1 ingredient
  · have evolution := call.evolving_perform (Meaning.evolving_ofBudget budget) world
    exact evolution.1.extends.bases?_eq found
  · intro valid source rest listed composable refused meaning
    exact call.run_perform_of_not_isSource meaning listed composable refused world

theorem Layer.run_weave_congr {first second : Meaning σ} {world : World σ} {reference : LayerId}
    {layer : Layer} {weaver : CodeId} {otherwise : Fault}
    (found : world.store.layer reference = some layer)
    (around : layer.advice = .around weaver otherwise) {base : Option ProcedureId}
    (entered : (first.enter weaver (.weave base)).run world =
      (second.enter weaver (.weave base)).run world) :
    (weave first reference base).run world = (weave second reference base).run world := by
  rw [weave, weave, Action.run_getStore_bind, Action.run_getStore_bind, found, Option.map_some,
    around]
  apply Action.run_bind_congr
  rw [Action.run_outcome, Action.run_outcome, entered]

private theorem Weave.run_build_congr {first second : Meaning σ} {world : World σ}
    {root : Option ProcedureId} {reference : LayerId}
    (woven : (Layer.weave first reference root).run world =
      (Layer.weave second reference root).run world) :
    (build first ⟨root, [reference]⟩).run world = (build second ⟨root, [reference]⟩).run world :=
  Action.run_bind_congr (Action.run_bind_congr woven _) _

theorem Decorator.run_installWeave_congr {first second : Meaning σ} {world : World σ}
    {weave stacked : Weave} {target : ObjectId} {name : String}
    (stacking : world.store.stackWeaves (world.store.weaveOf (world.store.dataValue? target name))
      weave = stacked)
    (built : (stacked.build first).run world = (stacked.build second).run world)
    (setterless : (((stacked.build second).run world).2.store.descriptor? target name).bind
      Descriptor.setter? = none) :
    (installWeave first weave target name).run world =
      (installWeave second weave target name).run world := by
  rw [installWeave, installWeave, Action.run_getStore_bind, Action.run_getStore_bind]
  simp only [stacking]
  rw [Action.run_bind, Action.run_bind, built]
  rcases ran : (stacked.build second).run world with ⟨fault | _ | advised, later⟩
  · rfl
  · rfl
  · rw [ran] at setterless
    exact Member.run_assign_of_setterless setterless first second _

def advising : World Unit where
  store := {
    objects := #[
      { members := MemberTable.empty.insert "n" (.ofValue (.procedure ⟨1⟩)) },
      { members := MemberTable.empty.insert "n" (.ofValue (.procedure ⟨2⟩)) }]
    procedures := #[
      { body := .required }, { body := .code ⟨0⟩ },
      { body := .unapplied none, hook := some (.weave (.single ⟨0⟩)) }]
    layers := #[{ advice := .around ⟨0⟩ (.thrown "nothing to call") }] }
  codes := #[fun _ => .ask (.createObject (some ⟨0⟩)) fun _ => .done (.ok (.procedure ⟨1⟩))]
  state := ()

def composingAdvised : Composing :=
  .compose {} [.object ⟨0⟩, .object ⟨1⟩]

def advisingBegun : World Unit :=
  { advising with store := (advising.store.createObject (some ⟨0⟩)).2 }

def advisingSheltered (budget : Nat) : Meaning Unit :=
  .sheltering (advising.store.IsIngredient composingAdvised) budget

private theorem run_mixin_advising (meaning : Meaning Unit) :
    (mixin meaning ⟨2⟩ [.object ⟨1⟩] .raw).run advisingBegun =
      (meaning.install (.weave (.single ⟨0⟩)) ⟨2⟩ "n" >>= fun _ => pure []).run advisingBegun := by
  have names : advisingBegun.store.enumerableNames ⟨1⟩ = ["n"] := by decide +kernel
  have found : advisingBegun.store.lookup ⟨1⟩ "n" = some (⟨1⟩, .ofValue (.procedure ⟨2⟩)) := rfl
  rw [Merge.run_mixin_of_table, names]
  simp only [List.foldlM_cons, List.foldlM_nil, bind_pure]
  exact Merge.run_mixMember_of_hook meaning _ [] found rfl rfl

private theorem run_composeTable_advising (meaning : Meaning Unit) :
    (Composer.composeTable meaning {} (.object ⟨0⟩) [.object ⟨1⟩]).run advising =
      (mixin meaning ⟨2⟩ [.object ⟨1⟩] .raw >>= fun conflicts =>
        ({} : Composer).report conflicts >>= fun _ => pure ⟨2⟩).run advisingBegun := by
  change (Sources.delegate (.object ⟨0⟩) >>= _).run advising = _
  rw [Sources.delegate, Action.run_edit_bind,
    Action.run_bind_of_ok _ (Definer.run_ofValue_of_missing meaning (by decide +kernel))]
  rfl

theorem harmless_advising : Harmless (advising.store.IsIngredient composingAdvised)
    composingAdvised.perform 2 advising := by
  have entered : ((advisingSheltered 1).enter ⟨0⟩ (.weave (some ⟨1⟩))).run advisingBegun =
      ((Meaning.ofBudget 1).enter ⟨0⟩ (.weave (some ⟨1⟩))).run advisingBegun :=
    Action.run_puttingBack_of_keeps (.of_createObject _ (some ⟨0⟩))
  have woven : (Layer.weave (advisingSheltered 1) ⟨0⟩ (some ⟨1⟩)).run advisingBegun =
      (Layer.weave (.ofBudget 1) ⟨0⟩ (some ⟨1⟩)).run advisingBegun :=
    Layer.run_weave_congr rfl rfl entered
  have installed :
      ((advisingSheltered 2).install (.weave (.single ⟨0⟩)) ⟨2⟩ "n").run advisingBegun =
        ((Meaning.ofBudget 2).install (.weave (.single ⟨0⟩)) ⟨2⟩ "n").run advisingBegun :=
    Decorator.run_installWeave_congr (by decide +kernel) (Weave.run_build_congr woven)
      (by decide +kernel)
  have mixed : (mixin (advisingSheltered 2) ⟨2⟩ [.object ⟨1⟩] .raw).run advisingBegun =
      (mixin (.ofBudget 2) ⟨2⟩ [.object ⟨1⟩] .raw).run advisingBegun := by
    rw [run_mixin_advising, run_mixin_advising, Action.run_bind_congr installed]
  have tables :
      (Composer.composeTable (advisingSheltered 2) {} (.object ⟨0⟩) [.object ⟨1⟩]).run advising =
        (Composer.composeTable (.ofBudget 2) {} (.object ⟨0⟩) [.object ⟨1⟩]).run advising := by
    rw [run_composeTable_advising, run_composeTable_advising, Action.run_bind_congr mixed]
  have valid : Sources.validate [.object ⟨0⟩, .object ⟨1⟩] 0 = .ok () := rfl
  change (Composer.compose (advisingSheltered 2) {} [.object ⟨0⟩, .object ⟨1⟩]).run advising =
    (Composer.compose (.ofBudget 2) {} [.object ⟨0⟩, .object ⟨1⟩]).run advising
  rw [Composer.run_compose _ _ valid, Composer.run_compose _ _ valid, List.headD_cons,
    List.tail_cons, tables]

/-- The weaver that is run makes an object, and leaves the two tables alone. -/
theorem Composing.ingredients_stay_of_advice :
    Harmless (advising.store.IsIngredient composingAdvised) composingAdvised.perform 2 advising ∧
      ∃ type later, (composingAdvised.perform (.ofBudget 2)).run advising = (.ok type, later) ∧
        later.store.hasObject ⟨3⟩ = true ∧
        later.store.members ⟨0⟩ = advising.store.members ⟨0⟩ ∧
        later.store.members ⟨1⟩ = advising.store.members ⟨1⟩ := by
  have ran : (composingAdvised.perform (.ofBudget 2)).run advising = (.ok ⟨5⟩, _) :=
    Action.run_eq_of_toOption (Composer.compose (.ofBudget 2) {} [.object ⟨0⟩, .object ⟨1⟩])
      advising ⟨5⟩ (by decide +kernel)
  have stays := (composingAdvised.ingredients_stay 2 advising).1 harmless_advising
  rw [ran] at stays
  exact ⟨harmless_advising, _, _, ran, by decide +kernel, stays ⟨0⟩ (by decide),
    stays ⟨1⟩ (by decide)⟩

end TraitComposition
