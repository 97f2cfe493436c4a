import TraitComposition.Proofs.Composition.Fulfillment
import TraitComposition.Proofs.Composition.Installations
import TraitComposition.Proofs.Merge.FinalTable

/-!
Aliases of traits in compositions. What a trait resolved a member to when the alias was made is what
the new type owns under the name of the alias, whatever has become of the trait since and whatever
else is merged. An alias that finds nothing, neither then nor when it is installed, keeps the
composition from succeeding.
-/
namespace TraitComposition

open TraitComposition.Action (succeeded_of_bind)

variable {σ : Type}

/-- Whether an object shows a decorator, or another procedure, as the method of an enumerable
name. -/
structure Store.Binds (store : Store) (table : ObjectId) (name : String)
    (method : ProcedureId) : Prop where
  listed : name ∈ store.enumerableNames table
  shown : (store.descriptor? table name).bind Descriptor.method? = some method

private theorem Store.Binds.later {before after : Store} {target table : ObjectId} {name : String}
    {method : ProcedureId} (binds : before.Binds table name method)
    (changes : ChangesOnly target before after) (rooted : before.Rooted)
    (known : before.hasObject table = true) (apart : target ∉ before.ancestry table) :
    after.Binds table name method where
  listed := by
    rw [changes.enumerableNames_eq rooted known apart]
    exact binds.listed
  shown := by
    rw [changes.descriptor?_eq rooted known apart]
    exact binds.shown

theorem Decorator.hook_of_createAlias {trait : Value} {member : String} {world made : World σ}
    {decorator : ProcedureId}
    (created : (createAlias (.trait trait) (some member)).run world = (.ok decorator, made)) :
    made.store.hasProcedure decorator = true ∧
      (made.store.procedure decorator).hook = some (.aliased (.trait trait) (some member)
        (world.store.traitDescriptor trait member).1) := by
  simp only [createAlias, create, Action.run_edit_bind, Action.run_edit] at created
  cases created
  exact ⟨Store.hasProcedure_addProcedure_self _ _,
    congrArg Procedure.hook (Store.procedure_addProcedure_self _ _)⟩

namespace Merge

variable {meaning : Meaning σ} {plan : Plan} {sources : List Value} {table : ObjectId}
  {name : String} {begun front : World σ}

/-- Whether a merge gets to the turn of a name of the bare table that comes last: the sources before
the table are merged, and then what comes before the name in the table. -/
def Arrives (meaning : Meaning σ) (plan : Plan) (sources : List Value) (table : ObjectId)
    (name : String) (begun front : World σ) : Prop :=
  ∃ held turn passed, (mixSources meaning plan 0 sources []).run begun = (.ok held, turn) ∧
    Comes meaning plan table held turn name passed front

theorem Arrives.run_of_failed {fault : Fault} {later : World σ}
    (arrives : Arrives meaning plan sources table name begun front)
    (failed : ∀ passed, (mixMember meaning plan table name passed).run front =
      (.error fault, later)) :
    (mixSources meaning plan 0 (sources ++ [.object table]) []).run begun =
      (.error fault, later) := by
  rcases arrives with ⟨held, turn, passed, ran, before, after, split, came⟩
  have last : (mixSource meaning plan (0 + sources.length) (.object table) held).run turn =
      (.error fault, later) := by
    rw [mixSource, Action.run_getStore_bind, split, List.foldlM_append,
      Action.run_bind_of_ok _ came, List.foldlM_cons]
    exact Action.run_bind_of_error _ (failed passed)
  rw [mixSources_append, Action.run_bind_of_ok _ ran]
  exact Action.run_bind_of_error _ last

section Uncalled

variable {budget : Nat} (known : begun.store.hasObject plan.target = true)

include known

theorem changes_of_mixSources {held : List Conflict} {turn : World σ}
    (ran : (mixSources (.uncalled budget) plan 0 sources []).run begun = (.ok held, turn)) :
    Store.ChangesOnly plan.target begun.store turn.store := by
  have gains := gaining_mixSources (Meaning.installsGain_uncalled budget) plan 0 sources []
    begun known
  rw [ran] at gains
  exact gains.toChangesOnly

private theorem Arrives.changes
    (arrives : Arrives (.uncalled budget) plan sources table name begun front) :
    Store.ChangesOnly plan.target begun.store front.store := by
  rcases arrives with ⟨held, turn, passed, ran, before, after, split, came⟩
  have first := changes_of_mixSources known ran
  have gains : Action.Follows (Passage.gaining σ plan.target fun _ => True) (before.foldlM
      (fun held other => mixMember (.uncalled budget) plan table other held) held) :=
    Action.Follows.foldlM (fun held other => (respects_gaining plan
      (Meaning.installsGain_uncalled budget) trivial).mixMember table held) before held
  have rest := gains turn (first.extends_.object _ known).1
  rw [came] at rest
  exact first.trans rest.toChangesOnly

omit known in
private theorem Arrives.upheld
    (arrives : Arrives (.uncalled budget) plan sources table name begun front) :
    Arrives (.ofBudget budget) plan sources table name begun front := by
  rcases arrives with ⟨held, turn, passed, ran, before, after, split, came⟩
  have upheld := Meaning.upheldBy_uncalled (σ := σ) budget
  refine ⟨held, turn, passed, upheld_mixSources upheld plan 0 sources [] _ _ _ ran, before, after,
    split, ?_⟩
  exact Action.UpheldBy.foldlM (fun held other => upheld_mixMember upheld plan table other held)
    before held turn passed front came

end Uncalled

section Alias

variable {budget : Nat} {decorator : ProcedureId} {source : AliasSource} {member : Option String}
  {captured : Option Descriptor} (rooted : begun.store.Rooted)
  (known : begun.store.hasObject plan.target = true)
  (there : begun.store.hasObject table = true) (apart : plan.target ∉ begun.store.ancestry table)
  (binds : begun.store.Binds table name decorator)
  (made : begun.store.hasProcedure decorator = true)
  (hooked : (begun.store.procedure decorator).hook = some (.aliased source member captured))

include rooted known there apart binds made hooked

theorem exists_arrives_of_alias {conflicts : List Conflict} {later : World σ}
    (ran : (mixSources (.uncalled budget) plan 0 (sources ++ [.object table]) []).run begun =
      (.ok conflicts, later)) :
    ∃ front found, Arrives (.ofBudget budget) plan sources table name begun front ∧
      front.store.aliased? source member captured plan.target name = some found ∧
      later.store.ownDescriptor? plan.target name = some found := by
  rw [mixSources_append] at ran
  rcases succeeded_of_bind ran with ⟨held, turn, ranSources, ranTable⟩
  rw [mixSources] at ranTable
  rcases succeeded_of_bind ranTable with ⟨_, _, ranLast, done⟩
  cases done
  have changes := changes_of_mixSources known ranSources
  have bindsThen := binds.later changes rooted there apart
  rcases Option.bind_eq_some_iff.mp bindsThen.shown with ⟨descriptor, resolved, holds⟩
  rcases Store.mem_enumerableNames_iff.mp bindsThen.listed with ⟨_, same, enumerable⟩
  obtain rfl := Option.some.inj (resolved.symm.trans same)
  rcases decides_alias (changes.extends_.object _ known).1 ranLast (changes.rooted rooted) resolved
    enumerable holds ((changes.extends_.hook made).trans hooked) with
    ⟨_, passed, front, found, comes, _, finds, owned⟩
  have upheld := upheld_mixSources (Meaning.upheldBy_uncalled budget) plan 0 sources [] _ _ _
    ranSources
  exact ⟨front, found, ⟨held, turn, passed, upheld, comes⟩, finds, owned⟩

end Alias

theorem Arrives.run_of_unavailable {budget : Nat} {decorator : ProcedureId} {trait : Value}
    {member : String} (rooted : begun.store.Rooted)
    (known : begun.store.hasObject plan.target = true)
    (there : begun.store.hasObject table = true) (apart : plan.target ∉ begun.store.ancestry table)
    (binds : begun.store.Binds table name decorator)
    (made : begun.store.hasProcedure decorator = true)
    (hooked : (begun.store.procedure decorator).hook =
      some (.aliased (.trait trait) (some member) none))
    (arrives : Arrives (.uncalled (budget + 1)) plan sources table name begun front)
    (missing : (front.store.traitDescriptor trait member).1 = none) :
    ∃ later,
      (mixSources (.ofBudget (budget + 1)) plan 0 (sources ++ [.object table]) []).run begun =
        (.error (.aliasUnavailable member name), later) := by
  have changes := arrives.changes known
  have bindsThen := binds.later changes rooted there apart
  rcases Option.bind_eq_some_iff.mp bindsThen.shown with ⟨descriptor, resolved, holds⟩
  rcases Option.map_eq_some_iff.mp resolved with ⟨⟨owner, _⟩, found, rfl⟩
  have hookedThen := (changes.extends_.hook made).trans hooked
  have finds : (Decorator.aliasedDescriptor (.trait trait) (some member) none plan.target name).run
      front = (.ok (member, (front.store.traitDescriptor trait member).1),
        { front with store := (front.store.traitDescriptor trait member).2 }) := rfl
  rw [missing] at finds
  have failed (passed : List Conflict) :
      (mixMember (.ofBudget (budget + 1)) plan table name passed).run front =
        (.error (.aliasUnavailable member name),
          { front with store := (front.store.traitDescriptor trait member).2 }) := by
    rw [run_mixMember_of_hook _ plan passed found holds hookedThen]
    apply Action.run_bind_of_error
    exact Action.run_bind_of_ok _ finds
  exact ⟨_, arrives.upheld.run_of_failed failed⟩

end Merge

namespace Composer

open Merge

section Alias

variable {composer : Composer} {budget : Nat} {called made world between begun : World σ}
  {trait : Value} {member name : String} {decorator : ProcedureId} {first : Value}
  {sources : List Value} {table target : ObjectId} {definer : Definer}

theorem isSource_of_run_mixSources {meaning : Meaning σ} {plan : Plan} {index : Nat}
    {held conflicts : List Conflict} {later : World σ}
    (ran : (mixSources meaning plan index sources held).run world = (.ok conflicts, later)) :
    ∀ source ∈ sources, source.isSource = true := by
  induction sources generalizing index held world with
  | nil => exact List.forall_mem_nil _
  | cons source sources induction =>
      rcases succeeded_of_bind ran with ⟨_, _, ranFirst, ranRest⟩
      refine List.forall_mem_cons.mpr ⟨?_, induction ranRest⟩
      cases source with
      | procedure | object => rfl
      | _ => cases ranFirst

private theorem isSource_of_run_delegate
    (delegated : (Sources.delegate first).run world = (.ok target, between)) :
    first.isSource = true := by
  cases first with
  | procedure | object => rfl
  | _ => cases delegated

theorem own_of_run_compose {meaning : Meaning σ} {rest : List Value} {type : ProcedureId}
    {later : World σ} (evolving : meaning.Evolving) (merges : Merges first rest)
    (delegated : (Sources.delegate first).run world = (.ok target, between))
    (defined : (Definer.ofValue meaning first).run between = (.ok definer, begun))
    (known : begun.store.hasObject target = true)
    (ran : (composer.compose meaning (first :: rest)).run world = (.ok type, later)) :
    ∃ conflicts merged composite, (mixin meaning target rest definer).run begun =
        (.ok conflicts, merged) ∧
      later.store.composite? type = some composite ∧
      ∀ name, later.store.ownDescriptor? composite.prototype name =
        merged.store.ownDescriptor? target name := by
  cases valid : Sources.validate (first :: rest) 0 with
  | error fault =>
      rw [compose, valid] at ran
      cases ran
  | ok =>
      rw [run_compose_of_begun composer merges valid delegated defined] at ran
      rcases succeeded_of_bind ran with ⟨conflicts, merged, mixed, ran⟩
      rcases succeeded_of_bind ran with ⟨_, reported, reports, ran⟩
      cases ran
      have evolution := evolving_mixin evolving target rest definer begun
      rw [mixed] at evolution
      have knownMerged := (evolution.1.extends.object target known).1
      have reporting := changesWithin_report composer conflicts merged
      rw [reports] at reporting
      have entering := changesWithin_enterType composer (first :: rest) target reported
      have changes := reporting.trans entering
      exact ⟨conflicts, merged, _, mixed, composite?_enterType composer _ target reported.store,
        fun name => changes.own target name knownMerged id⟩

variable (composer sources) in
/-- Aliases of traits are exact. An alias of a named member of a trait is bound in a bare table,
which is the last of at least two sources of a composition. Provided that nothing is called in the
merge, a composition that succeeds gives its new table just what the trait resolved the member to
when the alias was made, whatever has happened since. If the trait resolves the member neither then
nor when the alias has its turn, the composition does not succeed; and if the merge gets to that
turn, it fails because there is nothing to copy under the name. -/
theorem alias_exact (rooted : world.store.Rooted)
    (created : (Decorator.createAlias (.trait trait) (some member)).run called =
      (.ok decorator, made))
    (since : (Passage.evolution σ).leads made world)
    (known : world.store.hasObject table = true)
    (delegated : (Sources.delegate first).run world = (.ok target, between))
    (defined : (Definer.ofValue (.ofBudget (budget + 1)) first).run between = (.ok definer, begun))
    (binds : begun.store.Binds table name decorator) :
    (Uncalled (fun meaning => mixin meaning target (sources ++ [.object table]) definer)
        (budget + 1) begun →
      (∀ descriptor, (called.store.traitDescriptor trait member).1 = some descriptor →
        ∀ type later, (composer.compose (.ofBudget (budget + 1))
            (first :: (sources ++ [.object table]))).run world = (.ok type, later) →
          ∃ composite, later.store.composite? type = some composite ∧
            later.store.ownDescriptor? composite.prototype name = some descriptor) ∧
      ((called.store.traitDescriptor trait member).1 = none →
        (∀ front, Arrives (.ofBudget (budget + 1)) ⟨target, definer, sources ++ [.object table]⟩
            sources table name begun front →
          (front.store.traitDescriptor trait member).1 = none) →
        ∀ type later, (composer.compose (.ofBudget (budget + 1))
            (first :: (sources ++ [.object table]))).run world ≠ (.ok type, later))) ∧
    ((called.store.traitDescriptor trait member).1 = none → ∀ front,
      Arrives (.uncalled (budget + 1)) ⟨target, definer, sources ++ [.object table]⟩ sources table
        name begun front →
      (front.store.traitDescriptor trait member).1 = none →
      ∃ later, (composer.compose (.ofBudget (budget + 1))
        (first :: (sources ++ [.object table]))).run world =
          (.error (.aliasUnavailable member name), later)) := by
  have evolving := Meaning.evolving_ofBudget (σ := σ) (budget + 1)
  have merges : Merges first (sources ++ [.object table]) := .inl (by simp)
  rcases Decorator.hook_of_createAlias created with ⟨there, captures⟩
  rcases begun_of_delegated delegated defined evolving rooted with ⟨extends_, rootedBegun, apart⟩
  have reading := Definer.evolving_ofValue evolving first between
  rw [defined] at reading
  have knownTarget : begun.store.hasObject target = true :=
    (reading.1.extends.object target (Sources.hasObject_of_delegate delegated)).1
  rcases apart table known with ⟨knownTable, apartTable⟩
  have onward := since.1.extends.trans extends_
  have thereBegun := (onward.procedure decorator there).1
  have hooked := (onward.hook there).trans captures
  refine ⟨fun uncalled => ?_, fun missing front arrives unavailable => ?_⟩
  · have owns {type : ProcedureId} {later : World σ} (ran : (composer.compose (.ofBudget
          (budget + 1)) (first :: (sources ++ [.object table]))).run world = (.ok type, later)) :
        ∃ front found composite, Arrives (.ofBudget (budget + 1))
            ⟨target, definer, sources ++ [.object table]⟩ sources table name begun front ∧
          (called.store.traitDescriptor trait member).1.or
            (front.store.traitDescriptor trait member).1 = some found ∧
          later.store.composite? type = some composite ∧
          later.store.ownDescriptor? composite.prototype name = some found := by
      rcases own_of_run_compose evolving merges delegated defined knownTarget ran with
        ⟨conflicts, merged, composite, mixed, entered, own⟩
      have quiet := Eq.trans uncalled mixed
      rcases exists_arrives_of_alias rootedBegun knownTarget knownTable apartTable binds thereBegun
        hooked quiet with ⟨front, found, arrives, finds, owned⟩
      exact ⟨front, found, composite, arrives, finds, entered, (own name).trans owned⟩
    refine ⟨fun descriptor kept type later ran => ?_, fun missing unavailable type later ran => ?_⟩
    · rcases owns ran with ⟨front, found, composite, _, finds, entered, owned⟩
      rw [kept, Option.some_or] at finds
      cases finds
      exact ⟨composite, entered, owned⟩
    · rcases owns ran with ⟨front, found, composite, arrives, finds, _⟩
      rw [missing, unavailable front arrives, Option.or_none] at finds
      cases finds
  · rw [missing] at hooked
    rcases arrives.run_of_unavailable rootedBegun knownTarget knownTable apartTable binds thereBegun
      hooked unavailable with ⟨later, failed⟩
    rcases arrives with ⟨held, turn, passed, ranSources, _⟩
    have valid : Sources.validate (first :: (sources ++ [.object table])) 0 = .ok () := by
      refine Sources.validate_eq_ok (List.cons_ne_nil _ _) (fun source member => ?_) 0
      rw [← Value.isSource_iff]
      rcases List.mem_cons.mp member with rfl | member
      · exact isSource_of_run_delegate delegated
      rcases List.mem_append.mp member with before | last
      · exact isSource_of_run_mixSources ranSources source before
      · rw [List.mem_singleton.mp last]
        rfl
    refine ⟨later, ?_⟩
    rw [run_compose_of_begun composer merges valid delegated defined]
    exact Action.run_bind_of_error _ failed

end Alias

def trading : World Unit where
  store := {
    objects := #[{ members := .ofEntries [("m", .ofValue (.boolean true))] }, {}, {}]
    procedures := #[{ body := .required }] }
  state := ()

/-- Binds an alias of a member of the trait in the bare table; then the trait gives up its
member. -/
def trade (member : String) (enumerable : Bool) : Action Unit ProcedureId := do
  let alias_ ← Decorator.createAlias (.trait (.object ⟨0⟩)) (some member)
  Action.change (·.storeMember ⟨1⟩ "a" ⟨.data (.procedure alias_) true, enumerable, true⟩)
  Action.change (·.eraseMember ⟨0⟩ "m")
  return alias_

private theorem evolution_trade (member : String) : (Passage.evolution Unit).leads
    ((Decorator.createAlias (.trait (.object ⟨0⟩)) (some member)).run trading).2
    ((trade member true).run trading).2 :=
  ⟨(Store.Evolves.of_step (.define rfl)).trans (.of_step (.erase rfl)), List.prefix_refl _⟩

/-- The alias of what the trait had is exact; that of what it never had fails. -/
theorem alias_exact_of_trading :
    (∃ type later composite, (({} : Composer).compose (.ofBudget 1)
        [.object ⟨2⟩, .object ⟨1⟩]).run ((trade "m" true).run trading).2 = (.ok type, later) ∧
      later.store.composite? type = some composite ∧
      later.store.ownDescriptor? composite.prototype "a" = some (.ofValue (.boolean true))) ∧
    ∃ later, (({} : Composer).compose (.ofBudget 1) [.object ⟨2⟩, .object ⟨1⟩]).run
        ((trade "k" true).run trading).2 = (.error (.aliasUnavailable "k" "a"), later) := by
  let traded (member : String) : World Unit := ((trade member true).run trading).2
  let begun (member : String) : World Unit :=
    { traded member with store := (traded member).store.delegating ⟨2⟩ }
  have exactly (member : String) (rooted : (traded member).store.Rooted) :=
    have created : (Decorator.createAlias (.trait (.object ⟨0⟩)) (some member)).run trading =
        (.ok ⟨1⟩, _) := rfl
    have delegated : (Sources.delegate (.object ⟨2⟩)).run (traded member) =
        (.ok ⟨3⟩, begun member) := rfl
    have defined : (Definer.ofValue (.ofBudget 1) (.object ⟨2⟩)).run (begun member) =
        (.ok .raw, begun member) := rfl
    have bound : (begun member).store.ownDescriptor? ⟨1⟩ "a" =
        some (.ofValue (.procedure ⟨1⟩)) := rfl
    have binds : (begun member).store.Binds ⟨1⟩ "a" ⟨1⟩ :=
      ⟨Store.mem_enumerableNames_of_own bound rfl, rfl⟩
    alias_exact {} [] rooted created (evolution_trade member) rfl delegated defined binds
  have quiet : (mixin (.uncalled 1) ⟨3⟩ ([] ++ [.object ⟨1⟩]) .raw).run (begun "m") = (.ok [], _) :=
    Action.run_eq_of_toOption _ _ _ (by decide +kernel)
  have composed : (({} : Composer).compose (.ofBudget 1) [.object ⟨2⟩, .object ⟨1⟩]).run
      (traded "m") = (.ok ⟨2⟩, _) := Action.run_eq_of_toOption _ _ _ (by decide +kernel)
  have arrives : Arrives (.uncalled 1) ⟨⟨3⟩, .raw, [] ++ [.object ⟨1⟩]⟩ [] ⟨1⟩ "a" (begun "k")
      (begun "k") := ⟨[], _, [], rfl, [], [], by decide +kernel, rfl⟩
  rcases ((exactly "m" (Store.rooted_iff.mpr (by decide))).1 (uncalled_of_ok quiet)).1 _ rfl ⟨2⟩ _
    composed with ⟨composite, entered, owned⟩
  exact ⟨⟨⟨2⟩, _, composite, composed, entered, owned⟩,
    (exactly "k" (Store.rooted_iff.mpr (by decide))).2 rfl (begun "k") arrives rfl⟩

/-- A single bare table becomes the prototype as it is, with the decorator in it; and what a table
hides is not merged. -/
theorem alias_stays_of_lone_table :
    (trading.store.traitDescriptor (.object ⟨0⟩) "m").1 = some (.ofValue (.boolean true)) ∧
    (∃ later composite, (({} : Composer).compose (.ofBudget 1) [.object ⟨1⟩]).run
        ((trade "m" true).run trading).2 = (.ok ⟨2⟩, later) ∧
      later.store.composite? ⟨2⟩ = some composite ∧
      later.store.ownDescriptor? composite.prototype "a" = some (.ofValue (.procedure ⟨1⟩))) ∧
    ∃ later composite, (({} : Composer).compose (.ofBudget 1) [.object ⟨2⟩, .object ⟨1⟩]).run
        ((trade "m" false).run trading).2 = (.ok ⟨2⟩, later) ∧
      later.store.composite? ⟨2⟩ = some composite ∧
      later.store.ownDescriptor? composite.prototype "a" = none :=
  ⟨rfl, ⟨_, _, rfl, rfl, rfl⟩, _, _, rfl, rfl, rfl⟩

end Composer

end TraitComposition
