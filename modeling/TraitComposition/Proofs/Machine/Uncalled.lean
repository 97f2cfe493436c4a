import TraitComposition.Proofs.Advice.Invocation
import TraitComposition.Proofs.Machine.Exhaustion
import TraitComposition.Proofs.Merge.Weighing
import TraitComposition.Proofs.Store.Additions
import TraitComposition.Proofs.Store.Encoding

/-!
Machines on which nothing is called. Decorators are still installed the way the library does it,
but calls and entries of user code fail, and so do installs that would ask user code. All that
installing a decorator then changes of what was there is the member that the destination owns
under its name, which is there from then on. What succeeds on such a machine goes the same way on
the whole one.
-/
namespace TraitComposition

variable {σ α : Type}

/-! ### Gains of one object -/

namespace Store

structure Gains (target : ObjectId) (names : String → Prop) (before after : Store) : Prop
    extends ChangesOnly target before after where
  others : ∀ name, ¬names name →
    after.ownDescriptor? target name = before.ownDescriptor? target name
  kept : ∀ name, before.hasOwn target name = true → after.hasOwn target name = true
  journal : after.journal = before.journal

namespace Gains

variable {target : ObjectId} {names more : String → Prop} {first second third : Store}

theorem refl (target : ObjectId) (names : String → Prop) (store : Store) :
    Gains target names store store where
  toChangesOnly := .refl target store
  others _ _ := rfl
  kept _ owned := owned
  journal := rfl

theorem trans (start : Gains target names first second) (rest : Gains target names second third) :
    Gains target names first third where
  toChangesOnly := start.toChangesOnly.trans rest.toChangesOnly
  others name outside := (rest.others name outside).trans (start.others name outside)
  kept name owned := rest.kept name (start.kept name owned)
  journal := rest.journal.trans start.journal

theorem mono (gains : Gains target names first second)
    (inside : ∀ name, names name → more name) : Gains target more first second :=
  { gains with
    others := fun name outside => gains.others name fun within => outside (inside name within) }

private theorem of_onlyAdds (adds : first.OnlyAdds second) (known : first.hasObject target = true) :
    Gains target names first second where
  toChangesOnly := adds.changesOnly target
  others name _ := by rw [ownDescriptor?, ownDescriptor?, adds.members_eq known]
  kept name owned := by
    rw [hasOwn, adds.members_eq known]
    exact owned
  journal := adds.journal

private theorem of_storeMember (store : Store) {target : ObjectId}
    (known : store.hasObject target = true) {name : String} (inside : names name)
    (descriptor : Descriptor) :
    Gains target names store (store.storeMember target name descriptor) where
  toChangesOnly := .of_storeMember store target name descriptor
  others other outside := ownDescriptor?_storeMember_other store descriptor fun both =>
    outside (both.2 ▸ inside)
  kept other owned := by
    rw [hasOwn_eq_isSome] at owned ⊢
    by_cases same : other = name
    · rw [same, ownDescriptor?_storeMember_same store target name descriptor known]
      rfl
    · rw [ownDescriptor?_storeMember_other store descriptor fun both => same both.2]
      exact owned
  journal := rfl

theorem onlyAdds (gains : Gains target names second third) (adds : first.OnlyAdds second)
    (new : first.hasObject target = false) : first.OnlyAdds third :=
  adds.changing gains.toChangesOnly gains.journal new

section Reading

variable (gains : Gains target names first second) {object : ObjectId}
  (known : first.hasObject object = true) {name : String} (outside : ¬names name)

include gains known outside

theorem ownDescriptor?_eq :
    second.ownDescriptor? object name = first.ownDescriptor? object name := by
  by_cases same : object = target
  · rw [same, gains.others name outside]
  · rw [ownDescriptor?, ownDescriptor?, gains.members object known same]

theorem lookup_eq (rooted : first.Rooted) :
    second.lookup object name = first.lookup object name :=
  lookup_congr (gains.ancestry_eq rooted known) fun _ member =>
    gains.ownDescriptor?_eq (hasObject_of_mem_ancestry rooted known member) outside

end Reading

end Gains

end Store

def Passage.gaining (σ : Type) (target : ObjectId) (names : String → Prop) : Passage σ where
  leads before after := before.store.hasObject target = true →
    Store.Gains target names before.store after.store
  refl world _ := .refl target names world.store
  trans start rest known :=
    (start known).trans (rest ((start known).extends_.object _ known).1)

/-! ### Uncalled operations

Neither a procedure is called nor user code entered on such a machine. Decorators are installed on
it, unless user code would be asked to weave them. -/

def Store.asksToWeave (store : Store) (layers : List LayerId) : Bool :=
  layers.any fun reference => (store.layer reference).any fun layer => layer.advice.wrap?.isNone

def Decorator.installUnasked (meaning : Meaning σ) (hook : Hook) (target : ObjectId)
    (name : String) : Action σ Unit := do
  match hook with
  | .weave weave =>
      let store ← Action.getStore
      let current := store.weaveOf (store.dataValue? target name)
      if store.asksToWeave (store.stackWeaves current weave).layers then
        throw (.thrown "call nesting exhausted")
      else
        installWeave meaning weave target name
  | hook => install meaning hook target name

def Meaning.uncalled : (budget : Nat) → Meaning σ
  | 0 => exhausted
  | budget + 1 =>
      { exhausted with
        install := fun hook target name =>
          Decorator.installUnasked (uncalled budget) hook target name }

/-- Whether an operation neither calls a procedure nor enters user code: it comes out the same
where these fail. -/
def Uncalled (operation : Meaning σ → Action σ α) (budget : Nat) (world : World σ) : Prop :=
  (operation (.uncalled budget)).run world = (operation (.ofBudget budget)).run world

open TraitComposition.Action (Follows UpheldBy)

namespace Action

variable {target : ObjectId} {names more : String → Prop}

private theorem Follows.gaining_mono {action : Action σ α}
    (follows : Follows (Passage.gaining σ target names) action)
    (inside : ∀ name, names name → more name) : Follows (Passage.gaining σ target more) action :=
  fun world known => (follows world known).mono inside

private theorem gaining_edit {change : Store → α × Store}
    (adds : ∀ store : Store, store.OnlyAdds (change store).2) :
    Follows (Passage.gaining σ target names) (Action.edit change : Action σ α) :=
  fun world known => .of_onlyAdds (adds world.store) known

end Action

namespace Meaning

private theorem call_uncalled (budget : Nat) (procedure : ProcedureId) (receiver : Value)
    (arguments : List Value) :
    (uncalled budget : Meaning σ).call procedure receiver arguments =
      throw (.thrown "call nesting exhausted") := by
  cases budget <;> rfl

private theorem enter_uncalled (budget : Nat) (code : CodeId) (entry : Entry) :
    (uncalled budget : Meaning σ).enter code entry =
      throw (.thrown "call nesting exhausted") := by
  cases budget <;> rfl

theorem refuses_uncalled (budget : Nat) : (uncalled budget : Meaning σ).Refuses :=
  fun procedure receiver arguments => ⟨_, call_uncalled budget procedure receiver arguments⟩

section Follows

variable {passage : Passage σ} (budget : Nat)

private theorem follows_call_uncalled (procedure : ProcedureId) (receiver : Value)
    (arguments : List Value) :
    Follows passage ((uncalled budget : Meaning σ).call procedure receiver arguments) := by
  rw [call_uncalled]
  exact Follows.throw _

private theorem follows_enter_uncalled (code : CodeId) (entry : Entry) :
    Follows passage ((uncalled budget : Meaning σ).enter code entry) := by
  rw [enter_uncalled]
  exact Follows.throw _

end Follows

def InstallsGain (meaning : Meaning σ) : Prop :=
  ∀ hook target name,
    Follows (Passage.gaining σ target (· = name)) (meaning.install hook target name)

end Meaning

/-! ### Installs -/

section Installs

variable {budget : Nat} {target : ObjectId} {name : String} {names : String → Prop}

private theorem Passage.gaining_storeMember (inside : names name) (descriptor : Descriptor)
    (world : World σ) :
    (Passage.gaining σ target names).leads world
      { world with store := world.store.storeMember target name descriptor } :=
  fun known => .of_storeMember world.store known inside descriptor

private theorem Passage.gaining_storeMember_same (descriptor : Descriptor) (world : World σ) :
    (Passage.gaining σ target (· = name)).leads world
      { world with store := world.store.storeMember target name descriptor } :=
  gaining_storeMember (by rfl) descriptor world

theorem Merge.respects_gaining (plan : Plan)
    (installs : (Meaning.uncalled budget : Meaning σ).InstallsGain) (inside : names name) :
    Respects (Passage.gaining σ plan.target names) (.uncalled budget) plan name where
  asks procedure := Action.gaining_edit fun store => .of_prototypeOf store procedure
  assign :=
    Member.follows_assign (Passage.gaining_storeMember inside)
      (Meaning.follows_call_uncalled budget)
  define :=
    Definer.follows_define (Passage.gaining_storeMember inside)
      (Meaning.follows_call_uncalled budget)
      (fun descriptor => Action.gaining_edit (.of_encode descriptor.fields)) plan.definer
  install hook := (installs hook plan.target name).gaining_mono fun _ equal => equal ▸ inside

theorem Merge.gaining_mixSources (installs : (Meaning.uncalled budget : Meaning σ).InstallsGain)
    (plan : Plan) (index : Nat) (sources : List Value) (held : List Conflict) :
    Follows (Passage.gaining σ plan.target fun _ => True)
      (mixSources (.uncalled budget) plan index sources held) :=
  have respects (name : String) : Respects (Passage.gaining σ plan.target fun _ => True)
      (.uncalled budget) plan name := respects_gaining plan installs trivial
  follows_mixSources respects index sources held

private theorem gaining_mixin (installs : (Meaning.uncalled budget : Meaning σ).InstallsGain)
    (sources : List Value) (definer : Definer) :
    Follows (Passage.gaining σ target fun _ => True)
      (mixin (.uncalled budget) target sources definer) :=
  Merge.gaining_mixSources installs ⟨target, definer, sources⟩ 0 sources []

namespace Decorator

private theorem gaining_define (descriptor : Descriptor) :
    Follows (Passage.gaining σ target (· = name)) (Member.define target name descriptor) :=
  Member.follows_define Passage.gaining_storeMember_same descriptor

private theorem gaining_installWeave (weave : Weave) :
    Follows (Passage.gaining σ target (· = name))
      (installWeave (.uncalled budget) weave target name) := by
  apply Follows.bind Follows.getStore
  intro store
  apply Follows.bind (Weave.follows_build (Meaning.follows_enter_uncalled budget)
    (fun procedure _ => Action.gaining_edit fun store => .of_addProcedure store procedure) _)
  intro advised
  split
  · exact Member.follows_assign Passage.gaining_storeMember_same
      (Meaning.follows_call_uncalled budget) _
  · exact Follows.pure _

theorem gaining_patched (installs : (Meaning.uncalled budget : Meaning σ).InstallsGain)
    (inherited : Descriptor) (patch : Patch) :
    Follows (Passage.gaining σ target names)
      (patched (.uncalled budget) name inherited patch) := by
  intro world known
  let merged := world.store.nextObject
  let encoded : World σ := { world with store := (Store.encode inherited.fields world.store).2 }
  have adds : world.store.OnlyAdds encoded.store := .of_encode inherited.fields world.store
  have rest : Follows (Passage.gaining σ merged fun _ => True) (do
      let fields ← patch.encode
      let _ ← mixin (.uncalled budget) merged [.object fields] .raw
      Descriptor.decode (.uncalled budget) name merged) := by
    apply Follows.bind (Action.gaining_edit (.of_encode patch.fields))
    intro fields
    exact Follows.bind (gaining_mixin installs _ .raw) fun _ =>
      Descriptor.follows_decode (Meaning.follows_call_uncalled budget) name merged
  have gains := rest encoded (Store.hasObject_encode inherited.fields world.store)
  rw [patched, Descriptor.encode, Action.run_edit_bind]
  exact .of_onlyAdds (gains.onlyAdds adds (Store.hasObject_nextObject_eq_false world.store)) known

private theorem gaining_installPatch (installs : (Meaning.uncalled budget : Meaning σ).InstallsGain)
    (patch : Patch) :
    Follows (Passage.gaining σ target (· = name))
      (installPatch (.uncalled budget) patch target name) := by
  apply Follows.bind Follows.getStore
  intro store
  dsimp only
  split
  · exact Follows.bind (gaining_patched installs _ patch) gaining_define
  · apply Follows.bind _ gaining_define
    apply Follows.bind (Action.gaining_edit (.of_encode patch.fields))
    exact Descriptor.follows_decode (Meaning.follows_call_uncalled budget) name

private theorem gaining_aliasedDescriptor (source : AliasSource) (member : Option String)
    (captured : Option Descriptor) :
    Follows (Passage.gaining σ target names)
      (aliasedDescriptor source member captured target name) := by
  unfold aliasedDescriptor
  split
  · exact Follows.bind Follows.getStore fun _ => Follows.pure _
  · split
    · exact Follows.pure _
    · next trait _ =>
      apply Follows.bind (Action.gaining_edit fun store => ?_) fun _ => Follows.pure _
      cases trait with
      | procedure procedure => exact .of_prototypeOf store procedure
      | _ => exact .refl store

private theorem gaining_installAlias (source : AliasSource) (member : Option String)
    (captured : Option Descriptor) :
    Follows (Passage.gaining σ target (· = name))
      (installAlias source member captured target name) := by
  apply Follows.bind (gaining_aliasedDescriptor source member captured)
  intro found
  split
  · exact gaining_define _
  · exact Follows.throw _

private theorem gaining_install (installs : (Meaning.uncalled budget : Meaning σ).InstallsGain)
    (hook : Hook) :
    Follows (Passage.gaining σ target (· = name))
      (install (.uncalled budget) hook target name) := by
  cases hook with
  | weave weave => exact gaining_installWeave weave
  | patch patch => exact gaining_installPatch installs patch
  | aliased source member captured => exact gaining_installAlias source member captured
  | code code =>
      exact Follows.bind (Meaning.follows_enter_uncalled budget _ _) fun _ => Follows.pure _

private theorem gaining_installUnasked
    (installs : (Meaning.uncalled budget : Meaning σ).InstallsGain) (hook : Hook) :
    Follows (Passage.gaining σ target (· = name))
      (installUnasked (.uncalled budget) hook target name) := by
  cases hook with
  | weave weave =>
      apply Follows.bind Follows.getStore
      intro store
      dsimp only
      split
      · exact Follows.throw _
      · exact gaining_installWeave weave
  | patch patch => exact gaining_install installs _
  | aliased source member captured => exact gaining_install installs _
  | code code => exact gaining_install installs _

end Decorator

end Installs

/-- The machine that calls nothing only ever gains an object the member that it installs. -/
theorem Meaning.installsGain_uncalled (budget : Nat) :
    (uncalled budget : Meaning σ).InstallsGain := by
  induction budget with
  | zero => exact fun _ _ _ => Follows.throw _
  | succ budget induction => exact fun hook _ _ => Decorator.gaining_installUnasked induction hook

/-! ### The whole machine -/

section Upheld

variable {first second : Meaning σ}

namespace Layer

theorem run_weave_eq {reference : LayerId} {base : Option ProcedureId} {world : World σ}
    (wraps : ∀ layer, world.store.layer reference = some layer →
      layer.advice.wrap?.isSome = true) :
    (weave first reference base).run world = (weave second reference base).run world := by
  rw [weave, weave, Action.run_getStore_bind, Action.run_getStore_bind]
  cases found : world.store.layer reference with
  | none => rfl
  | some layer =>
    have wrap := wraps layer found
    rcases layer with ⟨advice, standalone⟩
    rw [Option.map_some]
    cases advice with
    | before advice => rfl
    | after advice => cases base <;> rfl
    | around weaver otherwise => cases wrap

private theorem upheld_weaveAll :
    ∀ {layers : List LayerId} {base woven : Option ProcedureId} {world later : World σ},
      (∀ reference ∈ layers, ∀ layer, world.store.layer reference = some layer →
        layer.advice.wrap?.isSome = true) →
      (weaveAll first layers base).run world = (.ok woven, later) →
        (weaveAll second layers base).run world = (.ok woven, later)
  | [], _, _, _, _, _, ran => ran
  | reference :: layers, base, woven, world, later, wraps, ran => by
      have wrapsFirst := wraps reference (List.mem_cons_self ..)
      rcases Action.succeeded_of_bind ran with ⟨outer, between, ranFirst, ranRest⟩
      rw [run_weave_eq wrapsFirst] at ranFirst
      rw [weaveAll, Action.run_bind_of_ok _ ranFirst]
      refine upheld_weaveAll (fun inner member layer found => ?_) ranRest
      rw [Store.layer, layers_of_weave wrapsFirst ranFirst] at found
      exact wraps inner (List.mem_cons_of_mem _ member) layer found

end Layer

theorem Weave.upheld_build {weave : Weave} {built : Option ProcedureId} {world later : World σ}
    (unasked : world.store.asksToWeave weave.layers = false)
    (ran : (weave.build first).run world = (.ok built, later)) :
    (weave.build second).run world = (.ok built, later) := by
  have wraps : ∀ reference ∈ weave.layers, ∀ layer, world.store.layer reference = some layer →
      layer.advice.wrap?.isSome = true := by
    intro reference member layer found
    have unasked := List.any_eq_false.mp unasked reference member
    rw [found, Option.any_some] at unasked
    cases wrap : layer.advice.wrap? with
    | none => exact absurd (by rw [wrap]; rfl) unasked
    | some wrap => rfl
  rcases Action.succeeded_of_bind ran with ⟨woven, between, ranLayers, ranRest⟩
  rw [build, Action.run_bind_of_ok _ (Layer.upheld_weaveAll wraps ranLayers)]
  exact ranRest

variable (upheld : first.UpheldBy second)

namespace Decorator

include upheld in
private theorem upheld_patched (name : String) (inherited : Descriptor) (patch : Patch) :
    UpheldBy (patched first name inherited patch) (patched second name inherited patch) := by
  apply UpheldBy.bind (.refl _)
  intro merged
  apply UpheldBy.bind (.refl _)
  intro fields
  apply UpheldBy.bind (upheld.mixin merged _ .raw)
  intro conflicts
  exact Descriptor.upheld_decode upheld name merged

include upheld in
private theorem upheld_installPatch (patch : Patch) (target : ObjectId) (name : String) :
    UpheldBy (installPatch first patch target name) (installPatch second patch target name) := by
  apply UpheldBy.bind (.refl _)
  intro store
  dsimp only
  split
  · exact .bind_same (upheld_patched upheld name _ patch) _
  · apply UpheldBy.bind_same
    apply UpheldBy.bind (.refl _)
    intro fields
    exact Descriptor.upheld_decode upheld name fields

include upheld in
theorem upheld_installUnasked (hook : Hook) (target : ObjectId) (name : String) :
    UpheldBy (installUnasked first hook target name) (install second hook target name) := by
  cases hook with
  | weave weave =>
      intro world answer later ran
      rw [installUnasked, Action.run_getStore_bind] at ran
      dsimp only at ran
      split at ran
      · cases ran
      · next unasked =>
        rw [installWeave, Action.run_getStore_bind] at ran
        rw [install, installWeave, Action.run_getStore_bind]
        rcases Action.succeeded_of_bind ran with ⟨advised, between, built, ranRest⟩
        rw [Action.run_bind_of_ok _ (Weave.upheld_build (by simpa using unasked) built)]
        cases advised with
        | none => exact ranRest
        | some advised => exact Member.upheld_assign upheld target name _ _ _ _ ranRest
  | patch patch => exact upheld_installPatch upheld patch target name
  | aliased source member captured => exact .refl _
  | code code =>
      exact .bind_same (upheld.enter _ _) _

end Decorator

end Upheld

theorem Meaning.upheldBy_uncalled (budget : Nat) :
    UpheldBy (uncalled budget : Meaning σ) (ofBudget budget) := by
  induction budget with
  | zero => exact upheldBy_exhausted _
  | succ budget induction =>
      exact
        { call := fun _ _ _ => .throw _ _
          install := Decorator.upheld_installUnasked induction
          enter := fun _ _ => .throw _ _ }

theorem uncalled_of_ok {budget : Nat} {world later : World σ} {target : ObjectId}
    {sources : List Value} {definer : Definer} {conflicts : List Conflict}
    (ran : (mixin (.uncalled budget) target sources definer).run world = (.ok conflicts, later)) :
    Uncalled (fun meaning => mixin meaning target sources definer) budget world :=
  ran.trans ((Meaning.upheldBy_uncalled budget).mixin target sources definer world conflicts later
    ran).symm

end TraitComposition
