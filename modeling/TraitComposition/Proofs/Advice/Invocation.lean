import TraitComposition.Proofs.Advice.Provenance

/-!
Advised members in whatever the machine gets to. As long as user code leaves it to the
machine to say what was woven, however types are composed, extended and built in between,
a member that carries a weave is what the weave says, so that invoking it on an instance
goes through all the advice to the root.
-/
namespace TraitComposition

variable {σ : Type}

def Request.Honest : Request → Prop
  | .withMark _ (.weave _) => False
  | _ => True

structure World.Accountable (world : World σ) : Prop where
  code : ∀ reference entry, (world.code reference entry).KeepsTo Request.Honest
  provenance : world.store.Provenance

private theorem World.code_addCode_cases (world : World σ) (code : Entry → Program σ)
    (reference : CodeId) :
    (world.addCode code).2.code reference = code ∨
      (world.addCode code).2.code reference = world.code reference := by
  simp only [World.code, World.addCode, Array.getD_eq_getD_getElem?, Array.getElem?_push]
  split
  · exact .inl rfl
  · exact .inr rfl

open TraitComposition.Action (Follows)

namespace Passage

def accounting (σ : Type) : Passage σ where
  leads before after :=
    before.Accountable → (evolution σ).leads before after ∧ after.Accountable
  refl world accountable := ⟨(evolution σ).refl world, accountable⟩
  trans start rest accountable :=
    have started := start accountable
    have done := rest started.2
    ⟨(evolution σ).trans started.1 done.1, done.2⟩

variable {α : Type}

private theorem accounting_store {world : World σ} {store : Store}
    (evolves : world.store.Evolves store) (keeps : world.store.Provenance → store.Provenance) :
    (accounting σ).leads world { world with store := store } :=
  fun accountable =>
    ⟨⟨evolves, List.prefix_refl _⟩, accountable.code, keeps accountable.provenance⟩

private theorem accounting_plain {procedure : Procedure} (plain : procedure.Plain) :
    Follows (accounting σ) (Action.edit (·.addProcedure procedure) : Action σ ProcedureId) := by
  intro world
  refine accounting_store (.of_step (.addProcedure world.store plain.table)) fun provenance =>
    provenance.addProcedure (fun weave marked => ?_) fun stands => absurd stands (plain.body _)
  rw [plain.mark] at marked
  cases marked

end Passage

/-! ### Weaving -/

section Weaving

variable {meaning : Meaning σ} {world later : World σ}

namespace Layer

/-- Weaving a layer whose advice does not ask user code leaves all layers as they are. -/
theorem layers_of_weave {reference : LayerId} {base : Option ProcedureId} {woven : ProcedureId}
    (wraps : ∀ layer, world.store.layer reference = some layer → layer.advice.wrap?.isSome = true)
    (ran : (weave meaning reference base).run world = (.ok woven, later)) :
    later.store.layers = world.store.layers := by
  rw [weave, Action.run_getStore_bind] at ran
  cases found : world.store.layer reference with
  | none =>
    rw [found] at ran
    cases ran
    rfl
  | some layer =>
    have wrap := wraps layer found
    rcases layer with ⟨advice, standalone⟩
    rw [found, Option.map_some] at ran
    cases advice with
    | before advice =>
      cases ran
      rfl
    | after advice =>
      cases base with
      | none =>
        cases ran
        rfl
      | some base =>
        cases ran
        rfl
    | around weaver otherwise => cases wrap

private theorem layers_of_weaveAll :
    ∀ {layers : List LayerId} {world : World σ} {base woven : Option ProcedureId},
      (∀ reference ∈ layers, ∀ layer, world.store.layer reference = some layer →
        layer.advice.wrap?.isSome = true) →
      (weaveAll meaning layers base).run world = (.ok woven, later) →
        later.store.layers = world.store.layers
  | [], _, _, _, _, ran => by
      cases ran
      rfl
  | first :: layers, world, base, woven, wraps, ran => by
      rcases Action.succeeded_of_bind ran with ⟨outer, between, ranFirst, ranRest⟩
      have same := layers_of_weave (wraps first (List.mem_cons_self ..)) ranFirst
      refine (layers_of_weaveAll (fun reference member layer found => ?_) ranRest).trans same
      rw [Store.layer, same] at found
      exact wraps reference (List.mem_cons_of_mem _ member) layer found

end Layer

theorem Layer.wrapped_of_run_weave {layer : LayerId} {wrap : Wrap} {woven : ProcedureId}
    (extends_ : world.store.Extends later.store)
    (ran : (weave meaning layer none).run world = (.ok woven, later))
    (found : later.store.wrap? layer = some wrap) :
    later.store.Wrapped none [wrap] (some woven) := by
  cases known : world.store.layer layer with
  | none =>
    rw [weave, Action.run_getStore_bind, known] at ran
    cases ran
    rw [Store.wrap?, known] at found
    cases found
  | some made =>
    rw [extends_.wrap?_eq (by rw [known, Option.isSome_some])] at found
    rcases run_weave_of_wrap meaning found (.core : world.store.Wrapped none [] none) with
      ⟨_, _, ranAgain, wrapped⟩
    cases ran.symm.trans ranAgain
    exact wrapped

theorem Weave.wrapped_of_run_weaveAll {weave : Weave} {inner : ProcedureId}
    {wraps : List Wrap} (provenance : later.store.Provenance)
    (extends_ : world.store.Extends later.store)
    (ran : (Layer.weaveAll meaning weave.layers weave.root).run world = (.ok (some inner), later))
    {after : Store} (extendsThen : later.store.Extends after)
    (precedes : weave.Precedes after ⟨later.store.procedures.size⟩)
    (layered : after.Layered weave.layers wraps) :
    later.store.hasProcedure inner = true ∧
      later.store.Wrapped weave.root wraps.reverse (some inner) := by
  have old {procedure : ProcedureId} (less : procedure.index < later.store.procedures.size) :
      later.store.hasProcedure procedure = true := Store.hasProcedure_iff.mpr less
  have known (layer : LayerId) (member : layer ∈ weave.layers) :
      (later.store.layer layer).isSome = true := by
    rcases precedes.layer layer member with ⟨index, older, stands⟩
    rw [extendsThen.body (old older)] at stands
    exact provenance.layer (Body.layer?_eq_some_iff.mp stands)
  have layeredThen := Store.Layered.earlier extendsThen layered known
  -- Advice that asks user code would still be there.
  have same : later.store.layers = world.store.layers := by
    refine Layer.layers_of_weaveAll (fun reference member layer found => ?_) ran
    rcases Store.Layered.exists_wrap layeredThen member with ⟨wrap, _, wraps⟩
    rw [extends_.wrap?_eq (by rw [found, Option.isSome_some]), Store.wrap?, found,
      Option.bind_some] at wraps
    rw [wraps, Option.isSome_some]
  have layeredBefore : world.store.Layered weave.layers wraps :=
    Store.Layered.earlier extends_ layeredThen fun layer member => by
      rw [Store.layer, ← same]
      exact known layer member
  rcases Layer.run_weaveAll_of_layered meaning layeredBefore
    (.core : world.store.Wrapped weave.root [] weave.root) with ⟨woven, more, ranAgain, wrapped⟩
  rw [List.append_nil] at wrapped
  cases ran.symm.trans ranAgain
  refine ⟨wrapped.hasProcedure (fun root equal => old (precedes.root root equal))
    fun advice member => ?_, wrapped⟩
  rcases Store.Layered.exists_layer layered (List.mem_reverse.mp member) with ⟨layer, inside, found⟩
  exact old (precedes.advice layer inside (.after advice) found)

end Weaving

namespace Passage

section Weaving

variable {meaning : Meaning σ}
  (enters : ∀ code entry, Follows (accounting σ) (meaning.enter code entry))

include enters

private theorem accounting_build (weave : Weave) :
    Follows (accounting σ) (weave.build meaning) := by
  intro world accountable
  have all := Layer.follows_weaveAll enters accounting_plain weave.layers weave.root world
    accountable
  rw [Weave.build, Action.run_bind]
  rcases ran : (Layer.weaveAll meaning weave.layers weave.root).run world with
    ⟨fault | woven, later⟩
  all_goals rw [ran] at all
  · exact all
  · cases woven with
    | none => exact all
    | some inner =>
      rcases all with ⟨evolution, accountableThen⟩
      have marked : (later.store.withMark inner (.weave weave)).2.Provenance :=
        accountableThen.provenance.withWeave fun chronological _ layered =>
          Weave.wrapped_of_run_weaveAll accountableThen.provenance evolution.1.extends ran
            (.of_addProcedure _ _)
            (chronological _ weave
              (congrArg Procedure.mark (Store.procedure_addProcedure_self later.store _))) layered
      have finishing : later.store.Evolves
          ((later.store.withMark inner (.weave weave)).2.withHook
            ⟨later.store.procedures.size⟩ (.weave weave)).2 :=
        (Store.Evolves.of_step (.addProcedure later.store rfl)).trans
          (.of_step (.addProcedure _ rfl))
      exact ⟨Passage.trans _ evolution ⟨finishing, List.prefix_refl _⟩, accountableThen.code,
        marked.withHook _ _⟩

private theorem accounting_weaveAlone (layer : LayerId) :
    Follows (accounting σ) (Layer.weaveAlone meaning layer) := by
  intro world accountable
  have all := Layer.follows_weave enters accounting_plain layer none world accountable
  rw [Layer.weaveAlone, Action.run_bind]
  rcases ran : (Layer.weave meaning layer none).run world with ⟨fault | woven, later⟩
  all_goals rw [ran] at all
  · exact all
  · rcases all with ⟨evolution, accountableThen⟩
    have settled : later.store.Evolves (later.store.setStandalone layer woven) :=
      .of_step (.setStandalone later.store layer woven)
    exact ⟨Passage.trans _ evolution ⟨settled, List.prefix_refl _⟩, accountableThen.code,
      accountableThen.provenance.setStandalone fun wrap found =>
        Layer.wrapped_of_run_weave evolution.1.extends ran found⟩

end Weaving

theorem bears_accounting : (accounting σ).Bears Request.Honest where
  quiet change := accounting_store change.evolves fun provenance =>
    provenance.of_quiet change.evolves.extends change.procedures change.layers
  state world _ := fun accountable =>
    ⟨(evolution σ).refl world, accountable.code, accountable.provenance⟩
  code world code honest := fun accountable => by
    refine ⟨⟨.refl world.store, by simp [World.addCode]⟩, fun reference entry => ?_,
      accountable.provenance⟩
    rcases world.code_addCode_cases code reference with new | old
    · rw [new]
      exact honest entry
    · rw [old]
      exact accountable.code reference entry
  insert _ := fun world =>
    accounting_store (.of_step (.insert world.store _ _ _)) fun provenance =>
      provenance.of_quiet (.of_storeMember world.store _ _ _) rfl rfl
  report entry := fun world =>
    accounting_store (.of_step (.report world.store entry)) fun provenance =>
      provenance.of_quiet (.of_report world.store entry) rfl rfl
  procedure := accounting_plain
  hook procedure hook := fun world =>
    accounting_store (.of_step (.addProcedure world.store rfl)) (·.withHook procedure hook)
  mark {procedure mark} honest := fun world => by
    cases mark with
    | weave => exact honest.elim
    | value value =>
      exact accounting_store (.of_step (.addProcedure world.store rfl))
        (·.withValue procedure value)
  type composer own := fun world =>
    accounting_store (.of_step (.addComposite world.store composer own))
      (·.addComposite _ _ composer)
  decorator advice := fun world accountable =>
    ⟨Advice.evolving_createDecorator advice world, accountable.code,
      (accountable.provenance.addLayer advice).addDecorator (by simp [Store.layer, Store.addLayer])
        _ _⟩
  build := accounting_build
  standalone := accounting_weaveAlone

private theorem trusts_accounting : (accounting σ).Trusts Request.Honest :=
  fun code entry reached accountable => reached (accountable.code code entry) accountable

end Passage

/-! ### Calls and invocations -/

namespace World

/-- Whether calling a procedure goes through pieces of advice, innermost first, to a root.
What is called on the way can be nested at least `budget` deep, and deeper the farther it is
from the root. -/
def CallsThrough (world : World σ) (woven : ProcedureId) (root : Option ProcedureId)
    (wraps : List Wrap) : Prop :=
  ∀ budget, ∃ nesting : Nat → Nat, (∀ level, budget + level ≤ nesting level) ∧
    ∀ receiver arguments,
      ((Meaning.ofBudget (budget + wraps.length)).call woven receiver arguments).run world =
        (Wrap.callThrough (fun level => .ofBudget (nesting level)) root receiver wraps.reverse
          arguments).run world

private theorem callsThrough_of_wrapped {world : World σ} {woven : ProcedureId}
    {root : Option ProcedureId} {wraps : List Wrap}
    (wrapped : world.store.Wrapped root wraps.reverse (some woven)) :
    world.CallsThrough woven root wraps := by
  intro budget
  rcases wrapped.exists_spare with ⟨spare, _, runs⟩
  refine ⟨fun level => budget + max level spare,
    fun level => Nat.add_le_add_left (Nat.le_max_left ..) budget, fun receiver arguments => ?_⟩
  rw [← runs (.refl world.store), List.length_reverse]
  rfl

/-- Whether all that has come about is what weaving makes, procedures and what layers are on
their own; objects, types, reports, user code and its state are as they were. -/
structure OnlyWeaves (before after : World σ) : Prop where
  extends_ : before.store.Extends after.store
  objects : after.store.objects = before.store.objects
  composites : after.store.composites = before.store.composites
  journal : after.store.journal = before.store.journal
  codes : after.codes = before.codes
  state : after.state = before.state

theorem exists_standalone {world : World σ} (provenance : world.store.Provenance)
    {decorator : ProcedureId} {layer : LayerId} {wrap : Wrap}
    (uninstalled : world.store.Uninstalled decorator layer)
    (wraps : world.store.wrap? layer = some wrap) (budget : Nat) :
    ∃ ready woven, world.OnlyWeaves ready ∧ ready.store.Wrapped none [wrap] (some woven) ∧
      ∀ (receiver : Value) (arguments : List Value),
        ((Meaning.ofBudget (budget + 2)).call decorator receiver arguments).run world =
          ((Meaning.ofBudget budget).call woven receiver arguments).run ready := by
  rcases uninstalled with ⟨direct, unapplied, stands⟩
  rcases Option.isSome_iff_exists.mp (Store.isSome_layer_of_wrap? wraps) with ⟨made, found⟩
  have entered (receiver : Value) (arguments : List Value) :
      ((Meaning.ofBudget (budget + 2)).call decorator receiver arguments).run world =
        ((world.store.procedure direct).call (.ofBudget budget) receiver arguments).run world := by
    rw [Meaning.ofBudget_succ, Meaning.step, Action.run_getStore_bind, Procedure.call, unapplied,
      Meaning.ofBudget_succ, Meaning.step, Action.run_getStore_bind]
  cases settled : made.standalone with
  | some woven =>
    refine ⟨world, woven, ⟨.refl _, rfl, rfl, rfl, rfl, rfl⟩,
      provenance.standalone found settled wraps, fun receiver arguments => ?_⟩
    rw [entered, Procedure.call, stands]
    simp only [Action.run_getStore_bind, found, Option.bind_some, settled]
  | none =>
    rcases Layer.run_weave_of_wrap (.ofBudget budget) wraps
      (.core : world.store.Wrapped none [] none) with ⟨woven, more, ran, wrapped⟩
    have settling := Store.Extends.of_setStandalone (world.store.withProcedures more) layer woven
    refine ⟨{ world with store := (world.store.withProcedures more).setStandalone layer woven },
      woven, ⟨(world.store.extends_withProcedures more).trans settling, rfl, rfl, rfl, rfl, rfl⟩,
      wrapped.later settling, fun receiver arguments => ?_⟩
    rw [entered, Procedure.call, stands]
    simp only [Action.run_getStore_bind, found, Option.bind_some, settled]
    rw [Action.run_bind_of_ok _ ran, Action.run_change_bind]

end World

/-! ### Reached worlds -/

/-- Whether a world comes about from an empty one by running honest programs: types composed
and extended in whatever order, instances built, members called and changed. -/
inductive World.Reached : World σ → Prop
  | fresh (state : σ) : Reached { state }
  | run {world : World σ} {program : Program σ} (reached : Reached world)
      (honest : program.KeepsTo Request.Honest) (budget : Nat) :
      Reached ((program.run (.ofBudget budget)).run world).2

private theorem World.Reached.accountable {world : World σ} (reached : world.Reached) :
    world.Accountable := by
  induction reached with
  | fresh state => exact ⟨fun _ _ => trivial, .initial⟩
  | run _ honest budget induction =>
    have bears := Passage.bears_accounting (σ := σ)
    have within := bears.within_ofBudget Passage.trusts_accounting budget
    exact (bears.follows_run within honest _ induction).2

/-! ### Onions -/

theorem Member.run_invoke_of_callThrough {world ready : World σ} {budget : Nat}
    {object : ObjectId} {name : String} {procedure : ProcedureId} {arguments : List Value}
    {action : Action σ Value}
    (resolved : world.store.dataValue? object name = some (.procedure procedure))
    (called : ((Meaning.ofBudget budget).call procedure (.object object) arguments).run world =
      action.run ready) :
    (invoke (.ofBudget budget) object name arguments).run world =
      (Action.naming name action).run ready := by
  rw [invoke, Action.run_bind_of_ok _ (run_read_of_dataValue? _ resolved), Action.run_naming,
    Action.run_naming, called]

/-- Advice forms an onion. Building a weave of pieces of advice that run first or
afterwards, over a root or over nothing, makes a procedure whose calls go through all of them
to the root, then and at any later time; installing advice that makes this weave of what a
target holds assigns that procedure. Whatever programs have done to get to a world, invoking
a member that holds a procedure with such a weave goes through its advice in the same way,
under the name of the member; and so does invoking one that holds a decorator nobody has
installed, whose advice is over nothing. -/
theorem Weave.onion_of_advice :
    (∀ (meaning : Meaning σ) (world : World σ) (weave : Weave) (wraps : List Wrap),
      weave.Wraps world.store wraps → (weave.root ≠ none ∨ wraps ≠ []) →
      ∃ woven later, (weave.build meaning).run world = (.ok (some woven), later) ∧
        world.OnlyWeaves later ∧
        (later.store.procedure woven).mark = some (.weave weave) ∧
        (∀ now, (Passage.evolution σ).leads later now →
          now.CallsThrough woven weave.root wraps) ∧
        ∀ (incoming : Weave) (target : ObjectId) (name : String),
          world.store.stackWeaves (world.store.weaveOf (world.store.dataValue? target name))
            incoming = weave →
          (Decorator.installWeave meaning incoming target name).run world =
            (Member.assign meaning target name (.procedure woven)).run later) ∧
    (∀ world : World σ, world.Reached →
      ∀ (object : ObjectId) (name : String) (procedure : ProcedureId),
      world.store.dataValue? object name = some (.procedure procedure) →
      (∀ (weave : Weave) (wraps : List Wrap), world.store.Chronological →
        (world.store.procedure procedure).mark = some (.weave weave) →
        world.store.Layered weave.layers wraps →
        (∀ layer, ¬ world.store.Uninstalled procedure layer) →
        ∀ budget, ∃ nesting : Nat → Nat, (∀ level, budget + level ≤ nesting level) ∧
          ∀ arguments,
            (Member.invoke (.ofBudget (budget + wraps.length)) object name arguments).run world =
              (Action.naming name (Wrap.callThrough (fun level => .ofBudget (nesting level))
                weave.root (.object object) wraps.reverse arguments)).run world) ∧
      ∀ (layer : LayerId) (wrap : Wrap), world.store.Uninstalled procedure layer →
        world.store.wrap? layer = some wrap →
        ∀ budget, ∃ nesting : Nat → Nat, (∀ level, budget + level ≤ nesting level) ∧
          ∃ ready, world.OnlyWeaves ready ∧ ∀ arguments,
            (Member.invoke (.ofBudget (budget + 3)) object name arguments).run world =
              (Action.naming name (Wrap.callThrough (fun level => .ofBudget (nesting level))
                none (.object object) [wrap] arguments)).run ready) := by
  refine ⟨fun meaning world weave wraps comes something => ?_,
    fun world reached object name procedure resolved =>
      ⟨fun weave wraps chronological marked layered installed budget => ?_,
        fun layer wrap uninstalled found budget => ?_⟩⟩
  · rcases weave.run_build_of_wraps meaning comes something with ⟨woven, more, ran, wrapped, marked⟩
    refine ⟨woven, _, ran, ⟨world.store.extends_withProcedures more, rfl, rfl, rfl, rfl, rfl⟩,
      marked, fun now evolution =>
        World.callsThrough_of_wrapped (wrapped.later evolution.1.extends),
      fun incoming target name stacked => ?_⟩
    rw [Decorator.installWeave, Action.run_getStore_bind]
    dsimp only
    rw [stacked, Action.run_bind_of_ok _ ran]
  · have wrapped : world.store.Wrapped weave.root wraps.reverse (some procedure) := by
      rcases reached.accountable.provenance.weave chronological marked layered with
        ⟨layer, _, uninstalled⟩ | wrapped
      · exact absurd uninstalled (installed layer)
      · exact wrapped
    rcases World.callsThrough_of_wrapped wrapped budget with ⟨nesting, deep, runs⟩
    exact ⟨nesting, deep, fun arguments =>
      Member.run_invoke_of_callThrough resolved (runs (.object object) arguments)⟩
  · rcases World.exists_standalone reached.accountable.provenance uninstalled found (budget + 1)
      with ⟨ready, woven, only, wrapped, called⟩
    have through : ready.CallsThrough woven none [wrap] := World.callsThrough_of_wrapped wrapped
    rcases through budget with ⟨nesting, deep, runs⟩
    exact ⟨nesting, deep, ready, only, fun arguments => Member.run_invoke_of_callThrough resolved
      ((called (.object object) arguments).trans (runs (.object object) arguments))⟩

/-! A method, advice that runs first and replaces the arguments, composed with it, and advice
that runs afterwards, with which the type is extended; then an instance is built. -/

def advisedInTurn : World Unit :=
  let program : Program Unit :=
    .createCode (fun _ => .done (.ok (.text "method"))) fun _ =>
    .createCode (fun _ => .done (.ok (.list [.null]))) fun _ =>
    .createCode (fun _ => .done (.ok .undefined)) fun _ =>
    .ask (.createProcedure none ⟨0⟩) fun _ =>
    .ask (.createProcedure none ⟨2⟩) fun _ =>
    .ask (.createAdvice (.before ⟨1⟩)) fun _ =>
    .ask (.createAdvice (.after ⟨2⟩)) fun _ =>
    .ask (.createObject none) fun _ =>
    .ask (.insert ⟨0⟩ "n" (.procedure ⟨1⟩)) fun _ =>
    .ask (.createObject none) fun _ =>
    .ask (.insert ⟨1⟩ "n" (.procedure ⟨4⟩)) fun _ =>
    .ask (.createObject none) fun _ =>
    .ask (.insert ⟨2⟩ "n" (.procedure ⟨6⟩)) fun _ =>
    .ask (.compose {} [.object ⟨0⟩, .object ⟨1⟩]) fun _ =>
    .readStore fun store =>
    .ask (.extend ((store.composite? ⟨10⟩).getD default) [.object ⟨2⟩]) fun _ =>
    .readStore fun store =>
    .ask (.construct ((store.composite? ⟨15⟩).getD default) []) fun _ =>
    .done (.ok .undefined)
  ((program.run (.ofBudget 9)).run { state := () }).2

private theorem advisedInTurn_reached : advisedInTurn.Reached := by
  refine .run (.fresh ()) ?_ 9
  simp [Program.KeepsTo, Request.Honest]

theorem Weave.onion_of_advice_in_turn :
    (∃ woven later, (build (.ofBudget 0) ⟨some ⟨1⟩, [⟨0⟩, ⟨1⟩]⟩).run advisedInTurn =
        (.ok (some woven), later) ∧
      later.CallsThrough woven (some ⟨1⟩) [.before ⟨1⟩, .after ⟨2⟩]) ∧
    (∃ nesting : Nat → Nat, (∀ level, 3 + level ≤ nesting level) ∧ ∀ arguments,
      (Member.invoke (.ofBudget 5) ⟨5⟩ "n" arguments).run advisedInTurn =
        (Action.naming "n" (Wrap.callThrough (fun level => .ofBudget (nesting level))
          (some ⟨1⟩) (.object ⟨5⟩) [.after ⟨2⟩, .before ⟨1⟩] arguments)).run advisedInTurn) ∧
    ∃ nesting : Nat → Nat, (∀ level, 3 + level ≤ nesting level) ∧
      ∃ ready, advisedInTurn.OnlyWeaves ready ∧ ∀ arguments,
        (Member.invoke (.ofBudget 6) ⟨1⟩ "n" arguments).run advisedInTurn =
          (Action.naming "n" (Wrap.callThrough (fun level => .ofBudget (nesting level))
            none (.object ⟨1⟩) [.before ⟨1⟩] arguments)).run ready := by
  have resolves {object : ObjectId} {procedure : ProcedureId}
      (held : (advisedInTurn.store.dataValue? object "n").bind Value.asProcedure =
        some procedure) :
      advisedInTurn.store.dataValue? object "n" = some (.procedure procedure) := by
    rcases Option.bind_eq_some_iff.mp held with ⟨value, resolved, same⟩
    cases value <;> cases same
    exact resolved
  have layered : advisedInTurn.store.Layered [⟨0⟩, ⟨1⟩] [.before ⟨1⟩, .after ⟨2⟩] :=
    .cons (by decide +kernel) (.cons (by decide +kernel) .nil)
  rcases onion_of_advice (σ := Unit) with ⟨builds, invokes⟩
  rcases builds (.ofBudget 0) advisedInTurn ⟨some ⟨1⟩, [⟨0⟩, ⟨1⟩]⟩ _
    ⟨layered, fun _ equal => by cases equal; decide +kernel, fun _ member => by
      obtain rfl := Wrap.after.inj (List.mem_pair.mp member |>.resolve_left nofun)
      decide +kernel⟩ (.inl (Option.some_ne_none _)) with ⟨woven, later, ran, _, _, through, _⟩
  refine ⟨⟨woven, later, ran, through later ((Passage.evolution Unit).refl later)⟩, ?_, ?_⟩
  · have marked : (advisedInTurn.store.procedure ⟨14⟩).weave? =
        some ⟨some ⟨1⟩, [⟨0⟩, ⟨1⟩]⟩ := by
      decide +kernel
    refine (invokes advisedInTurn advisedInTurn_reached ⟨5⟩ "n" ⟨14⟩
      (resolves (by decide +kernel))).1 _ _ (by decide +kernel)
      (Procedure.weave?_eq_some_iff.mp marked) layered ?_ 3
    rintro layer ⟨direct, unapplied, _⟩
    have applied : (advisedInTurn.store.procedure ⟨14⟩).body.direct? = none := by decide +kernel
    rw [unapplied] at applied
    cases applied
  · refine (invokes advisedInTurn advisedInTurn_reached ⟨1⟩ "n" ⟨4⟩
      (resolves (by decide +kernel))).2 ⟨0⟩ _ ?_ (by decide +kernel) 3
    exact ⟨⟨3⟩, Body.direct?_eq_some_iff.mp (by decide +kernel),
      Body.layer?_eq_some_iff.mp (by decide +kernel)⟩

end TraitComposition
