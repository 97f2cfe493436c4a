import TraitComposition.Proofs.Merge.FreshSources
import TraitComposition.Proofs.Merge.Holdings

/-!
Merging bare tables. A destination that owns nothing but plain members takes up what bare
tables hold, name by name: what a name resolves to afterwards is what comes of the holding
before, whether or not the destination owned it.
-/
namespace TraitComposition

variable {σ : Type}

/-! ### Destinations -/

namespace Store

/-- Whether an object that was made meanwhile, with nothing else changed, owns nothing but
plain members and resolves every name to a holding. -/
structure Takes (start now : Store) (target : ObjectId) (holding : String → Holding) :
    Prop where
  adds : start.OnlyAdds now
  new : start.hasObject target = false
  known : now.hasObject target = true
  plain : ∀ name descriptor, now.ownDescriptor? target name = some descriptor →
    ∃ value, descriptor = .ofValue value
  holds : ∀ name, now.Holds target name (holding name)

namespace Takes

variable {start now later : Store} {target : ObjectId} {holding : String → Holding}

private theorem congr {others : String → Holding} (takes : start.Takes now target holding)
    (same : ∀ name, holding name = others name) : start.Takes now target others := by
  rw [← funext same]
  exact takes

private theorem added (takes : start.Takes now target holding) (adds : now.OnlyAdds later)
    (rooted : now.Rooted) : start.Takes later target holding where
  adds := takes.adds.trans adds
  new := takes.new
  known := (adds.extends_.object target takes.known).1
  plain name descriptor owned := by
    have different : target ≠ now.nextObject := (nextObject_ne takes.known).symm
    have same := adds.members target takes.known different
    rw [ownDescriptor?, same] at owned
    exact takes.plain name descriptor owned
  holds name := (takes.holds name).of_descriptor?_eq adds.extends_
    (adds.descriptor?_eq rooted takes.known name)

theorem storeValue (takes : start.Takes now target holding) (rooted : now.Rooted) (name : String)
    (value : Value) {held : Holding}
    (holds : (now.storeMember target name (.ofValue value)).Holds target name held) :
    start.Takes (now.storeMember target name (.ofValue value)) target fun other =>
      if other = name then held else holding other where
  adds := takes.adds.changing (.of_storeMember now target name _) rfl takes.new
  new := takes.new
  known := by simpa [storeMember] using takes.known
  plain other descriptor owned := by
    by_cases same : other = name
    · subst other
      rw [ownDescriptor?_storeMember_same _ _ _ _ takes.known] at owned
      exact ⟨value, (Option.some.inj owned).symm⟩
    · rw [ownDescriptor?_storeMember_other _ _ fun both => same both.2] at owned
      exact takes.plain other descriptor owned
  holds other := by
    by_cases same : other = name
    · subst other
      rw [if_pos rfl]
      exact holds
    · have confined := Confined.of_storeMember now target name (.ofValue value)
      rw [if_neg same]
      exact (takes.holds other).of_descriptor?_eq confined.extends_
        (confined.descriptor?_eq rooted takes.known fun member =>
          same (List.mem_singleton.mp member))

private theorem descriptor?_storeValue (takes : start.Takes now target holding) (name : String)
    (value : Value) :
    (now.storeMember target name (.ofValue value)).descriptor? target name =
      some (.ofValue value) :=
  descriptor?_of_own (ownDescriptor?_storeMember_same _ _ _ _ takes.known)

end Takes

end Store

/-! ### Members -/

section Members

variable {meaning : Meaning σ} {world now : World σ} {target : ObjectId}
  {holding : String → Holding}

theorem Store.Takes.run_put (takes : world.store.Takes now.store target holding)
    {plan : Merge.Plan} (destination : plan.target = target) (raw : plan.definer = .raw)
    (name : String) (value : Value) :
    (Merge.put meaning plan name (.ofValue value)).run now =
      (.ok (), { now with store := now.store.storeMember target name (.ofValue value) }) := by
  subst destination
  exact Merge.run_put_of_plain meaning plan raw value (takes.plain name)

theorem Store.Takes.run_assign (takes : world.store.Takes now.store target holding)
    {name : String} (ready : (holding name).Ready meaning world) (value : Value) :
    (Member.assign meaning target name value).run now =
      (.ok (), { now with store := now.store.storeMember target name (.ofValue value) }) := by
  have holds := takes.holds name
  have found : now.store.lookup target name = none ∨ ∃ owner descriptor old,
      now.store.lookup target name = some (owner, descriptor) ∧
        descriptor.shape = .data old true := by
    cases held : holding name with
    | nothing =>
        rw [held] at holds
        exact .inl (Option.map_eq_none_iff.mp holds)
    | plain descriptor =>
        rw [held] at holds ready
        rcases Option.map_eq_some_iff.mp holds with ⟨⟨owner, _⟩, found, rfl⟩
        rcases ready.1 with ⟨old, shape⟩
        exact .inr ⟨owner, _, old, found, shape⟩
    | advised weave =>
        rw [held] at holds
        rcases holds with ⟨method, resolved, _⟩
        rcases Option.map_eq_some_iff.mp resolved with ⟨⟨owner, _⟩, found, rfl⟩
        exact .inr ⟨owner, _, _, found, rfl⟩
  rcases found with missing | ⟨owner, descriptor, old, found, shape⟩
  · rw [Member.assign, Action.run_getStore_bind, missing]
    rfl
  · have stored : (if owner = target then descriptor.withValue value else .ofValue value) =
        .ofValue value := by
      split
      · next equal =>
        have owned := (Store.ownDescriptor?_of_lookup found).2
        rw [equal] at owned
        rcases takes.plain name descriptor owned with ⟨_, rfl⟩
        rfl
      · rfl
    rw [Member.run_assign meaning value found shape, stored]

section Running

variable (evolving : meaning.Evolving) (evolution : (Passage.evolution σ).leads world now)
  (rooted : now.store.Rooted) (takes : world.store.Takes now.store target holding)

include evolving evolution rooted takes

theorem exists_run_installWeave {name : String} {weave : Weave} (layered : weave.layers ≠ [])
    (sound : weave.Sound meaning world) (ready : (holding name).Ready meaning world) :
    ∃ later, (Decorator.installWeave meaning weave target name).run now = (.ok (), later) ∧
      world.store.Takes later.store target fun other =>
        if other = name then
          .advised (world.store.stackWeaves ((holding name).weave world.store) weave)
        else holding other := by
  have current := ready.weaveOf_eq evolution.1.extends (takes.holds name)
  have stacked := ready.sound.stackWeaves_eq evolution.1.extends weave
  have whole := (ready.sound.stack sound).later evolution
  have layeredToo : (world.store.stackWeaves ((holding name).weave world.store) weave).layers ≠
      [] := by
    rcases List.exists_mem_of_ne_nil _ layered with ⟨layer, member⟩
    exact List.ne_nil_of_mem ((Weave.mem_layers_stack _).mpr (.inr member))
  rcases Weave.exists_run_build evolving whole layeredToo with
    ⟨woven, built, ran, adds, _, marked⟩
  have between := takes.added adds rooted
  have advised : (built.store.storeMember target name (.ofValue (.procedure woven))).Holds target
      name (.advised (world.store.stackWeaves ((holding name).weave world.store) weave)) :=
    ⟨woven, between.descriptor?_storeValue name _, marked⟩
  refine ⟨{ built with
      store := built.store.storeMember target name (.ofValue (.procedure woven)) }, ?_,
    between.storeValue (adds.rooted rooted) name (.procedure woven) advised⟩
  rw [Decorator.installWeave, Action.run_getStore_bind]
  dsimp only
  rw [current, stacked, Action.run_bind_of_ok _ ran]
  exact between.run_assign ready (.procedure woven)

end Running

end Members

/-! ### Tables -/

namespace Merge

section Tables

variable {meaning : Meaning σ} (evolving : meaning.Evolving) {world now : World σ}
  (evolution : (Passage.evolution σ).leads world now) (rooted : world.store.Rooted) {plan : Plan}
  (raw : plan.definer = .raw) {holding : String → Holding}
  (takes : world.store.Takes now.store plan.target holding) {table : ObjectId}

variable (meaning) in
include rooted raw takes in
theorem exists_run_put (name : String) (value : Value) :
    ∃ later, (put meaning.step plan name (.ofValue value) >>= fun _ =>
        (pure [] : Action σ (List Conflict))).run now = (.ok [], later) ∧
      world.store.Takes later.store plan.target fun other =>
        if other = name then .plain (.ofValue value) else holding other :=
  ⟨{ now with store := now.store.storeMember plan.target name (.ofValue value) },
    Action.run_bind_of_ok _ (takes.run_put rfl raw name value),
    takes.storeValue (takes.adds.rooted rooted) name value
      (takes.descriptor?_storeValue name value)⟩

include evolving evolution rooted raw takes

theorem exists_run_meet {name : String} {value : Value}
    (bare : Store.Bare meaning world table)
    (resolved : world.store.descriptor? table name = some (.ofValue value))
    (mergeable : value.Mergeable meaning world)
    (ready : world.store.Advises table name → (holding name).Ready meaning world) :
    ∃ later, (mixMember meaning.step plan table name []).run now = (.ok [], later) ∧
      world.store.Takes later.store plan.target fun other =>
        if other = name then (holding name).meet world.store value else holding other := by
  rcases Option.map_eq_some_iff.mp resolved with ⟨⟨owner, descriptor⟩, foundThen, equal⟩
  obtain rfl : descriptor = .ofValue value := equal
  have found := (takes.adds.lookup_eq rooted bare.known name).trans foundThen
  have stored := exists_run_put meaning rooted raw takes name value
  cases value with
  | procedure method =>
      rcases mergeable method rfl with ⟨sound, hooked⟩
      have extends_ := evolution.1.extends
      have hook := extends_.hook sound.hasProcedure
      cases hookThen : (world.store.procedure method).hook with
      | none =>
          rw [Holding.meet_of_unhooked _ hookThen]
          rw [run_mixMember_of_unhooked meaning.step plan [] found rfl (hook.trans hookThen),
            settledBy_nil, extends_.isRequired sound.hasProcedure, (takes.holds name).has_eq]
          split
          · refine ⟨now, rfl, takes.congr fun other => ?_⟩
            split
            · next same => rw [same]
            · rfl
          · exact stored
      | some installed =>
          rw [hookThen] at hooked hook
          cases installed with
          | weave weave =>
              have shown := Store.shown?_of_descriptor? resolved
              have advised := ready ⟨method, shown, by rw [hookThen]; rfl⟩
              rcases exists_run_installWeave evolving evolution (takes.adds.rooted rooted) takes
                hooked.1 hooked.2 advised with ⟨later, ran, takesThen⟩
              refine ⟨later, ?_, ?_⟩
              · rw [run_mixMember_of_hook meaning.step plan [] found rfl hook]
                exact Action.run_bind_of_ok _ ran
              · rw [Holding.meet_of_advice _ hookThen]
                exact takesThen
          | patch | aliased | code => exact hooked.elim
  | _ =>
      rw [run_mixMember_of_value meaning.step plan [] found rfl, settledBy_nil]
      exact stored

theorem exists_run_meetNames (bare : Store.Bare meaning world table) {names : List String}
    (unique : names.Nodup)
    (listed : ∀ name ∈ names, name ∈ world.store.enumerableNames table)
    (ready : ∀ name, world.store.Advises table name → (holding name).Ready meaning world) :
    ∃ later, (names.foldlM (fun held name => mixMember meaning.step plan table name held) []).run
        now = (.ok [], later) ∧
      (Passage.evolution σ).leads world later ∧
      world.store.Takes later.store plan.target fun other =>
        if other ∈ names then world.store.meetTable other (holding other) table
        else holding other := by
  induction names generalizing now holding with
  | nil => exact ⟨now, rfl, evolution, takes.congr fun other => (if_neg List.not_mem_nil).symm⟩
  | cons name names induction =>
      rcases bare.listed (listed name (List.mem_cons_self ..)) with ⟨value, resolved, mergeable⟩
      rcases exists_run_meet evolving evolution rooted raw takes bare resolved mergeable
        (ready name) with ⟨between, ran, takesThen⟩
      have onward := (respects_evolution evolving.step plan name).mixMember table [] now
      rw [ran] at onward
      have readyThen : ∀ other, world.store.Advises table other →
          (if other = name then (holding name).meet world.store value
            else holding other).Ready meaning world := by
        intro other advises
        split
        · next same =>
          subst other
          exact (ready name advises).meet mergeable
        · exact ready other advises
      rcases induction ((Passage.evolution σ).trans evolution onward) takesThen unique.of_cons
        (fun other member => listed other (List.mem_cons_of_mem _ member)) readyThen with
        ⟨later, ranRest, evolutionRest, takesRest⟩
      refine ⟨later, (Action.run_bind_of_ok _ ran).trans ranRest, evolutionRest,
        takesRest.congr fun other => ?_⟩
      have fresh : name ∉ names := (List.nodup_cons.mp unique).1
      have first : world.store.meetTable name (holding name) table =
          (holding name).meet world.store value := by
        rw [Store.meetTable, Store.shown?_of_descriptor? resolved]
      by_cases same : other = name
      · subst other
        simp [fresh, first]
      · simp [same]

private theorem exists_run_meetTable (index : Nat) (bare : Store.Bare meaning world table)
    (ready : ∀ name, world.store.Advises table name → (holding name).Ready meaning world) :
    ∃ later, (mixSource meaning.step plan index (.object table) []).run now = (.ok [], later) ∧
      (Passage.evolution σ).leads world later ∧
      world.store.Takes later.store plan.target fun name =>
        world.store.meetTable name (holding name) table := by
  have names := takes.adds.enumerableNames_eq rooted bare.known
  rcases exists_run_meetNames evolving evolution rooted raw takes bare
    (world.store.nodup_enumerableNames table) (fun name member => member) ready with
    ⟨later, ran, onward, takesThen⟩
  refine ⟨later, ?_, onward, takesThen.congr fun name => ?_⟩
  · rw [mixSource, Action.run_getStore_bind, names]
    exact ran
  · split
    · rfl
    · next unlisted => exact (Store.meetTable_of_unlisted unlisted _).symm

omit evolution takes in
theorem exists_run_meetTables :
    ∀ (tables : List ObjectId) (index : Nat) {now : World σ} {holding : String → Holding},
      (Passage.evolution σ).leads world now →
      world.store.Takes now.store plan.target holding →
      (∀ table ∈ tables, Store.Bare meaning world table) →
      (∀ table ∈ tables, ∀ name, world.store.Advises table name →
        (holding name).Ready meaning world) →
      ∃ later, (mixSources meaning.step plan index (tables.map .object) []).run now =
          (.ok [], later) ∧
        (Passage.evolution σ).leads world later ∧
        world.store.Takes later.store plan.target fun name =>
          world.store.meetTables name (holding name) tables
  | [], _, now, holding, evolution, takes, _, _ => ⟨now, rfl, evolution, takes⟩
  | table :: tables, index, now, holding, evolution, takes, bare, ready => by
      rcases exists_run_meetTable evolving evolution rooted raw takes index
        (bare table (List.mem_cons_self ..)) (ready table (List.mem_cons_self ..)) with
        ⟨between, ran, onward, takesThen⟩
      rcases exists_run_meetTables tables (index + 1) onward takesThen
        (fun other member => bare other (List.mem_cons_of_mem _ member))
        (fun other member name advises =>
          (ready other (List.mem_cons_of_mem _ member) name advises).meetTable
            (bare table (List.mem_cons_self ..))) with ⟨later, ranRest, onwardRest, takesRest⟩
      exact ⟨later, (Action.run_bind_of_ok _ ran).trans ranRest, onwardRest, takesRest⟩

end Tables

end Merge

end TraitComposition
