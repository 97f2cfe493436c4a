import TraitComposition.Proofs.Machine.Evolution
import TraitComposition.Proofs.Merge.Outcomes

/-!
The course of a merge: its turns in order, up to the first that fails. Between two turns procedures
are at most asked for their tables, so whatever the turns and the asking keep, the merge keeps. The
turns are those of the names that the sources enumerate when they are visited.
-/
namespace TraitComposition.Merge

variable {σ : Type}

/-! ### Asking -/

theorem Asked.trans {first second third : World σ} (start : Asked first second)
    (rest : Asked second third) : Asked first third :=
  fun passage asks => passage.trans (start passage asks) (rest passage asks)

theorem Asked.evolution {before after : World σ} (asked : Asked before after) :
    (Passage.evolution σ).leads before after :=
  asked _ Passage.bears_evolution.follows_prototypeOf

private theorem Visit.asked_of_start? {world : World σ} {index : Nat} {source : Value}
    {visit : Visit}
    {after : Store} (starts : Visit.start? index source world.store = some (visit, after)) :
    Asked world { world with store := after } :=
  fun _ asks => Visit.leads_of_start? asks world starts

private theorem Visit.isSource_of_not_start? {index : Nat} {source : Value} {store : Store}
    (stays : Visit.start? index source store = none) : source.isSource = false := by
  cases valid : source.isSource with
  | false => rfl
  | true =>
      rcases Visit.exists_of_isSource index valid store with ⟨visit, after, starts⟩
      cases stays.symm.trans starts

/-! ### Courses -/

variable (meaning : Meaning σ) (plan : Plan)

inductive Course : World σ → List (Turn σ) → Except Fault Unit → World σ → Prop
  | finished {first last : World σ} (asks : Asked first last) : Course first [] (.ok ()) last
  /-- The next source is none. -/
  | invalid {first last : World σ} {source : Value} (index : Nat) (asks : Asked first last)
      (invalid : source.isSource = false) :
      Course first [] (.error (.invalidInput index source.typeName)) last
  | failed {first last : World σ} {turn : Turn σ} {fault : Fault} (asks : Asked first turn.before)
      (ran : turn.run meaning plan = (.error fault, last)) :
      Course first [turn] (.error fault) last
  | turn {first between last : World σ} {turn : Turn σ} {left : List Conflict}
      {rest : List (Turn σ)} {result : Except Fault Unit} (asks : Asked first turn.before)
      (ran : turn.run meaning plan = (.ok left, between))
      (course : Course between rest result last) : Course first (turn :: rest) result last

variable {meaning plan}

namespace Course

private theorem of_asked {first between last : World σ} {taken : List (Turn σ)}
    {result : Except Fault Unit} (asked : Asked first between)
    (course : Course meaning plan between taken result last) :
    Course meaning plan first taken result last := by
  cases course with
  | finished asks => exact .finished (asked.trans asks)
  | invalid index asks bad => exact .invalid index (asked.trans asks) bad
  | failed asks ran => exact .failed (asked.trans asks) ran
  | turn asks ran course => exact .turn (asked.trans asks) ran course

private theorem append {first between last : World σ} {early late : List (Turn σ)}
    {result : Except Fault Unit} (start : Course meaning plan first early (.ok ()) between)
    (course : Course meaning plan between late result last) :
    Course meaning plan first (early ++ late) result last := by
  generalize succeeded : Except.ok () = done at start
  induction start with
  | finished asks => exact course.of_asked asks
  | invalid | failed => cases succeeded
  | turn asks ran _ induction => exact .turn asks ran (induction course succeeded)

theorem keeps {property : World σ → Prop}
    (asking : ∀ before after, Asked before after → property before → property after)
    {first last : World σ} {taken : List (Turn σ)} {result : Except Fault Unit}
    (course : Course meaning plan first taken result last)
    (turning : ∀ turn ∈ taken, property turn.before → property (turn.run meaning plan).2)
    (holds : property first) :
    (∀ turn ∈ taken, property turn.before) ∧ property last := by
  induction course with
  | finished asks => exact ⟨nofun, asking _ _ asks holds⟩
  | invalid index asks => exact ⟨nofun, asking _ _ asks holds⟩
  | failed asks ran =>
      rw [List.forall_mem_singleton] at turning ⊢
      have before := asking _ _ asks holds
      have after := turning before
      rw [ran] at after
      exact ⟨before, after⟩
  | turn asks ran _ induction =>
      rw [List.forall_mem_cons] at turning ⊢
      have before := asking _ _ asks holds
      have after := turning.1 before
      rw [ran] at after
      rcases induction turning.2 after with ⟨rest, last⟩
      exact ⟨⟨before, rest⟩, last⟩

end Course

abbrev ended {α : Type} (result : Except Fault α) : Except Fault Unit :=
  result.map fun _ => ()

variable (meaning plan)

private theorem course_of_names (visit : Visit) (names : List String) (held : List Conflict)
    (world : World σ) :
    Course meaning plan world (turnsOfNames meaning plan visit names held world)
      (ended ((names.foldlM (fun held name => visit.mix meaning plan name held) held).run world).1)
      ((names.foldlM (fun held name => visit.mix meaning plan name held) held).run world).2 := by
  induction names generalizing held world with
  | nil => exact .finished (.refl world)
  | cons name names induction =>
      let turn : Turn σ := ⟨visit, name, held, world⟩
      rw [turnsOfNames, List.foldlM_cons, Action.run_bind]
      rcases ran : turn.run meaning plan with ⟨fault | left, later⟩
      · have mixed : (visit.mix meaning plan name held).run world = (.error fault, later) := ran
        rw [mixed]
        exact .failed (.refl world) ran
      · have mixed : (visit.mix meaning plan name held).run world = (.ok left, later) := ran
        rw [mixed]
        exact .turn (.refl world) ran (induction left later)

private theorem course_of_source (index : Nat) (source : Value) (held : List Conflict)
    (world : World σ) :
    Course meaning plan world (turnsOfSource meaning plan index source held world)
      (ended ((mixSource meaning plan index source held).run world).1)
      ((mixSource meaning plan index source held).run world).2 := by
  rw [run_mixSource_eq_visit, turnsOfSource]
  cases starts : Visit.start? index source world.store with
  | none => exact .invalid index (.refl world) (Visit.isSource_of_not_start? starts)
  | some started =>
      have asked := Visit.asked_of_start? starts
      exact (course_of_names meaning plan started.1 _ held _).of_asked asked

theorem course_of_sources (sources : List Value) (index : Nat) (held : List Conflict)
    (world : World σ) :
    Course meaning plan world (turns meaning plan index sources held world)
      (ended ((mixSources meaning plan index sources held).run world).1)
      ((mixSources meaning plan index sources held).run world).2 := by
  induction sources generalizing index held world with
  | nil => exact .finished (.refl world)
  | cons source sources induction =>
      have visited := course_of_source meaning plan index source held world
      rw [turns, mixSources, Action.run_bind]
      rcases ran : (mixSource meaning plan index source held).run world with
        ⟨fault | left, later⟩
      · rw [ran] at visited
        rw [List.append_nil]
        exact visited
      · rw [ran] at visited
        exact visited.append (induction (index + 1) left later)

/-! ### Where the turns begin -/

section Turns

variable {meaning plan} (evolving : meaning.Evolving) {index : Nat} {sources : List Value}
  {held : List Conflict} {world : World σ}

include evolving

theorem leads_of_turns : ∀ turn ∈ turns meaning plan index sources held world,
    (Passage.evolution σ).leads world turn.before := by
  refine ((course_of_sources meaning plan sources index held world).keeps
    (fun _ _ asked leads => (Passage.evolution σ).trans leads asked.evolution)
    (fun turn _ leads => ?_) ((Passage.evolution σ).refl world)).1
  exact (Passage.evolution σ).trans leads
    (turn.visit.follows_mix (respects_evolution evolving plan turn.name) turn.held turn.before)

theorem rooted_of_turns (rooted : world.store.Rooted) :
    ∀ turn ∈ turns meaning plan index sources held world, turn.before.store.Rooted :=
  fun turn taken => rooted.evolves (leads_of_turns evolving turn taken).1

theorem hasObject_of_turns (object : ObjectId) (known : world.store.hasObject object = true) :
    ∀ turn ∈ turns meaning plan index sources held world,
      turn.before.store.hasObject object = true :=
  fun turn taken => ((leads_of_turns evolving turn taken).1.extends.object object known).1

end Turns

/-! ### What is enumerated -/

def Turn.place (turn : Turn σ) : Visit × String :=
  (turn.visit, turn.name)

def enumerated : (index : Nat) → List Value → List Conflict → World σ → List (Visit × String)
  | _, [], _, _ => []
  | index, source :: sources, held, world =>
      (match Visit.start? index source world.store with
        | some (visit, store) =>
            (store.enumerableNames visit.table).map fun name => (visit, name)
        | none => []) ++
      match (mixSource meaning plan index source held).run world with
        | (.ok left, later) => enumerated (index + 1) sources left later
        | (.error _, _) => []

private theorem places_turnsOfNames (visit : Visit) (names : List String) (held : List Conflict)
    (world : World σ) :
    (turnsOfNames meaning plan visit names held world).map Turn.place =
      ((turnsOfNames meaning plan visit names held world).map Turn.name).map
        fun name => (visit, name) := by
  rw [List.map_map]
  apply List.map_congr_left
  intro turn member
  have visited := (keeps_turnsOfNames meaning plan (fun _ => True) visit names held world trivial
    fun _ _ _ => trivial).1 turn member
  rw [Turn.place, visited.1]
  rfl

private theorem succeeded_of_turnsOfNames (visit : Visit) (names : List String)
    (held : List Conflict) (world : World σ)
    (turned : ∀ turn ∈ turnsOfNames meaning plan visit names held world,
      ∃ left, (turn.run meaning plan).1 = .ok left) :
    ∃ left later, (names.foldlM (fun held name => visit.mix meaning plan name held) held).run
      world = (.ok left, later) := by
  induction names generalizing held world with
  | nil => exact ⟨held, world, rfl⟩
  | cons name names induction =>
      rw [turnsOfNames, List.forall_mem_cons] at turned
      rcases turned with ⟨⟨left, succeeded⟩, rest⟩
      have ran : (visit.mix meaning plan name held).run world = (.ok left, _) :=
        Prod.ext succeeded rfl
      rw [show Turn.run meaning plan ⟨visit, name, held, world⟩ = _ from ran] at rest
      rw [List.foldlM_cons, Action.run_bind_of_ok _ ran]
      exact induction left _ rest

/-- The turns are those of the names that are enumerated, in their order, and all of them unless a
turn fails. -/
theorem places_turns (sources : List Value) (index : Nat) (held : List Conflict)
    (world : World σ) :
    (turns meaning plan index sources held world).map Turn.place <+:
        enumerated meaning plan index sources held world ∧
      ((∀ turn ∈ turns meaning plan index sources held world,
          ∃ left, (turn.run meaning plan).1 = .ok left) →
        (turns meaning plan index sources held world).map Turn.place =
          enumerated meaning plan index sources held world) := by
  induction sources generalizing index held world with
  | nil => exact ⟨List.prefix_rfl, fun _ => rfl⟩
  | cons source sources induction =>
      have visited := run_mixSource_eq_visit meaning plan index source held world
      rw [turns, turnsOfSource, enumerated, List.map_append, List.forall_mem_append]
      cases starts : Visit.start? index source world.store with
      | none =>
          rw [starts] at visited
          rw [visited]
          exact ⟨List.prefix_rfl, fun _ => rfl⟩
      | some started =>
          rcases started with ⟨visit, after⟩
          have early := names_turnsOfNames meaning plan visit (after.enumerableNames visit.table)
            held { world with store := after }
          rw [starts] at visited
          dsimp only at visited ⊢
          rw [places_turnsOfNames meaning plan]
          rcases ran : (mixSource meaning plan index source held).run world with
            ⟨fault | left, later⟩
          · dsimp only
            rw [List.map_nil, List.append_nil, List.append_nil]
            refine ⟨early.1.map _, fun turned => ?_⟩
            rcases succeeded_of_turnsOfNames meaning plan _ _ _ _ turned.1 with
              ⟨left, last, succeeded⟩
            cases ran.symm.trans (visited.trans succeeded)
          · have all := early.2 left later (visited.symm.trans ran)
            dsimp only
            rw [all, List.prefix_append_right_inj]
            rcases induction (index + 1) left later with ⟨inOrder, complete⟩
            exact ⟨inOrder, fun turned => by rw [complete turned.2]⟩

end TraitComposition.Merge
