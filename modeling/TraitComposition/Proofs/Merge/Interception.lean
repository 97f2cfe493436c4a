import TraitComposition.Proofs.Machine.Sheltering
import TraitComposition.Proofs.Merge.Courses
import TraitComposition.Proofs.Merge.Names

/-!
Interception. A merge that defines members by calling a procedure writes to its destination itself
only where it assigns to a name that the destination owns; for everything else it calls the
procedure, once for each member. Both the member and what the destination owns are looked up when
the name has its turn, so they may be due to calls that came before.
-/
namespace TraitComposition.Merge

variable {σ : Type}

/-! ### What asking leaves alone -/

namespace Asked

variable {before after : World σ} (asked : Asked before after) {object : ObjectId}
  (known : before.store.hasObject object = true)

include asked known

private theorem members : after.store.members object = before.store.members object :=
  (asked (Passage.keeping σ fun _ => True) asks_keeping).members object known trivial

private theorem hasOwn (name : String) :
    after.store.hasOwn object name = before.store.hasOwn object name :=
  congrArg (fun members => (members.find? name).isSome) (asked.members known)

private theorem descriptor? (rooted : before.store.Rooted) (name : String) :
    after.store.descriptor? object name = before.store.descriptor? object name :=
  asked.changes.descriptor?_eq rooted known fun _ _ => id

end Asked

/-! ### What a turn does

A turn without a hook writes the member that the source shows, or the one that the destination
resolves and keeps. If members are defined by calling a procedure, this one is intercepted. -/

namespace Turn

def Writes (turn : Turn σ) (target : ObjectId) (descriptor : Descriptor) : Prop :=
  turn.before.store.descriptor? turn.visit.table turn.name = some descriptor ∨
    turn.before.store.descriptor? target turn.name = some descriptor

inductive Intercepted (meaning : Meaning σ) (plan : Plan) (definer : ProcedureId)
    (turn : Turn σ) : Prop
  /-- The source no longer shows the name that it enumerated. -/
  | missing (gone : turn.before.store.has turn.visit.table turn.name = false)
      (ran : turn.run meaning plan = (.ok turn.held, turn.before))
  /-- A bare table requires what the destination resolves. -/
  | spared (shown : turn.before.store.has turn.visit.table turn.name = true)
      (spares : turn.spares plan.target = true)
      (ran : turn.run meaning plan = (.ok turn.held, turn.before))
  /-- A value is assigned to a name that the destination owns. -/
  | assigned {asked : World σ} {answer : List Conflict} {descriptor : Descriptor} {value : Value}
      (offers : turn.Offers plan.target) (writes : turn.Writes plan.target descriptor)
      (owned : turn.before.store.hasOwn plan.target turn.name = true)
      (data : descriptor.value? = some value) (asks : Asked turn.before asked)
      (ran : turn.run meaning plan = (Member.assign meaning plan.target turn.name value >>=
        fun _ => pure answer).run asked)
  /-- The procedure is called. -/
  | defined {asked : World σ} {answer : List Conflict} {descriptor : Descriptor}
      (offers : turn.Offers plan.target) (writes : turn.Writes plan.target descriptor)
      (unassignable : turn.before.store.hasOwn plan.target turn.name = false ∨
        descriptor.isAccessor = true)
      (asks : Asked turn.before asked)
      (ran : turn.run meaning plan = (descriptor.encode >>= fun fields =>
        Action.naming turn.name (meaning.call definer (.object plan.target)
          [.text turn.name, .object fields]) >>= fun _ => pure answer).run asked)

/-- Whether a turn runs no hook, and neither the procedure that defines members nor an assignment to
a name that the destination owns takes from the destination's members a property that they have. -/
structure Upholds (meaning : Meaning σ) (plan : Plan) (definer : ProcedureId)
    (property : MemberTable → Prop) (turn : Turn σ) : Prop where
  undecorated : turn.decorator? plan.target = none
  assign : ∀ value now, Asked turn.before now →
    now.store.hasOwn plan.target turn.name = true → property (now.store.members plan.target) →
      property (((Member.assign meaning plan.target turn.name value).run now).2.store.members
        plan.target)
  call : ∀ fields now, (Passage.evolution σ).leads turn.before now →
    property (now.store.members plan.target) →
      property (((meaning.call definer (.object plan.target)
        [.text turn.name, .object fields]).run now).2.store.members plan.target)

/-- Whether a turn runs no hook, and neither the procedure that defines members nor the setter that
may run gives the destination a name or takes one from it. -/
structure Idle (meaning : Meaning σ) (plan : Plan) (definer : ProcedureId) (turn : Turn σ) :
    Prop where
  undecorated : turn.decorator? plan.target = none
  setter : ∀ setter, turn.setter? plan.target = some setter → ∀ value now, Asked turn.before now →
    ((meaning.call setter (.object plan.target) [value]).run now).2.store.ownNames plan.target =
      now.store.ownNames plan.target
  call : ∀ fields now, (Passage.evolution σ).leads turn.before now →
    ((meaning.call definer (.object plan.target)
      [.text turn.name, .object fields]).run now).2.store.ownNames plan.target =
        now.store.ownNames plan.target

section Turn

variable {meaning : Meaning σ} {plan : Plan} {definer : ProcedureId}
  {turn : Turn σ} (rooted : turn.before.store.Rooted)
  (known : turn.before.store.hasObject plan.target = true)

include rooted known

private theorem intercepted (custom : plan.definer = .custom definer)
    (undecorated : turn.decorator? plan.target = none) :
    turn.Intercepted meaning plan definer := by
  cases turn.outcome meaning plan with
  | hook decorates => cases undecorated.symm.trans decorates
  | nothing asks _ ran idle =>
      rcases idle with ⟨_, resolved, missing⟩ | ⟨unoffered, rfl, rfl⟩
      · -- What the destination is to keep is there whatever procedures were asked.
        rw [asks.descriptor? known rooted] at missing
        rw [Store.has_eq_isSome, missing] at resolved
        cases resolved
      · cases shown : turn.before.store.has turn.visit.table turn.name with
        | false => exact .missing shown ran
        | true =>
            cases spares : turn.spares plan.target with
            | true => exact .spared shown spares ran
            | false => exact absurd ⟨shown, spares⟩ unoffered
  | @member asked answer descriptor asks origin ran offers =>
      rw [asks.descriptor? known rooted] at origin
      have defines (unassignable : turn.before.store.hasOwn plan.target turn.name = false ∨
          descriptor.isAccessor = true)
          (defined : (put meaning plan turn.name descriptor).run asked =
            (plan.definer.define meaning plan.target turn.name descriptor).run asked) :
          turn.Intercepted meaning plan definer := by
        rw [custom] at defined
        have called := ran.trans (Action.run_bind_congr defined _)
        simp only [Definer.define, bind_assoc, pure_bind] at called
        exact .defined offers origin unassignable asks called
      cases data : descriptor.value? with
      | none =>
          refine defines (.inr (Descriptor.isAccessor_iff.mpr data)) ?_
          rw [put, data]
      | some value =>
          cases owned : turn.before.store.hasOwn plan.target turn.name with
          | true =>
              have assigns : (put meaning plan turn.name descriptor).run asked =
                  (Member.assign meaning plan.target turn.name value).run asked := by
                simp only [put, data, Action.run_getStore_bind, asks.hasOwn known, owned, if_true]
              exact .assigned offers origin owned data asks
                (ran.trans (Action.run_bind_congr assigns _))
          | false =>
              refine defines (.inl owned) ?_
              simp only [put, data, Action.run_getStore_bind, asks.hasOwn known, owned,
                Bool.false_eq_true, if_false]

private theorem Upholds.keeps (custom : plan.definer = .custom definer)
    {property : MemberTable → Prop} (upholds : turn.Upholds meaning plan definer property)
    (holds : property (turn.before.store.members plan.target)) :
    property ((turn.run meaning plan).2.store.members plan.target) := by
  have step : turn.Intercepted meaning plan definer :=
    intercepted rooted known custom upholds.undecorated
  cases step with
  | missing _ ran | spared _ _ ran =>
      rw [ran]
      exact holds
  | @assigned asked _ _ value _ _ owned _ asks ran =>
      rw [ran, Action.reached_bind_pure]
      rw [← asks.members known] at holds
      rw [← asks.hasOwn known] at owned
      exact upholds.assign value asked asks owned holds
  | @defined asked _ descriptor _ _ _ asks ran =>
      have knownNow := (asks.evolution.1.extends.object _ known).1
      have keeps : (Passage.keeping σ fun _ => True).leads asked
          ((descriptor.encode : Action σ ObjectId).run asked).2 := descriptor.keeping_encode asked
      have encodes := Passage.bears_evolution.follows_encode descriptor asked
      rw [← asks.members known, ← keeps.members _ knownNow trivial] at holds
      rw [ran, Descriptor.encode, Action.run_edit_bind, Action.reached_bind_pure, Action.run_naming]
      exact upholds.call _ _ ((Passage.evolution σ).trans asks.evolution encodes) holds

private theorem Idle.upholds (idle : turn.Idle meaning plan definer) (names : List String) :
    turn.Upholds meaning plan definer fun members => members.names = names where
  undecorated := idle.undecorated
  assign value now asks owned same := by
    have knownNow := (asks.evolution.1.extends.object _ known).1
    rw [Store.hasOwn_eq_isSome, Option.isSome_iff_exists] at owned
    rcases owned with ⟨existing, owned⟩
    rcases Member.reached_assign_of_owned meaning owned value with
      ⟨setter, sets, reached⟩ | reached | reached <;> rw [reached]
    · have resolved : turn.setter? plan.target = some setter := by
        rw [setter?, ← asks.descriptor? known rooted, Store.descriptor?_of_own owned]
        exact sets
      exact (idle.setter setter resolved value now asks).trans same
    · exact same
    · exact (Store.ownNames_storeMember_of_owned _ knownNow owned).trans same
  call fields now leads same := (idle.call fields now leads).trans same

end Turn

end Turn

/-! ### The whole merge -/

structure Intercepts (meaning : Meaning σ) (plan : Plan) (definer : ProcedureId)
    (world : World σ) : Prop where
  /-- The merge takes its turns, up to the first that fails. -/
  course : Course meaning plan world (turns meaning plan 0 plan.sources [] world)
    (ended ((mixin meaning plan.target plan.sources plan.definer).run world).1)
    ((mixin meaning plan.target plan.sources plan.definer).run world).2
  /-- The turns are those of the names that the sources enumerate, in order. -/
  inOrder : (turns meaning plan 0 plan.sources [] world).map Turn.place <+:
    enumerated meaning plan 0 plan.sources [] world
  /-- All of them have their turns unless one fails. -/
  complete : (∀ turn ∈ turns meaning plan 0 plan.sources [] world,
      ∃ left, (turn.run meaning plan).1 = .ok left) →
    (turns meaning plan 0 plan.sources [] world).map Turn.place =
      enumerated meaning plan 0 plan.sources [] world
  intercepted : ∀ turn ∈ turns meaning plan 0 plan.sources [] world,
    turn.decorator? plan.target = none → turn.Intercepted meaning plan definer
  /-- What the procedure and the assignments to owned names leave of the destination's members, the
  merge leaves. -/
  upheld : ∀ property : MemberTable → Prop,
    (∀ turn ∈ turns meaning plan 0 plan.sources [] world,
      turn.Upholds meaning plan definer property) →
    property (world.store.members plan.target) →
    property (((mixin meaning plan.target plan.sources plan.definer).run world).2.store.members
      plan.target)
  /-- A procedure that defines nothing leaves the destination the names that it owned. -/
  idle : (∀ turn ∈ turns meaning plan 0 plan.sources [] world,
      turn.Idle meaning plan definer) →
    ((mixin meaning plan.target plan.sources plan.definer).run world).2.store.ownNames
      plan.target = world.store.ownNames plan.target

section Merge

variable {meaning : Meaning σ} (evolving : meaning.Evolving) {plan : Plan} {definer : ProcedureId}
  (custom : plan.definer = .custom definer) {world : World σ} (rooted : world.store.Rooted)
  (known : world.store.hasObject plan.target = true)

include evolving custom rooted known

private theorem upheld_of_turns {property : MemberTable → Prop}
    (upholds : ∀ turn ∈ turns meaning plan 0 plan.sources [] world,
      turn.Upholds meaning plan definer property)
    (holds : property (world.store.members plan.target)) :
    property (((mixSources meaning plan 0 plan.sources []).run world).2.store.members
      plan.target) := by
  let held (now : World σ) : Prop :=
    now.store.hasObject plan.target = true ∧ property (now.store.members plan.target)
  have asking (before after : World σ) (asked : Asked before after) (holds : held before) :
      held after :=
    ⟨(asked.evolution.1.extends.object _ holds.1).1, (asked.members holds.1).symm ▸ holds.2⟩
  have turning (turn : Turn σ) (taken : turn ∈ turns meaning plan 0 plan.sources [] world)
      (holds : held turn.before) : held (turn.run meaning plan).2 := by
    have leads : (Passage.evolution σ).leads turn.before (turn.run meaning plan).2 :=
      turn.visit.evolving_mix evolving turn.name turn.held turn.before
    exact ⟨(leads.1.extends.object _ holds.1).1, (upholds turn taken).keeps
      (rooted_of_turns evolving rooted turn taken) holds.1 custom holds.2⟩
  have course := course_of_sources meaning plan plan.sources 0 [] world
  exact (course.keeps asking turning ⟨known, holds⟩).2.2

private theorem intercepts_of_evolving : Intercepts meaning plan definer world where
  course := course_of_sources meaning plan plan.sources 0 [] world
  inOrder := (places_turns meaning plan plan.sources 0 [] world).1
  complete := (places_turns meaning plan plan.sources 0 [] world).2
  intercepted turn taken := Turn.intercepted (rooted_of_turns evolving rooted turn taken)
    (hasObject_of_turns evolving plan.target known turn taken) custom
  upheld _ := upheld_of_turns evolving custom rooted known
  idle idle := by
    have upholds (turn : Turn σ) (taken : turn ∈ turns meaning plan 0 plan.sources [] world) :
        turn.Upholds meaning plan definer fun members =>
          members.names = world.store.ownNames plan.target :=
      (idle turn taken).upholds (rooted_of_turns evolving rooted turn taken)
        (hasObject_of_turns evolving plan.target known turn taken) _
    exact upheld_of_turns evolving custom rooted known upholds rfl

end Merge

/-- The procedure that is set to define members intercepts the definitions of every merge. -/
theorem intercepts_of_custom (budget : Nat) {plan : Plan} {definer : ProcedureId}
    (custom : plan.definer = .custom definer) {world : World σ} (rooted : world.store.Rooted)
    (known : world.store.hasObject plan.target = true) :
    Intercepts (.ofBudget budget) plan definer world :=
  intercepts_of_evolving (Meaning.evolving_ofBudget budget) custom rooted known

/-! ### Definers that record their calls -/

def recording (next : Program (List String)) : Entry → Program (List String)
  | .call _ (.text name :: _) =>
      .readState fun names => .writeState (names ++ [name]) next
  | _ => next

/-- A destination and a source, a procedure that records, a decorator, and a procedure that gives
the destination another member. -/
def recordingWorld (destination source : MemberTable) (next : Program (List String)) :
    World (List String) where
  store := {
    objects := #[{ members := destination }, { members := source }]
    procedures := #[{ body := .required }, { body := .code ⟨0⟩ },
      { body := .unapplied none, hook := some (.patch { value := some (.text "patched") }) },
      { body := .code ⟨1⟩ }] }
  codes := #[recording next,
    fun _ => .ask (.insert ⟨0⟩ "b" .null) fun _ => .done (.ok .undefined)]
  state := []

def recordingPlan : Plan :=
  ⟨⟨0⟩, .custom ⟨1⟩, [.object ⟨1⟩]⟩

def recordedMerge : Action (List String) (List Conflict) :=
  mixin (.ofBudget 3) recordingPlan.target recordingPlan.sources recordingPlan.definer

def idleWorld : World (List String) :=
  recordingWorld (.ofEntries [("a", .ofValue (.text "old"))])
    (.ofEntries [("a", .ofValue (.text "new")), ("b", .ofValue .null)])
    (.done (.ok .undefined))

/-- The owned name is assigned, and the other one is left to the procedure. -/
theorem intercepts_of_recording :
    (recordedMerge.run idleWorld).1.toOption = some [] ∧
      (recordedMerge.run idleWorld).2.state = ["b"] ∧
      (recordedMerge.run idleWorld).2.store.ownNames ⟨0⟩ = ["a"] ∧
      (recordedMerge.run idleWorld).2.store.dataValue? ⟨0⟩ "a" = some (.text "new") := by
  have intercepts : Intercepts (.ofBudget 3) recordingPlan ⟨1⟩ idleWorld :=
    intercepts_of_custom 3 rfl (Store.rooted_iff.mpr (by decide)) (by decide)
  have plain : (turns (.ofBudget 3) recordingPlan 0 recordingPlan.sources [] idleWorld).all
      (fun turn => (turn.decorator? ⟨0⟩).isNone && (turn.setter? ⟨0⟩).isNone) = true := by
    decide +kernel
  refine ⟨by decide +kernel, by decide +kernel, intercepts.idle fun turn taken => ?_, by rfl⟩
  have plainHere := List.all_eq_true.mp plain turn taken
  rw [Bool.and_eq_true, Option.isNone_iff_eq_none, Option.isNone_iff_eq_none] at plainHere
  refine ⟨plainHere.1, fun setter sets => ?_, fun fields now leads => ?_⟩
  · cases plainHere.2.symm.trans sets
  · have start := leads_of_turns (Meaning.evolving_ofBudget 3) turn taken
    have body : (idleWorld.store.procedure ⟨1⟩).body = .code ⟨0⟩ := rfl
    rw [World.run_call_of_code_of_nesting body (by decide)
      ((Passage.evolution _).trans start leads) 1]
    rfl

def deletingWorld : World (List String) :=
  recordingWorld .empty (.ofEntries [("a", .ofValue .null), ("b", .ofValue .null)])
    (.ask (.delete ⟨1⟩ "b") fun _ => .done (.ok .undefined))

def decoratingWorld : World (List String) :=
  recordingWorld .empty (.ofEntries [("a", .ofValue .null), ("b", .ofValue .null)])
    (.ask (.insert ⟨1⟩ "b" (.procedure ⟨2⟩)) fun _ => .done (.ok .undefined))

def settingWorld : World (List String) :=
  recordingWorld (.ofEntries [("a", ⟨.accessor none (some ⟨3⟩), true, true⟩)])
    (.ofEntries [("a", .ofValue .null)]) (.done (.ok .undefined))

/-- A name that a source enumerates may be gone, or decorated, when it has its turn; and a setter
may give the destination names though the procedure does nothing. -/
theorem interception_not_total :
    (deletingWorld.store.enumerableNames ⟨1⟩ = ["a", "b"] ∧
      (recordedMerge.run deletingWorld).1.toOption = some [] ∧
      (recordedMerge.run deletingWorld).2.state = ["a"] ∧
      (recordedMerge.run deletingWorld).2.store.ownNames ⟨0⟩ = []) ∧
    (decoratingWorld.store.enumerableNames ⟨1⟩ = ["a", "b"] ∧
      (decoratingWorld.store.descriptor? ⟨1⟩ "b").bind Descriptor.method? = none ∧
      (recordedMerge.run decoratingWorld).1.toOption = some [] ∧
      (recordedMerge.run decoratingWorld).2.state = ["a"] ∧
      (recordedMerge.run decoratingWorld).2.store.ownNames ⟨0⟩ = ["b"]) ∧
    settingWorld.store.ownNames ⟨0⟩ = ["a"] ∧
    (recordedMerge.run settingWorld).1.toOption = some [] ∧
    (recordedMerge.run settingWorld).2.state = [] ∧
    (recordedMerge.run settingWorld).2.store.ownNames ⟨0⟩ = ["a", "b"] := by
  decide +kernel

end TraitComposition.Merge
