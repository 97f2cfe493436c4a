import TraitComposition.Proofs.Machine.Evolution
import TraitComposition.Proofs.Store.Assignment
import TraitComposition.Proofs.Store.TableHistory

/-!
Definition order over whole runs. A member is written in four ways: it is stored unchecked,
assigned, defined or deleted. Each has its own conditions, and where they are not met nothing
happens. What those do that succeed is the history of a table, and at any time the names of an
object are those that its history leaves, in its order.
-/
namespace TraitComposition

variable {σ : Type}

/-! ### Writing in a store -/

namespace Store

variable {store : Store} {object : ObjectId}

def runsSetter (store : Store) (object : ObjectId) (name : String) : Bool :=
  ((store.descriptor? object name).bind Descriptor.setter?).isSome

theorem ownNames_updateMembers (known : store.hasObject object = true) (target : ObjectId)
    {update : MemberTable → MemberTable} {change : TableEvent}
    (names : ∀ table, (update table).names = change.alter table.names) :
    (store.updateMembers target update).ownNames object =
      if target = object then change.alter (store.ownNames object) else store.ownNames object := by
  split
  · next same =>
    subst same
    rw [ownNames, members_updateMembers_same _ _ _ known, names]
    rfl
  · next different =>
    rw [ownNames, members_updateMembers_other _ _ (Ne.symm different)]
    rfl

private theorem ownNames_storeMember (known : store.hasObject object = true) (target : ObjectId)
    (name : String) (descriptor : Descriptor) :
    (store.storeMember target name descriptor).ownNames object =
      if target = object then (TableEvent.defined name).alter (store.ownNames object)
      else store.ownNames object :=
  ownNames_updateMembers known target fun table => table.names_insert name descriptor

private theorem ownNames_eraseMember (known : store.hasObject object = true) (target : ObjectId)
    (name : String) :
    (store.eraseMember target name).ownNames object =
      if target = object then (TableEvent.deleted name).alter (store.ownNames object)
      else store.ownNames object :=
  ownNames_updateMembers known target fun table => table.names_erase name

end Store

/-! ### Requests

Four requests write a member: storing a value, assigning, defining and deleting. An assignment
does not if it runs a setter, and a deletion is an event only if it has deleted something. -/

namespace Request

def writesMember (store : Store) : Request → Bool
  | insert .. | define .. | delete .. => true
  | assign target name _ => !store.runsSetter target name
  | _ => false

def event (object : ObjectId) : Request → Option TableEvent
  | insert target name _ | assign target name _ | define target name _ =>
      if target = object then some (.defined name) else none
  | delete target name => if target = object then some (.deleted name) else none
  | _ => none

def succeeded : (request : Request) → Except Fault request.Answer → Bool
  | delete .., .ok deleted => deleted
  | _, .ok _ => true
  | _, .error _ => false

/-- Whether what is there lets a request to write a member succeed. A value can be stored under any
name, assigned unless the name resolves to something that is not writable, and defined unless the
member is locked; and a member can be deleted if there is one that is not. -/
def permitted (store : Store) : Request → Bool
  | assign target name _ => (store.descriptor? target name).all Descriptor.isWritable
  | define target name descriptor => store.accepts target name descriptor
  | delete target name => store.deletable target name
  | _ => true

end Request

/-! ### One request -/

namespace World

def ask (budget : Nat) (request : Request) (world : World σ) :
    Except Fault request.Answer × World σ :=
  (request.perform (.ofBudget budget)).run world

def event (budget : Nat) (object : ObjectId) (request : Request) (world : World σ) :
    Option TableEvent :=
  if request.writesMember world.store = true ∧
      request.succeeded (world.ask budget request).1 = true then
    request.event object
  else none

structure Settles (budget : Nat) (object : ObjectId) (request : Request) (world : World σ) :
    Prop where
  /-- A member is written where what is there lets it. -/
  answered : request.writesMember world.store = true →
    request.succeeded (world.ask budget request).1 = request.permitted world.store
  /-- The names change only if it is, and then as the event says. -/
  names : (world.ask budget request).2.store.ownNames object =
    (world.event budget object request).elim (world.store.ownNames object)
      (TableEvent.alter (world.store.ownNames object))

namespace Settles

variable {budget : Nat} {object target : ObjectId} {name : String} {world : World σ}
  {request : Request}

private theorem of_refused (refused : request.permitted world.store = false)
    (failed : request.succeeded (world.ask budget request).1 = false)
    (kept : (world.ask budget request).2 = world) : world.Settles budget object request where
  answered _ := failed.trans refused.symm
  names := by
    rw [kept, event, failed, if_neg fun both => Bool.false_ne_true both.2]
    rfl

private theorem of_succeeded {change : TableEvent}
    (writes : request.writesMember world.store = true)
    (does : request.event object = if target = object then some change else none)
    (permitted : request.permitted world.store = true)
    (succeeded : request.succeeded (world.ask budget request).1 = true)
    (names : (world.ask budget request).2.store.ownNames object =
      if target = object then change.alter (world.store.ownNames object)
      else world.store.ownNames object) : world.Settles budget object request where
  answered _ := succeeded.trans permitted.symm
  names := by
    have happened : world.event budget object request = request.event object :=
      if_pos ⟨writes, succeeded⟩
    rw [names, happened, does]
    split <;> rfl

private theorem of_insert (known : world.store.hasObject object = true) (target : ObjectId)
    (name : String) (value : Value) : world.Settles budget object (.insert target name value) :=
  of_succeeded rfl rfl rfl rfl (Store.ownNames_storeMember known target name (.ofValue value))

private theorem of_assign (known : world.store.hasObject object = true)
    (setterless : world.store.runsSetter target name = false) (value : Value) :
    world.Settles budget object (.assign target name value) := by
  have writes : (Request.assign target name value).writesMember world.store = true := by
    rw [Request.writesMember, setterless]
    rfl
  cases permitted : (Request.assign target name value).permitted world.store with
  | true =>
      have ran : world.ask budget (.assign target name value) = _ :=
        Member.run_assign_of_writable (.ofBudget budget) value fun descriptor resolves =>
          (Option.all_eq_true _ _).mp permitted descriptor resolves
      refine of_succeeded writes rfl permitted (by rw [ran]; rfl) ?_
      rw [ran]
      exact Store.ownNames_storeMember known target name _
  | false =>
      cases resolves : world.store.descriptor? target name with
      | none =>
          rw [Request.permitted, resolves] at permitted
          cases permitted
      | some descriptor =>
          have locked := permitted
          rw [Request.permitted, resolves, Option.all_some] at locked
          rw [Store.runsSetter, resolves, Option.bind_some, Option.isSome_eq_false_iff,
            Option.isNone_iff_eq_none] at setterless
          have ran : world.ask budget (.assign target name value) = _ :=
            Member.run_assign_of_refused (.ofBudget budget) value resolves locked setterless
          exact of_refused permitted (by rw [ran]; rfl) (by rw [ran])

private theorem of_define (known : world.store.hasObject object = true) (target : ObjectId)
    (name : String) (descriptor : Descriptor) :
    world.Settles budget object (.define target name descriptor) := by
  cases permitted : (Request.define target name descriptor).permitted world.store with
  | true =>
      have ran : world.ask budget (.define target name descriptor) = _ :=
        Member.run_define_of_accepts permitted
      refine of_succeeded rfl rfl permitted (by rw [ran]; rfl) ?_
      rw [ran]
      exact Store.ownNames_storeMember known target name descriptor
  | false =>
      have ran : world.ask budget (.define target name descriptor) = _ :=
        Member.run_define_of_not_accepts permitted
      exact of_refused permitted (by rw [ran]; rfl) (by rw [ran])

private theorem of_delete (known : world.store.hasObject object = true) (target : ObjectId)
    (name : String) : world.Settles budget object (.delete target name) := by
  cases permitted : (Request.delete target name).permitted world.store with
  | true =>
      have deletes : world.store.delete target name =
          (true, world.store.eraseMember target name) := if_pos permitted
      have ran : world.ask budget (.delete target name) =
          (.ok true, { world with store := world.store.eraseMember target name }) :=
        (Action.run_edit (·.delete target name) world).trans (by rw [deletes]; rfl)
      refine of_succeeded rfl rfl permitted (by rw [ran]; rfl) ?_
      rw [ran]
      exact Store.ownNames_eraseMember known target name
  | false =>
      have deletes : world.store.delete target name = (false, world.store) :=
        if_neg (Bool.not_eq_true _ ▸ permitted)
      have ran : world.ask budget (.delete target name) = (.ok false, world) :=
        (Action.run_edit (·.delete target name) world).trans (by rw [deletes]; rfl)
      exact of_refused permitted (by rw [ran]; rfl) (by rw [ran])

theorem of_spared (foreign : request.writesMember world.store = false)
    (spared : (world.ask budget request).2.store.ownNames object = world.store.ownNames object) :
    world.Settles budget object request where
  answered writes := absurd (foreign.symm.trans writes) Bool.false_ne_true
  names := by
    have nothing : world.event budget object request = none :=
      if_neg fun both => Bool.false_ne_true (foreign.symm.trans both.1)
    rw [nothing, Option.elim_none, spared]

private theorem of_writesMember (known : world.store.hasObject object = true)
    (writes : request.writesMember world.store = true) : world.Settles budget object request := by
  cases request with
  | insert target name value => exact of_insert known target name value
  | assign target name value =>
      exact of_assign known (by simpa [Request.writesMember] using writes) value
  | define target name descriptor => exact of_define known target name descriptor
  | delete target name => exact of_delete known target name
  | _ => cases writes

end Settles

/-! ### Runs -/

section Runs

variable (budget : Nat) (object : ObjectId)

def askAll (requests : List Request) (world : World σ) : World σ :=
  requests.foldl (fun world request => (world.ask budget request).2) world

def events : List Request → World σ → List TableEvent
  | [], _ => []
  | request :: requests, world =>
      (world.event budget object request).toList ++
        events requests (world.ask budget request).2

/-- Whether the names of an object are left to the requests that write members themselves: whatever
else is asked for, and setters that are run, do not change them. -/
def OthersLeaveNames : List Request → World σ → Prop
  | [], _ => True
  | request :: requests, world =>
      (request.writesMember world.store = true ∨
        (world.ask budget request).2.store.ownNames object = world.store.ownNames object) ∧
      OthersLeaveNames requests (world.ask budget request).2

instance decidableOthersLeaveNames : (requests : List Request) → (world : World σ) →
    Decidable (world.OthersLeaveNames budget object requests)
  | [], _ => isTrue trivial
  | request :: requests, world =>
      have := decidableOthersLeaveNames requests (world.ask budget request).2
      inferInstanceAs (Decidable (_ ∧ _))

end Runs

variable {budget : Nat} {object : ObjectId} {requests : List Request} {world : World σ}

private theorem hasObject_ask (known : world.store.hasObject object = true) (request : Request) :
    (world.ask budget request).2.store.hasObject object = true := by
  have evolves : (request.perform (.ofBudget budget) : Action σ request.Answer).Evolving :=
    Passage.bears_evolution.follows_perform (Meaning.evolving_ofBudget budget).within trivial
  exact ((evolves world).1.extends.object object known).1

namespace OthersLeaveNames

private theorem first {request : Request}
    (spared : world.OthersLeaveNames budget object (request :: requests))
    (known : world.store.hasObject object = true) : world.Settles budget object request := by
  cases writes : request.writesMember world.store with
  | true => exact .of_writesMember known writes
  | false => exact .of_spared writes (spared.1.resolve_left (by simp [writes]))

theorem settles {earlier rest : List Request} {request : Request}
    (spared : world.OthersLeaveNames budget object (earlier ++ request :: rest))
    (known : world.store.hasObject object = true) :
    (world.askAll budget earlier).Settles budget object request := by
  induction earlier generalizing world with
  | nil => exact spared.first known
  | cons first earlier induction => exact induction spared.2 (hasObject_ask known first)

theorem ownNames_askAll (spared : world.OthersLeaveNames budget object requests)
    (known : world.store.hasObject object = true) :
    (world.askAll budget requests).store.ownNames object =
      (world.events budget object requests).foldl TableEvent.alter
        (world.store.ownNames object) := by
  induction requests generalizing world with
  | nil => rfl
  | cons request requests induction =>
      -- A request does at most one thing to the table.
      have names : (world.event budget object request).toList.foldl TableEvent.alter
          (world.store.ownNames object) =
            (world.ask budget request).2.store.ownNames object := by
        rw [(spared.first known).names]
        cases world.event budget object request <;> rfl
      rw [events, List.foldl_append, names]
      exact induction spared.2 (hasObject_ask known request)

end OthersLeaveNames

/-- Whatever members of whatever objects are stored, assigned, defined and deleted, in whatever
order, with or without success, the names of an object are, each once, those that were defined and
not deleted since, in the order in which their present stays began; those that were there from the
start count as defined one after the other. No other list of names is that. Each request that
succeeds, as it does where what is there lets it, leaves a name that is there in its place, puts a
new one at the end, or takes a deleted one out of the others, and one that fails changes nothing.
The keys are the names of enumerable members, in the same order. Set aside is only what setters that
are run, and other requests, do to the names. -/
theorem members_in_definition_order (known : world.store.hasObject object = true)
    (spared : world.OthersLeaveNames budget object requests) :
    (∀ names,
      TableEvent.Tells ((world.store.ownNames object).map .defined ++
          world.events budget object requests) names ↔
        names = (world.askAll budget requests).store.ownNames object) ∧
    (∀ earlier request rest, requests = earlier ++ request :: rest →
      (world.askAll budget earlier).Settles budget object request) ∧
    ((world.askAll budget requests).store.keys object).Sublist
      ((world.askAll budget requests).store.ownNames object) ∧
    ∀ name, name ∈ (world.askAll budget requests).store.keys object ↔
      ∃ descriptor, (world.askAll budget requests).store.ownDescriptor? object name =
          some descriptor ∧
        descriptor.enumerable = true := by
  have told := (TableEvent.Tells.of_nodup
    (world.store.members object).nodup_names).append (world.events budget object requests)
  rw [← Store.ownNames, ← spared.ownNames_askAll known] at told
  refine ⟨fun names => ⟨told.unique, fun same => same ▸ told⟩, ?_, List.filter_sublist,
    fun _ => MemberTable.mem_keys_iff⟩
  rintro earlier request rest rfl
  exact spared.settles known

/-- An object with nothing in it, and the one it delegates to, which has a member that is not
writable and one whose setter stores a member there. -/
def furnished : World Unit where
  store := {
    objects := #[
      { members := .ofEntries [("limit", ⟨.data .null false, true, true⟩),
          ("area", ⟨.accessor none (some ⟨1⟩), true, true⟩)] },
      { parent := some ⟨0⟩ }]
    procedures := #[{ body := .required }, { body := .code ⟨0⟩ }] }
  codes := #[fun _ => .ask (.insert ⟨0⟩ "width" .null) fun _ => .done (.ok .undefined)]
  state := ()

/-- On the second object, assigning to the limit fails, and assigning to the area runs the setter;
neither the new definition of the locked colour nor its deletion succeeds. -/
def refurnishing : List Request :=
  [.insert ⟨1⟩ "size" .null,
    .define ⟨1⟩ "colour" ⟨.data .null false, false, false⟩,
    .assign ⟨1⟩ "shape" .null,
    .assign ⟨1⟩ "size" (.text "large"),
    .assign ⟨1⟩ "limit" .null,
    .assign ⟨1⟩ "area" .null,
    .define ⟨1⟩ "colour" (.ofValue .null),
    .delete ⟨1⟩ "colour",
    .delete ⟨1⟩ "size",
    .insert ⟨0⟩ "shape" .null,
    .define ⟨1⟩ "shape" (.ofValue (.text "round")),
    .assign ⟨1⟩ "size" .null]

theorem members_in_definition_order_of_furnished :
    furnished.store.hasObject ⟨1⟩ = true ∧ furnished.OthersLeaveNames 3 ⟨1⟩ refurnishing ∧
      (furnished.askAll 3 refurnishing).store.hasOwn ⟨0⟩ "width" = true ∧
      TableEvent.Tells
        [.defined "size", .defined "colour", .defined "shape", .defined "size", .deleted "size",
          .defined "shape", .defined "size"]
        ["colour", "shape", "size"] ∧
      (furnished.askAll 3 refurnishing).store.keys ⟨1⟩ = ["shape", "size"] := by
  have known : furnished.store.hasObject ⟨1⟩ = true := by decide
  have spared : furnished.OthersLeaveNames 3 ⟨1⟩ refurnishing := by decide +kernel
  have names : (furnished.askAll 3 refurnishing).store.ownNames ⟨1⟩ =
      ["colour", "shape", "size"] := by
    decide +kernel
  have events : furnished.events 3 ⟨1⟩ refurnishing =
      [.defined "size", .defined "colour", .defined "shape", .defined "size", .deleted "size",
        .defined "shape", .defined "size"] := by
    decide +kernel
  have told := ((members_in_definition_order known spared).1 _).mpr names.symm
  rw [events] at told
  exact ⟨known, spared, by decide +kernel, told, by decide +kernel⟩

end World

end TraitComposition
