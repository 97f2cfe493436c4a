import TraitComposition.Machine
import TraitComposition.Proofs.Machine.Following

/-!
Merges that run no user code. With definitions made directly, all that such a merge does is
to put members on its destination and to give tables to procedures that had none; these
tables stay empty, so what was there before is read as it was.
-/
namespace TraitComposition

namespace Store

structure Blank (store : Store) (object : ObjectId) : Prop where
  alone : store.parent object = none
  bare : ∀ name, store.ownDescriptor? object name = none

theorem blank_of_not_hasObject {store : Store} {object : ObjectId}
    (absent : store.hasObject object = false) : store.Blank object where
  alone := by rw [parent, object_of_not_hasObject absent]
  bare name := by
    rw [ownDescriptor?, members, object_of_not_hasObject absent]
    exact MemberTable.find?_empty name

theorem Blank.enumerableNames_eq_nil {store : Store} {object : ObjectId}
    (blank : store.Blank object) : store.enumerableNames object = [] := by
  apply List.eq_nil_iff_forall_not_mem.mpr
  intro name listed
  have levels : store.ancestry object = [object] := by
    rw [ancestry, ancestryWithin, blank.alone]
  rcases mem_enumerableNames_iff.mp listed with ⟨descriptor, resolved, _⟩
  rw [descriptor?_eq_findSome?, levels, List.findSome?_cons, blank.bare] at resolved
  cases resolved

theorem blank_prototypeOf_iff (store : Store) (procedure : ProcedureId) {object : ObjectId} :
    (store.prototypeOf procedure).2.Blank object ↔ store.Blank object := by
  have same := store.object_prototypeOf procedure object
  constructor
  · rintro ⟨alone, bare⟩
    rw [parent, same] at alone
    exact ⟨alone, fun name => by simpa only [ownDescriptor?, members, same] using bare name⟩
  · rintro ⟨alone, bare⟩
    refine ⟨by rw [parent, same]; exact alone, fun name => ?_⟩
    simpa only [ownDescriptor?, members, same] using bare name

structure MergesInto (target : ObjectId) (names : String → Prop) (before after : Store) :
    Prop where
  changes : ChangesWithin (fun object name => object = target ∧ names name) before after
  blank : ∀ object, object ≠ target → before.Blank object → after.Blank object
  tables : ∀ procedure table, (after.procedure procedure).table = some table →
    (before.procedure procedure).table = some table ∨ table ≠ target ∧ after.Blank table

namespace MergesInto

variable {target : ObjectId} {names more : String → Prop} {first second third : Store}

theorem refl (target : ObjectId) (names : String → Prop) (store : Store) :
    MergesInto target names store store where
  changes := .refl _ store
  blank _ _ blank := blank
  tables _ _ made := .inl made

theorem trans (start : MergesInto target names first second)
    (rest : MergesInto target names second third) : MergesInto target names first third where
  changes := start.changes.trans rest.changes
  blank object different blank :=
    rest.blank object different (start.blank object different blank)
  tables procedure table made := by
    rcases rest.tables procedure table made with made | new
    · rcases start.tables procedure table made with made | ⟨different, blank⟩
      · exact .inl made
      · exact .inr ⟨different, rest.blank table different blank⟩
    · exact .inr new

theorem mono (merges : MergesInto target names first second)
    (inside : ∀ name, names name → more name) : MergesInto target more first second :=
  { merges with
    changes := merges.changes.mono fun _ _ _ within => ⟨within.1, inside _ within.2⟩ }

private theorem of_storeMember (store : Store) (target : ObjectId) (name : String)
    (descriptor : Descriptor) :
    MergesInto target (· = name) store (store.storeMember target name descriptor) where
  changes := .of_storeMember store target name descriptor
  blank object different blank :=
    { alone := (parent_updateMembers store target _ object).trans blank.alone
      bare := fun other =>
        (ownDescriptor?_storeMember_other store descriptor fun both => different both.1).trans
          (blank.bare other) }
  tables _ _ made := .inl made

theorem of_prototypeOf (store : Store) (procedure : ProcedureId)
    (different : store.nextObject ≠ target) :
    MergesInto target names store (store.prototypeOf procedure).2 where
  changes := (ChangesWithin.of_prototypeOf store procedure).of_nowhere
  blank object _ blank := (blank_prototypeOf_iff store procedure).mpr blank
  tables reference table made := by
    rcases store.prototypeOf_cases procedure with unchanged | ⟨_, new⟩
    · rw [unchanged] at made
      exact .inl made
    · rw [new, procedure_updateProcedure] at made
      split at made
      · cases made
        refine .inr ⟨different, (blank_prototypeOf_iff store procedure).mpr ?_⟩
        exact blank_of_not_hasObject (by simp [hasObject])
      · exact .inl made

theorem of_createObject (store : Store) (parent : Option ObjectId) :
    MergesInto store.nextObject names store (store.createObject parent).2 where
  changes := (ChangesWithin.of_createObject store parent).of_nowhere
  blank object different blank := by
    have same := object_createObject_other store parent different
    refine ⟨?_, fun name => ?_⟩
    · rw [Store.parent, same]
      exact blank.alone
    · rw [ownDescriptor?, members, same]
      exact blank.bare name
  tables _ _ made := .inl made

end MergesInto

structure Underway (start : Store) (target : ObjectId) (now : Store) : Prop where
  merges : MergesInto target (fun _ => True) start now
  known : now.hasObject target = true

namespace Underway

variable {start now after : Store} {target : ObjectId} (underway : Underway start target now)

include underway

theorem later {names : String → Prop} (merges : MergesInto target names now after) :
    Underway start target after where
  merges := underway.merges.trans (merges.mono fun _ _ => trivial)
  known := (merges.changes.extends_.object _ underway.known).1

theorem rootedNow (rooted : start.Rooted) : now.Rooted :=
  underway.merges.changes.rooted rooted

/-- If the destination was made for the merge, what was there before is read as it was. -/
theorem descriptor?_eq (rooted : start.Rooted) (absent : start.hasObject target = false)
    {table : ObjectId} (known : start.hasObject table = true) (name : String) :
    now.descriptor? table name = start.descriptor? table name := by
  apply underway.merges.changes.descriptor?_eq rooted known
  rintro level member ⟨rfl, _⟩
  have there := hasObject_of_mem_ancestry rooted known member
  rw [absent] at there
  cases there

theorem blank_of_prototypeOf {procedure : ProcedureId}
    (present : start.Present (.procedure procedure))
    (tableless : ¬∃ table, start.Fronts (.procedure procedure) table) :
    (now.prototypeOf procedure).1 ≠ target ∧
      (now.prototypeOf procedure).2.Blank (now.prototypeOf procedure).1 := by
  cases present with
  | type houses => exact absurd ⟨_, .type houses⟩ tableless
  | plain plain =>
      have plainNow := underway.merges.changes.extends_.isPlain plain
      cases made : (now.procedure procedure).table with
      | some table =>
          rw [prototypeOf_of_table plainNow made]
          rcases underway.merges.tables procedure table made with made | new
          · exact absurd ⟨table, .plain plain made⟩ tableless
          · exact new
      | none =>
          rw [blank_prototypeOf_iff, prototypeOf_of_tableless plainNow made]
          exact ⟨nextObject_ne underway.known, blank_of_not_hasObject (by simp [hasObject])⟩

end Underway

end Store

/-! ### The merge -/

def Passage.merging (σ : Type) (target : ObjectId) (names : String → Prop) : Passage σ where
  leads before after := before.store.hasObject target = true →
    Store.MergesInto target names before.store after.store
  refl world _ := .refl target names world.store
  trans start rest known :=
    (start known).trans (rest ((start known).changes.extends_.object _ known).1)

namespace Merge

variable {σ : Type} {plan : Plan} {names : String → Prop} {name : String}

theorem asks_merging (target : ObjectId) (names : String → Prop) :
    Asks (Passage.merging σ target names) :=
  fun procedure world known =>
    .of_prototypeOf world.store procedure (Store.nextObject_ne known)

theorem respects_merging (raw : plan.definer = .raw) (inside : names name) :
    Respects (Passage.merging σ plan.target names) .exhausted plan name := by
  have writes (descriptor : Descriptor) (world : World σ) :
      (Passage.merging σ plan.target names).leads world
        { world with store := world.store.storeMember plan.target name descriptor } :=
    fun _ => (Store.MergesInto.of_storeMember world.store plan.target name descriptor).mono
      fun _ equal => equal ▸ inside
  refine
    { asks := asks_merging plan.target names
      assign := Member.follows_assign writes fun _ _ _ => Action.Follows.throw _
      define := ?_
      install := fun _ => Action.Follows.throw _ }
  rw [raw]
  exact Member.follows_define writes

theorem follows_mixSource_merging (raw : plan.definer = .raw) (index : Nat) (source : Value)
    (held : List Conflict) :
    Action.Follows (Passage.merging σ plan.target fun _ => True)
      (mixSource .exhausted plan index source held) :=
  follows_mixSource (fun _ => respects_merging raw trivial) index source held

private theorem follows_mixSources_merging (raw : plan.definer = .raw) (index : Nat)
    (sources : List Value) (held : List Conflict) :
    Action.Follows (Passage.merging σ plan.target fun _ => True)
      (mixSources .exhausted plan index sources held) :=
  follows_mixSources (fun _ => respects_merging raw trivial) index sources held

end Merge

theorem follows_mixin_merging {σ : Type} (target : ObjectId) (sources : List Value) :
    Action.Follows (Passage.merging σ target fun _ => True)
      (mixin .exhausted target sources .raw) := by
  let plan : Merge.Plan := ⟨target, .raw, sources⟩
  have raw : plan.definer = .raw := rfl
  exact Merge.follows_mixSources_merging raw 0 sources []

end TraitComposition
