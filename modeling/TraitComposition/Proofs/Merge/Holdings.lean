import TraitComposition.Proofs.Advice.Weaving

/-!
Holdings. What a name resolves to is a holding: nothing, a member, or advice, where an
advised procedure counts for the weave it carries. What a bare table brings under a name
makes another holding of it, which does not depend on who owns the member.
-/
namespace TraitComposition

variable {σ : Type}

inductive Holding where
  | nothing
  | plain (descriptor : Descriptor)
  | advised (weave : Weave)

namespace Holding

def ofDescriptor? : Option Descriptor → Holding
  | none => nothing
  | some descriptor => plain descriptor

def weave (store : Store) : Holding → Weave
  | nothing => {}
  | plain descriptor => store.weaveOf descriptor.value?
  | advised weave => weave

def isNothing : Holding → Bool
  | nothing => true
  | _ => false

def meet (store : Store) (holding : Holding) (incoming : Value) : Holding :=
  match incoming with
  | .procedure method =>
      match (store.procedure method).hook with
      | some (.weave weave) => advised (store.stackWeaves (holding.weave store) weave)
      | _ =>
          if store.isRequired method && !holding.isNothing then holding
          else plain (.ofValue incoming)
  | _ => plain (.ofValue incoming)

section Meeting

variable {store : Store} {method : ProcedureId} (holding : Holding)

theorem meet_of_advice {weave : Weave}
    (hooked : (store.procedure method).hook = some (.weave weave)) :
    holding.meet store (.procedure method) =
      advised (store.stackWeaves (holding.weave store) weave) := by
  simp only [meet, hooked]

theorem meet_of_unhooked (unhooked : (store.procedure method).hook = none) :
    holding.meet store (.procedure method) =
      if store.isRequired method && !holding.isNothing then holding
      else plain (.ofValue (.procedure method)) := by
  simp only [meet, unhooked]

end Meeting

end Holding

/-! ### What is held -/

namespace Store

def shown? (store : Store) (table : ObjectId) (name : String) : Option Value :=
  ((store.descriptor? table name).filter Descriptor.enumerable).bind Descriptor.value?

def meetTable (store : Store) (name : String) (holding : Holding) (table : ObjectId) : Holding :=
  match store.shown? table name with
  | some value => holding.meet store value
  | none => holding

def meetTables (store : Store) (name : String) (holding : Holding) (tables : List ObjectId) :
    Holding :=
  tables.foldl (store.meetTable name) holding

theorem meetTables_append (store : Store) (name : String) (holding : Holding)
    (first second : List ObjectId) :
    store.meetTables name holding (first ++ second) =
      store.meetTables name (store.meetTables name holding first) second :=
  List.foldl_append

theorem shown?_of_descriptor? {store : Store} {table : ObjectId} {name : String} {value : Value}
    (resolved : store.descriptor? table name = some (.ofValue value)) :
    store.shown? table name = some value := by
  rw [shown?, resolved]
  rfl

theorem meetTable_of_unlisted {store : Store} {table : ObjectId} {name : String}
    (unlisted : name ∉ store.enumerableNames table) (holding : Holding) :
    store.meetTable name holding table = holding := by
  have hidden : (store.descriptor? table name).filter Descriptor.enumerable = none := by
    rw [Option.filter_eq_none_iff]
    intro descriptor resolved enumerable
    exact unlisted (mem_enumerableNames_iff.mpr ⟨descriptor, resolved, enumerable⟩)
  rw [meetTable, shown?, hidden]
  rfl

def Advises (store : Store) (table : ObjectId) (name : String) : Prop :=
  ∃ method, store.shown? table name = some (.procedure method) ∧
    (store.procedure method).hook.isSome = true

theorem Advises.listed {store : Store} {table : ObjectId} {name : String}
    (advises : store.Advises table name) : name ∈ store.enumerableNames table := by
  rcases advises with ⟨method, shown, _⟩
  rcases Option.bind_eq_some_iff.mp shown with ⟨descriptor, found, _⟩
  rcases Option.filter_eq_some_iff.mp found with ⟨resolved, enumerable⟩
  exact mem_enumerableNames_iff.mpr ⟨descriptor, resolved, enumerable⟩

def Holds (store : Store) (object : ObjectId) (name : String) : Holding → Prop
  | .nothing => store.descriptor? object name = none
  | .plain descriptor => store.descriptor? object name = some descriptor
  | .advised weave =>
      ∃ method, store.descriptor? object name = some (.ofValue (.procedure method)) ∧
        (store.procedure method).mark = some (.weave weave)

theorem holds_ofDescriptor? (store : Store) (object : ObjectId) (name : String) :
    store.Holds object name (.ofDescriptor? (store.descriptor? object name)) := by
  cases resolved : store.descriptor? object name <;> exact resolved

section Holds

variable {before after : Store} {object other : ObjectId} {name : String} {holding : Holding}

theorem Holds.of_descriptor?_eq (holds : before.Holds object name holding)
    (extends_ : before.Extends after)
    (same : after.descriptor? other name = before.descriptor? object name) :
    after.Holds other name holding := by
  cases holding with
  | nothing => exact same.trans holds
  | plain descriptor => exact same.trans holds
  | advised weave =>
      rcases holds with ⟨method, resolved, marked⟩
      exact ⟨method, same.trans resolved,
        (extends_.mark (hasProcedure_of_mark marked)).trans marked⟩

theorem Holds.has_eq (holds : before.Holds object name holding) :
    before.has object name = !holding.isNothing := by
  have resolves : before.has object name = (before.descriptor? object name).isSome := by
    rw [has, descriptor?, Option.isSome_map]
  rw [resolves]
  cases holding with
  | nothing => rw [show before.descriptor? object name = none from holds]; rfl
  | plain descriptor => rw [show before.descriptor? object name = _ from holds]; rfl
  | advised weave =>
      rcases holds with ⟨method, resolved, _⟩
      rw [resolved]
      rfl

/-- Whether two objects of two stores resolve a name alike: to the same descriptor, or to
procedures that carry the same weave. -/
def Alike (first : Store) (object : ObjectId) (second : Store) (other : ObjectId)
    (name : String) : Prop :=
  first.descriptor? object name = second.descriptor? other name ∨
    ∃ method same weave, first.descriptor? object name = some (.ofValue (.procedure method)) ∧
      second.descriptor? other name = some (.ofValue (.procedure same)) ∧
      (first.procedure method).mark = some (.weave weave) ∧
      (second.procedure same).mark = some (.weave weave)

theorem Holds.alike (holds : before.Holds object name holding)
    (also : after.Holds other name holding) : before.Alike object after other name := by
  cases holding with
  | nothing => exact .inl (holds.trans also.symm)
  | plain descriptor => exact .inl (holds.trans also.symm)
  | advised weave =>
      rcases holds with ⟨method, resolved, marked⟩
      rcases also with ⟨same, resolvedToo, markedToo⟩
      exact .inr ⟨method, same, weave, resolved, resolvedToo, marked, markedToo⟩

theorem Alike.mem_enumerableNames_iff (alike : before.Alike object after other name) :
    name ∈ before.enumerableNames object ↔ name ∈ after.enumerableNames other := by
  rw [Store.mem_enumerableNames_iff, Store.mem_enumerableNames_iff]
  rcases alike with same | ⟨method, same, weave, resolved, resolvedToo, _, _⟩
  · rw [same]
  · rw [resolved, resolvedToo]
    constructor <;> exact fun _ => ⟨_, rfl, rfl⟩

end Holds

end Store

/-! ### Advice on what is held -/

section Advice

variable (meaning : Meaning σ) (world : World σ)

/-- Whether advice can be put on a holding: it is nothing or writable, and its weave sound. -/
def Holding.Ready : Holding → Prop
  | .nothing => True
  | .plain descriptor =>
      (∃ value, descriptor.shape = .data value true) ∧
        (world.store.weaveOf descriptor.value?).Sound meaning world
  | .advised weave => weave.Sound meaning world

def Value.Mergeable (value : Value) : Prop :=
  ∀ method, value = .procedure method →
    (world.store.weaveOf (some value)).Sound meaning world ∧
      match (world.store.procedure method).hook with
      | none => True
      | some (.weave weave) => weave.layers ≠ [] ∧ weave.Sound meaning world
      | some _ => False

/-- Whether an object can be merged as a bare table: its enumerable members are plain, and
hold values that can be. -/
structure Store.Bare (table : ObjectId) : Prop where
  known : world.store.hasObject table = true
  members : ∀ name descriptor, world.store.descriptor? table name = some descriptor →
    descriptor.enumerable = true →
    ∃ value, descriptor = .ofValue value ∧ value.Mergeable meaning world

variable {meaning world}

theorem Store.Bare.listed {table : ObjectId} (bare : Store.Bare meaning world table)
    {name : String} (listed : name ∈ world.store.enumerableNames table) :
    ∃ value, world.store.descriptor? table name = some (.ofValue value) ∧
      value.Mergeable meaning world := by
  rcases mem_enumerableNames_iff.mp listed with ⟨descriptor, resolved, enumerable⟩
  rcases bare.members name descriptor resolved enumerable with ⟨value, rfl, mergeable⟩
  exact ⟨value, resolved, mergeable⟩

/-- What a table that delegates to nothing else lists decides whether it is a bare table. -/
theorem Store.Bare.of_listed {table : ObjectId} (known : world.store.hasObject table = true)
    (each : ∀ name ∈ world.store.enumerableNames table, ∃ value,
      world.store.descriptor? table name = some (.ofValue value) ∧
        value.Mergeable meaning world) : Store.Bare meaning world table where
  known := known
  members name descriptor resolved enumerable := by
    rcases each name (mem_enumerableNames_iff.mpr ⟨descriptor, resolved, enumerable⟩) with
      ⟨value, equal, mergeable⟩
    exact ⟨value, Option.some.inj (resolved.symm.trans equal), mergeable⟩

theorem Weave.sound_bare {root : ProcedureId} (known : world.store.hasProcedure root = true) :
    (Weave.bare root).Sound meaning world where
  root _ equal := Option.some.inj equal ▸ known
  layers _ member := nomatch member

theorem Weave.sound_single {reference : LayerId} {layer : Layer}
    (found : world.store.layer reference = some layer)
    (harmless : layer.advice.Harmless meaning world) :
    (Weave.single reference).Sound meaning world where
  root _ equal := nomatch equal
  layers _ member := by
    rw [List.mem_singleton.mp member]
    exact ⟨layer, found, harmless⟩

private theorem Weave.sound_empty : ({} : Weave).Sound meaning world where
  root _ equal := nomatch equal
  layers _ member := nomatch member

theorem Weave.Sound.hasProcedure {method : ProcedureId}
    (sound : (world.store.weaveOf (some (.procedure method))).Sound meaning world) :
    world.store.hasProcedure method = true := by
  cases known : world.store.hasProcedure method with
  | true => rfl
  | false =>
      have bare : world.store.weaveOf (some (.procedure method)) = .bare method := by
        rw [Store.weaveOf, Store.procedure_of_not_hasProcedure known]
      exact known ▸ sound.root method (congrArg Weave.root bare)

theorem Value.mergeable_of_unhooked {method : ProcedureId}
    (known : world.store.hasProcedure method = true)
    (unwoven : world.store.weaveOf (some (.procedure method)) = .bare method)
    (unhooked : (world.store.procedure method).hook = none) :
    (Value.procedure method).Mergeable meaning world := by
  rintro _ ⟨⟩
  rw [unwoven, unhooked]
  exact ⟨Weave.sound_bare known, trivial⟩

theorem Value.mergeable_of_advice {method : ProcedureId} {reference : LayerId} {layer : Layer}
    (known : world.store.hasProcedure method = true)
    (unwoven : world.store.weaveOf (some (.procedure method)) = .bare method)
    (hooked : (world.store.procedure method).hook = some (.weave (.single reference)))
    (found : world.store.layer reference = some layer)
    (harmless : layer.advice.Harmless meaning world) :
    (Value.procedure method).Mergeable meaning world := by
  rintro _ ⟨⟩
  rw [unwoven, hooked]
  exact ⟨Weave.sound_bare known, List.cons_ne_nil _ _, Weave.sound_single found harmless⟩

theorem Value.Mergeable.later {now : World σ} {value : Value}
    (mergeable : value.Mergeable meaning world)
    (evolution : (Passage.evolution σ).leads world now) : value.Mergeable meaning now := by
  rintro method rfl
  rcases mergeable method rfl with ⟨sound, hooked⟩
  have known := sound.hasProcedure
  rw [evolution.1.extends.weaveOf known, evolution.1.extends.hook known]
  refine ⟨sound.later evolution, ?_⟩
  cases found : (world.store.procedure method).hook with
  | none => trivial
  | some hook =>
      rw [found] at hooked
      cases hook with
      | weave weave => exact ⟨hooked.1, hooked.2.later evolution⟩
      | patch | aliased | code => exact hooked.elim

namespace Holding.Ready

variable {holding : Holding}

theorem sound (ready : holding.Ready meaning world) :
    (holding.weave world.store).Sound meaning world := by
  cases holding with
  | nothing => exact Weave.sound_empty
  | plain descriptor => exact ready.2
  | advised weave => exact ready

private theorem ofValue {value : Value} (mergeable : value.Mergeable meaning world) :
    (Holding.plain (.ofValue value)).Ready meaning world := by
  refine ⟨⟨value, rfl⟩, ?_⟩
  cases value with
  | procedure method => exact (mergeable method rfl).1
  | _ => exact Weave.sound_empty

theorem meet {value : Value} (ready : holding.Ready meaning world)
    (mergeable : value.Mergeable meaning world) :
    (holding.meet world.store value).Ready meaning world := by
  cases value with
  | procedure method =>
      have found := (mergeable method rfl).2
      cases hooked : (world.store.procedure method).hook with
      | none =>
          rw [meet_of_unhooked holding hooked]
          split
          · exact ready
          · exact ofValue mergeable
      | some hook =>
          rw [hooked] at found
          cases hook with
          | weave weave =>
              rw [meet_of_advice holding hooked]
              exact ready.sound.stack found.2
          | patch | aliased | code => exact found.elim
  | _ => exact ofValue mergeable

theorem meetTable {table : ObjectId} {name : String} (ready : holding.Ready meaning world)
    (bare : Store.Bare meaning world table) :
    (world.store.meetTable name holding table).Ready meaning world := by
  by_cases listed : name ∈ world.store.enumerableNames table
  · rcases bare.listed listed with ⟨value, resolved, mergeable⟩
    rw [Store.meetTable, Store.shown?_of_descriptor? resolved]
    exact ready.meet mergeable
  · rw [Store.meetTable_of_unlisted listed]
    exact ready

theorem meetTables {name : String} {tables : List ObjectId} (ready : holding.Ready meaning world)
    (bare : ∀ table ∈ tables, Store.Bare meaning world table) :
    (world.store.meetTables name holding tables).Ready meaning world := by
  induction tables generalizing holding with
  | nil => exact ready
  | cons table tables induction =>
      rw [List.forall_mem_cons] at bare
      exact induction (ready.meetTable bare.1) bare.2

theorem weaveOf_eq {now : Store} {object : ObjectId} {name : String}
    (ready : holding.Ready meaning world) (extends_ : world.store.Extends now)
    (holds : now.Holds object name holding) :
    now.weaveOf (now.dataValue? object name) = holding.weave world.store := by
  cases holding with
  | nothing =>
      rw [Store.dataValue?, show now.descriptor? object name = none from holds]
      rfl
  | plain descriptor =>
      rw [Store.dataValue?, show now.descriptor? object name = some descriptor from holds,
        Option.bind_some, weave]
      rcases ready with ⟨⟨value, shape⟩, sound⟩
      have valued : descriptor.value? = some value := by rw [Descriptor.value?, shape]
      rw [valued] at sound ⊢
      cases value with
      | procedure method => exact extends_.weaveOf sound.hasProcedure
      | _ => rfl
  | advised weave =>
      rcases holds with ⟨method, resolved, marked⟩
      rw [Store.dataValue?, resolved, Option.bind_some, Descriptor.value?_ofValue,
        Store.weaveOf_of_mark marked]
      rfl

end Holding.Ready

end Advice

end TraitComposition
