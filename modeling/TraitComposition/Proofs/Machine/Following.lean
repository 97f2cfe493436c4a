import TraitComposition.Decorator
import TraitComposition.Proofs.Merge.Following

/-!
What operations on members and the weaving of advice respect. Reading changes nothing, writing
stores one member, and weaving makes procedures; what else they do is what the getters, the
setters, the definers and the weavers among the user code do.
-/
namespace TraitComposition

open TraitComposition.Action (Follows)

variable {σ : Type} {passage : Passage σ} {meaning : Meaning σ}

/-! ### Reading -/

section Reading

variable (calls : ∀ procedure receiver arguments,
  Follows passage (meaning.call procedure receiver arguments))

include calls

theorem Member.follows_read (object : ObjectId) (name : String) :
    Follows passage (Member.read meaning object name) := by
  apply Follows.getStore_bind
  intro world
  split
  · exact Follows.pure _ world
  · exact Follows.pure _ world
  · exact Follows.pure _ world
  · exact Follows.naming name (calls _ _ _) world

namespace Descriptor

private theorem follows_readField (object : ObjectId) (key : String) :
    Follows passage (readField meaning object key) := by
  apply Follows.bind Follows.getStore
  intro store
  split
  · exact Follows.bind (Member.follows_read calls object key) fun _ => Follows.pure _
  · exact Follows.pure _

private theorem follows_readFlag (object : ObjectId) (key : String) :
    Follows passage (readFlag meaning object key) :=
  Follows.bind (follows_readField calls object key) fun _ => Follows.pure _

private theorem follows_readProcedure (member : String) (object : ObjectId) (key : String) :
    Follows passage (readProcedure meaning member object key) := by
  apply Follows.bind (follows_readField calls object key)
  intro field
  split
  · exact Follows.pure _
  · exact Follows.pure _
  · exact Follows.pure _
  · exact Follows.throw _

theorem follows_decode (member : String) (object : ObjectId) :
    Follows passage (decode meaning member object) := by
  apply Follows.bind (follows_readField calls object "value")
  intro value
  apply Follows.bind (follows_readFlag calls object "writable")
  intro writable
  apply Follows.bind (follows_readProcedure calls member object "get")
  intro getter
  apply Follows.bind (follows_readProcedure calls member object "set")
  intro setter
  apply Follows.bind (Follows.ofExcept _)
  intro shape
  apply Follows.bind (follows_readFlag calls object "enumerable")
  intro enumerable
  exact Follows.bind (follows_readFlag calls object "configurable") fun configurable =>
    Follows.pure _

end Descriptor

end Reading

/-! ### Writing -/

section Writing

variable {object : ObjectId} {name : String}
  (writes : ∀ (descriptor : Descriptor) (world : World σ),
    passage.leads world { world with store := world.store.storeMember object name descriptor })

include writes

theorem Member.follows_define (descriptor : Descriptor) :
    Follows passage (Member.define object name descriptor) := by
  apply Follows.getStore_bind
  intro world
  split
  · exact writes descriptor world
  · exact Follows.throw _ world

variable (calls : ∀ procedure receiver arguments,
  Follows passage (meaning.call procedure receiver arguments))

include calls

theorem Member.follows_assign (value : Value) :
    Follows passage (Member.assign meaning object name value) := by
  apply Follows.getStore_bind
  intro world
  split
  · exact writes _ world
  · split
    · exact Follows.bind (Follows.naming name (calls _ _ _)) (fun _ => Follows.pure _) world
    · exact Follows.throw _ world
    · exact Follows.throw _ world
    · split
      · exact writes _ world
      · exact writes _ world

theorem Definer.follows_define (encodes : ∀ descriptor : Descriptor,
      Follows passage (descriptor.encode : Action σ ObjectId))
    (definer : Definer) (descriptor : Descriptor) :
    Follows passage (definer.define meaning object name descriptor) := by
  cases definer with
  | raw => exact Member.follows_define writes descriptor
  | custom procedure =>
      apply Follows.bind (encodes descriptor)
      intro fields
      exact Follows.bind (Follows.naming name (calls _ _ _)) fun _ => Follows.pure _

end Writing

/-! ### Weaving -/

/-- Whether a procedure is one that nothing has been done with: it has no table yet, carries
no mark, and does not stand for a layer. -/
structure Procedure.Plain (procedure : Procedure) : Prop where
  table : procedure.table = none
  mark : procedure.mark = none
  body : ∀ layer, procedure.body ≠ .standalone layer

section Weaving

variable (enters : ∀ code entry, Follows passage (meaning.enter code entry))

section Plain

variable (adds : ∀ {procedure : Procedure}, procedure.Plain →
    Follows passage (Action.edit (·.addProcedure procedure) : Action σ ProcedureId))

include enters adds

namespace Layer

theorem follows_weave (reference : LayerId) (base : Option ProcedureId) :
    Follows passage (weave meaning reference base) := by
  apply Follows.bind Follows.getStore
  intro store
  split
  · exact adds ⟨rfl, rfl, nofun⟩
  · exact Follows.pure _
  · exact adds ⟨rfl, rfl, nofun⟩
  · apply Follows.bind (Follows.outcome (enters _ _))
    intro result
    split
    · exact Follows.pure _
    · exact adds ⟨rfl, rfl, nofun⟩
  · exact Follows.pure _

theorem follows_weaveAll :
    ∀ (layers : List LayerId) (woven : Option ProcedureId),
      Follows passage (weaveAll meaning layers woven)
  | [], _ => Follows.pure _
  | layer :: layers, woven =>
      Follows.bind (follows_weave enters adds layer woven) fun _ => follows_weaveAll layers _

end Layer

end Plain

variable (adds : ∀ procedure : Procedure, procedure.table = none →
    Follows passage (Action.edit (·.addProcedure procedure) : Action σ ProcedureId))

include adds in
private theorem follows_withMark (procedure : ProcedureId) (mark : Mark) :
    Follows passage (Action.edit (·.withMark procedure mark) : Action σ ProcedureId) := by
  intro world
  have added :=
    adds { world.store.procedure procedure with mark := some mark, table := none } rfl world
  rw [Action.run_edit] at added ⊢
  exact added

include adds in
private theorem follows_withHook (procedure : ProcedureId) (hook : Hook) :
    Follows passage (Action.edit (·.withHook procedure hook) : Action σ ProcedureId) := by
  intro world
  have added :=
    adds { world.store.procedure procedure with hook := some hook, table := none } rfl world
  rw [Action.run_edit] at added ⊢
  exact added

include enters adds in
theorem Weave.follows_build (weave : Weave) : Follows passage (weave.build meaning) := by
  apply Follows.bind (Layer.follows_weaveAll enters (fun plain => adds _ plain.table) _ _)
  intro woven
  split
  · exact Follows.pure _
  · apply Follows.bind (follows_withMark adds _ _)
    intro marked
    exact Follows.bind (follows_withHook adds _ _) fun _ => Follows.pure _

end Weaving

end TraitComposition
