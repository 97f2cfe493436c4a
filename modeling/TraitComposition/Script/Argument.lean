import TraitComposition.Script.Basic

/-!
Arguments with a structure of their own: descriptors, patches, settings and
composers, and how they are written in answers.
-/
namespace TraitComposition.Script

open Evaluation

/-! ### Descriptors -/

def descriptorValue (descriptor : Descriptor) : Value :=
  .list <| (match descriptor.shape with
    | .data value writable => [.text "data", value, .boolean writable]
    | .accessor getter setter =>
        [.text "accessor", .ofProcedure? getter, .ofProcedure? setter]) ++
    [.boolean descriptor.enumerable, .boolean descriptor.configurable]

def writtenFlag (value : Value) : Bool :=
  value.asBoolean.getD false

def descriptorOfItems : List Value → Option Descriptor
  | [.text "data", value, writable, enumerable, configurable] =>
      some ⟨.data value (writtenFlag writable), writtenFlag enumerable, writtenFlag configurable⟩
  | [.text "accessor", getter, setter, enumerable, configurable] =>
      some ⟨.accessor getter.asProcedure setter.asProcedure, writtenFlag enumerable,
        writtenFlag configurable⟩
  | _ => none

def descriptorAt (scope : Scope) (phrases : List Phrase) (index : Nat) (member : String) :
    Evaluation Descriptor := do
  match ← valueAt scope phrases index with
  | .list items =>
      match descriptorOfItems items with
      | some descriptor => return descriptor
      | none => complain "expected descriptor"
  | .object object => ask (.decode member object)
  | _ => complain "expected descriptor"

/-! ### Patches -/

def patchProcedure (scope : Scope) (phrase : Phrase) (name : String) :
    Evaluation (Option ProcedureId) := do
  match phrase.field? name with
  | none => return none
  | some field => return some (← procedureAt scope [field] 0)

def patchFlag (phrase : Phrase) (name : String) : Option Bool :=
  (phrase.source.field? name).map Data.isTrue

def patchAt (scope : Scope) (phrases : List Phrase) (index : Nat) : Evaluation Patch := do
  let phrase := Phrase.part phrases index
  match phrase.source with
  | .record _ =>
      let value ← match phrase.field? "value" with
        | none => pure none
        | some field => do pure (some (← field.value scope))
      let getter ← patchProcedure scope phrase "get"
      let setter ← patchProcedure scope phrase "set"
      return {
        value, getter, setter
        writable := patchFlag phrase "writable"
        enumerable := patchFlag phrase "enumerable"
        configurable := patchFlag phrase "configurable" }
  | _ => complain "expected patch"

/-! ### Settings and composers -/

def configValue (config : Config) : Value :=
  .list [.text config.conflictPolicy.word, .boolean config.materializeAccessors]

def configOfItems : List Value → Option Config
  | [.text word, .boolean flag] => (ConflictPolicy.ofWord? word).map fun policy => ⟨policy, flag⟩
  | _ => none

def configAt (scope : Scope) (phrases : List Phrase) (index : Nat) : Evaluation Config := do
  match configOfItems (← listAt scope phrases index) with
  | some config => return config
  | none => complain "expected config"

def composerNamed (name : String) : Evaluation Composer := do
  match (← getState).composers.lookup name with
  | some composer => return composer
  | none => complain "no such composer"

def composerAt (scope : Scope) (phrases : List Phrase) (index : Nat) : Evaluation Composer := do
  match ← valueAt scope phrases index with
  | .null => return {}
  | .text name => composerNamed name
  | _ => complain "expected composer"

/-! ### Conflicts -/

def conflictItems (conflict : Conflict) : List Value :=
  [.text conflict.member, .procedure conflict.existing, .procedure conflict.incoming]

end TraitComposition.Script
