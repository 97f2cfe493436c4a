import TraitComposition.Machine
import TraitComposition.Proofs.Store.Encoding

/-!
The objects that describe members. An object whose fields are plain, own or inherited, is decoded
if they fit together, into the descriptor that has each field which is there and the default for
each other one; otherwise decoding fails with a fault about the member. So encoding loses nothing.
-/
namespace TraitComposition

variable {σ : Type}

def Value.GivesProcedure (value : Value) : Prop :=
  value = .undefined ∨ ∃ procedure, value = .procedure procedure

namespace Descriptor

/-! ### Fields that fit together -/

/-- Whether fields are those of one descriptor: a getter and a setter that are there give procedures
or none, and then there is neither a value nor a word on whether it can be assigned. -/
structure WellFormed (given : String → Option Value) : Prop where
  getter : ∀ value, given "get" = some value → value.GivesProcedure
  setter : ∀ value, given "set" = some value → value.GivesProcedure
  unmixed : (given "get").isSome = true ∨ (given "set").isSome = true →
    given "value" = none ∧ given "writable" = none

/-- The descriptor that has each field which is given. A value that is not given is undefined, a
procedure that is not given is missing, and what is not allowed is forbidden. -/
def described (given : String → Option Value) : Descriptor where
  shape :=
    if (given "get").isSome = true ∨ (given "set").isSome = true then
      .accessor ((given "get").bind Value.asProcedure) ((given "set").bind Value.asProcedure)
    else
      .data ((given "value").getD .undefined) ((given "writable").any Value.isTruthy)
  enumerable := (given "enumerable").any Value.isTruthy
  configurable := (given "configurable").any Value.isTruthy

section Fields

variable (member : String)

private theorem procedureField_of_gives (key : String) {field : Option Value}
    (gives : ∀ value, field = some value → value.GivesProcedure) :
    procedureField member key field = .ok (field.map Value.asProcedure) := by
  cases field with
  | none => rfl
  | some value => rcases gives value rfl with rfl | ⟨procedure, rfl⟩ <;> rfl

private theorem exists_procedureField_eq_error (key : String) {value : Value}
    (other : ¬value.GivesProcedure) :
    ∃ reason,
      procedureField member key (some value) = .error (.invalidDescriptor member reason) := by
  cases value with
  | undefined => exact absurd (.inl rfl) other
  | procedure procedure => exact absurd (.inr ⟨procedure, rfl⟩) other
  | _ => exact ⟨_, rfl⟩

variable {given : String → Option Value}

private theorem ofFields_of_wellFormed (fits : WellFormed given) :
    ofFields member given = .ok (described given) := by
  have flag (field : Option Value) :
      (field.map Value.isTruthy).getD false = field.any Value.isTruthy := by
    cases field <;> rfl
  have join (field : Option Value) :
      (field.map Value.asProcedure).join = field.bind Value.asProcedure := by
    cases field <;> rfl
  rw [ofFields, procedureField_of_gives member "get" fits.getter,
    procedureField_of_gives member "set" fits.setter]
  change (shapeOfFields _ _ _ _ _).map _ = _
  by_cases accessor : (given "get").isSome = true ∨ (given "set").isSome = true
  · rcases fits.unmixed accessor with ⟨noValue, noWord⟩
    simp [shapeOfFields, described, accessor, noValue, noWord, flag, join, Except.map]
  · rw [not_or] at accessor
    simp [shapeOfFields, described, accessor, flag, Except.map]

theorem exists_ofFields_eq_error (misfit : ¬WellFormed given) :
    ∃ reason, ofFields member given = .error (.invalidDescriptor member reason) := by
  by_cases getter : ∀ value, given "get" = some value → value.GivesProcedure
  · rw [ofFields, procedureField_of_gives member "get" getter]
    by_cases setter : ∀ value, given "set" = some value → value.GivesProcedure
    · rw [procedureField_of_gives member "set" setter]
      change ∃ reason, (shapeOfFields _ _ _ _ _).map _ = _
      have mixed : ((given "get").isSome || (given "set").isSome) = true ∧
          ((given "value").isSome || (given "writable").isSome) = true := by
        rcases Bool.eq_false_or_eq_true
          ((given "get").isSome || (given "set").isSome) with accessor | accessor
        · refine ⟨accessor, ?_⟩
          rcases Bool.eq_false_or_eq_true
            ((given "value").isSome || (given "writable").isSome) with data | data
          · exact data
          · exact absurd ⟨getter, setter, fun _ => by simpa using data⟩ misfit
        · exact absurd ⟨getter, setter, fun present => by simp_all⟩ misfit
      exact ⟨_, by simp [shapeOfFields, mixed.1, mixed.2, Except.map]; rfl⟩
    · rcases Classical.not_forall.mp setter with ⟨value, refused⟩
      rcases Classical.not_imp.mp refused with ⟨held, other⟩
      rcases exists_procedureField_eq_error member "set" other with ⟨reason, failed⟩
      exact ⟨reason, by rw [held, failed]; rfl⟩
  · rcases Classical.not_forall.mp getter with ⟨value, refused⟩
    rcases Classical.not_imp.mp refused with ⟨held, other⟩
    rcases exists_procedureField_eq_error member "get" other with ⟨reason, failed⟩
    exact ⟨reason, by rw [ofFields, held, failed]; rfl⟩

end Fields

/-! ### Both directions -/

variable (meaning : Meaning σ)

/-- Encoding a descriptor only adds an object, and that is decoded into the descriptor. An object
whose fields are plain, own or inherited, is decoded exactly if they fit together, into what they
describe, and is otherwise rejected with a fault about the member; neither changes the world. -/
theorem decodes_exactly_wellFormed :
    (∀ (descriptor : Descriptor) (member : String) (world : World σ),
      ∃ store, world.store.OnlyAdds store ∧
        (descriptor.encode >>= decode meaning member).run world =
          (.ok descriptor, { world with store := store })) ∧
    ∀ (object : ObjectId) (member : String) (world : World σ),
      (∀ key ∈ fieldKeys, ∀ found, world.store.descriptor? object key = some found →
        found.isData = true) →
      (WellFormed (world.store.dataValue? object) →
        (decode meaning member object).run world =
          (.ok (described (world.store.dataValue? object)), world)) ∧
      (¬WellFormed (world.store.dataValue? object) →
        ∃ reason, (decode meaning member object).run world =
          (.error (.invalidDescriptor member reason), world)) := by
  refine ⟨fun descriptor member world => ?_, fun object member world plain => ⟨fun fits => ?_,
    fun misfit => ?_⟩⟩
  · exact ⟨_, .of_encode descriptor.fields world.store,
      run_decode_encode meaning descriptor member world⟩
  · rw [run_decode_of_plain meaning member plain, ofFields_of_wellFormed member fits]
  · rcases exists_ofFields_eq_error member misfit with ⟨reason, failed⟩
    exact ⟨reason, by rw [run_decode_of_plain meaning member plain, failed]⟩

/-- An object that says that there is no getter, one that delegates to it, and one with a value as
well. -/
def partlyDescribing : World Unit where
  store := {
    objects := #[
      { members := .ofEntries [("get", .ofValue .undefined)] },
      { parent := some ⟨0⟩,
        members := .ofEntries [("set", .ofValue (.procedure ⟨1⟩)),
          ("enumerable", .ofValue (.text "yes"))] },
      { parent := some ⟨1⟩, members := .ofEntries [("value", .ofValue .undefined)] }]
    procedures := #[{ body := .required }, { body := .code ⟨0⟩ }] }
  state := ()

/-- A getter that is there but missing still makes an accessor, and a value that is there but
undefined still is one too many. -/
theorem decodes_exactly_wellFormed_of_partlyDescribing :
    (decode (.ofBudget 0) "size" ⟨1⟩).run partlyDescribing =
        (.ok ⟨.accessor none (some ⟨1⟩), true, false⟩, partlyDescribing) ∧
      ∃ reason, (decode (.ofBudget 0) "size" ⟨2⟩).run partlyDescribing =
        (.error (.invalidDescriptor "size" reason), partlyDescribing) := by
  have exactly := (decodes_exactly_wellFormed (.ofBudget 0 : Meaning Unit)).2
  have plain (object : ObjectId) (all : ∀ key ∈ fieldKeys,
      (partlyDescribing.store.descriptor? object key).all Descriptor.isData = true) (key : String)
      (named : key ∈ fieldKeys) :=
    (Option.all_eq_true _ _).mp (all key named)
  refine ⟨(exactly ⟨1⟩ "size" partlyDescribing (plain ⟨1⟩ (by decide))).1 ⟨?_, ?_, ?_⟩,
    (exactly ⟨2⟩ "size" partlyDescribing (plain ⟨2⟩ (by decide))).2 fun fits => ?_⟩
  · exact fun value held => .inl (Option.some.inj held).symm
  · exact fun value held => .inr ⟨_, (Option.some.inj held).symm⟩
  · exact fun _ => ⟨rfl, rfl⟩
  · exact Option.some_ne_none _ (fits.unmixed (.inl rfl)).1

end Descriptor

end TraitComposition
