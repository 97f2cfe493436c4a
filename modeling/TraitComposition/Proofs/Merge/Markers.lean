import TraitComposition.Proofs.Merge.Weighing

/-!
Requirements that meet an implementation. A bare table that requires a name leaves alone
whatever the destination resolves under it. The table of a procedure only spares methods:
anything else gives way to the marker. Nor is a method always spared in peace, for the
destination is made to own what it keeps, by an assignment if it owns it already and
through its definer if it does not.
-/
namespace TraitComposition.Merge

open Store (ChangesWithin)

variable {σ : Type}

/-- Whether merging under a name succeeds, whatever user code means, runs none of it, adds
no conflict to those held back, and leaves what the destination resolves as it is. -/
def LeavesAlone (merge : Meaning σ → List Conflict → Action σ (List Conflict))
    (target : ObjectId) (name : String) (world : World σ) : Prop :=
  ∃ later : World σ, (∀ meaning held, (merge meaning held).run world = (.ok held, later)) ∧
    later.store.descriptor? target name = world.store.descriptor? target name

section LeavesAlone

variable {merge other : Meaning σ → List Conflict → Action σ (List Conflict)}
  {world later : World σ} {target : ObjectId} {name : String}

private theorem leavesAlone_congr
    (same : ∀ meaning held, (merge meaning held).run world = (other meaning held).run later)
    (kept : later.store.descriptor? target name = world.store.descriptor? target name) :
    LeavesAlone merge target name world ↔ LeavesAlone other target name later := by
  simp only [LeavesAlone, same, kept]

private theorem leavesAlone_of_run
    (ran : ∀ meaning held, (merge meaning held).run world = (.ok held, later)) :
    LeavesAlone merge target name world ↔
      later.store.descriptor? target name = world.store.descriptor? target name := by
  refine ⟨fun ⟨last, ranSo, same⟩ => ?_, fun same => ⟨later, ran, same⟩⟩
  have equal := (ran .exhausted []).symm.trans (ranSo .exhausted [])
  cases equal
  exact same

private theorem not_leavesAlone_of_run {fault : Fault}
    (failed : (merge .exhausted []).run world = (.error fault, later)) :
    ¬LeavesAlone merge target name world := by
  rintro ⟨last, ran, _⟩
  rw [ran] at failed
  cases failed

end LeavesAlone

/-! ### Putting members -/

section Putting

variable {world : World σ} {target : ObjectId} {name : String} {descriptor : Descriptor}

private theorem withValue_eq_self_iff {old value : Value}
    (writable : descriptor.shape = .data old true) :
    descriptor.withValue value = descriptor ↔ descriptor.shape = .data value true := by
  rcases descriptor with ⟨shape, enumerable, configurable⟩
  cases writable
  simp [Descriptor.withValue, eq_comm]

variable (plan : Plan) {value : Value} {existing : Descriptor}

def putQuietly (name : String) (descriptor : Descriptor) (meaning : Meaning σ)
    (held : List Conflict) : Action σ (List Conflict) := do
  put meaning plan name descriptor
  return held

variable (valued : descriptor.value? = some value)
  (resolved : world.store.descriptor? plan.target name = some existing)

include resolved in
private theorem descriptor?_storeMember_of_resolved (kept : Descriptor) :
    (world.store.storeMember plan.target name kept).descriptor? plan.target name = some kept :=
  Store.descriptor?_of_own (Store.ownDescriptor?_storeMember_same _ _ _ _
    (Store.hasObject_of_descriptor? resolved))

include valued resolved in
theorem leavesAlone_put_iff_of_inherited
    (unowned : world.store.ownDescriptor? plan.target name = none) :
    LeavesAlone (putQuietly plan name descriptor) plan.target name world ↔
      plan.definer = .raw ∧ descriptor = existing := by
  cases definer : plan.definer with
  | raw =>
      have ran (meaning : Meaning σ) (held : List Conflict) :
          (putQuietly plan name descriptor meaning held).run world = _ :=
        Action.run_bind_of_ok _ (run_put_of_not_owned meaning plan descriptor definer unowned)
      rw [leavesAlone_of_run ran, descriptor?_storeMember_of_resolved plan resolved, resolved,
        Option.some.injEq]
      simp
  | custom procedure =>
      have failed : ∃ fault later,
          (putQuietly plan name descriptor .exhausted []).run world = (.error fault, later) := by
        rw [putQuietly, put, valued, definer]
        simp only [Action.run_getStore_bind, bind_assoc, Store.hasOwn_eq_isSome, unowned]
        exact ⟨_, _, rfl⟩
      rcases failed with ⟨_, _, failed⟩
      simp [not_leavesAlone_of_run failed]

include valued in
theorem leavesAlone_put_iff_of_owned
    (owned : world.store.ownDescriptor? plan.target name = some existing) :
    LeavesAlone (putQuietly plan name descriptor) plan.target name world ↔
      existing.shape = .data value true := by
  have resolved := Store.descriptor?_of_own owned
  by_cases writable : ∃ old, existing.shape = .data old true
  · rcases writable with ⟨old, writable⟩
    have ran (meaning : Meaning σ) (held : List Conflict) :
        (putQuietly plan name descriptor meaning held).run world = _ :=
      Action.run_bind_of_ok _ (run_put_of_owned meaning plan valued owned writable)
    rw [leavesAlone_of_run ran, descriptor?_storeMember_of_resolved plan resolved, resolved,
      Option.some.injEq, withValue_eq_self_iff writable]
  · have locked (old : Value) : existing.shape ≠ .data old true := fun shape =>
      writable ⟨old, shape⟩
    rcases Member.run_assign_of_locked value owned locked with ⟨fault, refused⟩
    have failed : (putQuietly plan name descriptor .exhausted []).run world =
        (.error fault, world) := by
      rw [putQuietly, put, valued]
      simp only [Action.run_getStore_bind, bind_assoc, Store.hasOwn_eq_isSome, owned]
      exact Action.run_bind_of_error _ refused
    simp [not_leavesAlone_of_run failed, locked]

include valued resolved in
theorem leavesAlone_put_iff :
    LeavesAlone (putQuietly plan name descriptor) plan.target name world ↔
      if world.store.hasOwn plan.target name then existing.shape = .data value true
      else plan.definer = .raw ∧ descriptor = existing := by
  cases owned : world.store.ownDescriptor? plan.target name with
  | none =>
      rw [if_neg (by simp [Store.hasOwn_eq_isSome, owned])]
      exact leavesAlone_put_iff_of_inherited plan valued resolved owned
  | some own =>
      obtain rfl : own = existing := by
        rw [Store.descriptor?_of_own owned] at resolved
        exact Option.some.inj resolved
      rw [if_pos (by simp [Store.hasOwn_eq_isSome, owned])]
      exact leavesAlone_put_iff_of_owned plan valued owned

end Putting

/-! ### Keeping -/

section Keeping

variable {world later : World σ} {table owner : ObjectId} {name : String} {descriptor : Descriptor}
  {incoming : ProcedureId} {plan : Plan} {index : Nat} {ownChain : List ObjectId}
  (found : world.store.lookup table name = some (owner, descriptor))
  (method : descriptor.method? = some incoming)
  (silent : installs world.store table ownChain name (world.store.dataValue? plan.target name) =
    false)
  (weighed : (weigh plan index name (owner == table) incoming ownChain
    (world.store.dataValue? plan.target name)).run world = (.ok .keepDestination, later))
  (changes : ChangesWithin .nowhere world.store later.store) (rooted : world.store.Rooted)
  {existing : Descriptor} (resolved : world.store.descriptor? plan.target name = some existing)

include changes rooted resolved

theorem descriptor?_of_weighed : later.store.descriptor? plan.target name = some existing :=
  (changes.descriptor?_eq rooted (Store.hasObject_of_descriptor? resolved)
    fun _ _ => id).trans resolved

include found method silent weighed

theorem run_mixMethod_of_keeping (meaning : Meaning σ) (held : List Conflict) :
    (mixMethod meaning plan index table ownChain name held).run world =
      (putQuietly plan name existing meaning held).run later := by
  rw [run_mixMethod_weighs meaning plan index ownChain held found method silent,
    Action.run_bind_of_ok _ weighed, carryOut, Action.run_getStore_bind,
    descriptor?_of_weighed changes rooted resolved]
  rfl

theorem leavesAlone_iff_of_keeping {value : Value} (valued : existing.value? = some value) :
    LeavesAlone (fun meaning => mixMethod meaning plan index table ownChain name) plan.target
        name world ↔
      if world.store.hasOwn plan.target name then existing.shape = .data value true
      else plan.definer = .raw := by
  have still := descriptor?_of_weighed changes rooted resolved
  have own : later.store.hasOwn plan.target name = world.store.hasOwn plan.target name := by
    rw [Store.hasOwn_eq_isSome, Store.hasOwn_eq_isSome,
      changes.own _ _ (Store.hasObject_of_descriptor? resolved) id]
  rw [leavesAlone_congr
      (run_mixMethod_of_keeping found method silent weighed changes rooted resolved)
      (still.trans resolved.symm),
    leavesAlone_put_iff plan valued still, own]
  simp

end Keeping

/-! ### Weighing a requirement -/

theorem run_weigh_of_required (plan : Plan) (index : Nat) (name : String) (own : Bool)
    (ownChain : List ObjectId) {incoming existing : ProcedureId} {world : World σ}
    (known : world.store.hasProcedure incoming = true)
    (required : world.store.isRequired incoming = true) (different : existing ≠ incoming) :
    ∃ later,
      (weigh plan index name own incoming ownChain (some (.procedure existing))).run world =
        (.ok .keepDestination, later) ∧
      ChangesWithin .nowhere world.store later.store := by
  rcases exists_run_weigh plan index name own ownChain different world with
    ⟨later, earlier, throughThis, weighed, changes, _⟩
  have still := (changes.extends_.isRequired known).trans required
  refine ⟨later, ?_, changes⟩
  rw [weighed, Rivalry.resolve, if_pos still]

/-! ### Markers -/

section Markers

variable {world : World σ} {table owner : ObjectId} {name : String} {descriptor : Descriptor}
  {marker : ProcedureId} (found : world.store.lookup table name = some (owner, descriptor))
  (method : descriptor.method? = some marker)
  (required : world.store.isRequired marker = true)
  (plain : (world.store.procedure marker).hook = none) (plan : Plan) {existing : Descriptor}
  (resolved : world.store.descriptor? plan.target name = some existing)

include found method required plain resolved

private theorem leavesAlone_mixMember :
    LeavesAlone (fun meaning => mixMember meaning plan table name) plan.target name world := by
  have present : world.store.has plan.target name = true := by
    rw [Store.has, ← Option.isSome_map, ← Store.descriptor?, resolved, Option.isSome_some]
  have ran (meaning : Meaning σ) (held : List Conflict) :
      (mixMember meaning plan table name held).run world = (.ok held, world) := by
    rw [run_mixMember_of_unhooked meaning plan held found method plain, required, present]
    rfl
  exact ⟨world, ran, rfl⟩

variable (index : Nat) (ownChain : List ObjectId)

omit required resolved in
private theorem installs_of_marker :
    installs world.store table ownChain name (world.store.dataValue? plan.target name) =
      false := by
  rw [installs, found]
  simp only [method, plain, Option.isSome_none, Bool.false_and]

omit required in
theorem not_leavesAlone_mixMethod (other : existing.method? = none) :
    ¬LeavesAlone (fun meaning => mixMethod meaning plan index table ownChain name) plan.target
      name world := by
  have valued := Descriptor.value?_of_method? method
  have copied (meaning : Meaning σ) (held : List Conflict) :
      (mixMethod meaning plan index table ownChain name held).run world =
        (putQuietly plan name descriptor meaning held).run world := by
    rw [run_mixMethod_weighs meaning plan index ownChain held found method
        (installs_of_marker found method plain plan ownChain),
      Store.dataValue?, resolved, Option.bind_some,
      weigh_of_no_rival plan _ _ _ _ _ fun kept holds => ?_]
    · rfl
    · rw [Descriptor.method?, holds] at other
      cases other
  rw [leavesAlone_congr copied rfl, leavesAlone_put_iff plan valued resolved]
  split
  · intro same
    rw [Descriptor.method?, Descriptor.value?, same] at other
    cases other
  · rintro ⟨_, rfl⟩
    rw [method] at other
    cases other

theorem leavesAlone_mixMethod_iff {kept : ProcedureId} (keeps : existing.method? = some kept)
    (rooted : world.store.Rooted) (known : world.store.hasProcedure marker = true)
    (implemented : world.store.isRequired kept = false) :
    LeavesAlone (fun meaning => mixMethod meaning plan index table ownChain name) plan.target
        name world ↔
      if world.store.hasOwn plan.target name then existing.shape = .data (.procedure kept) true
      else plan.definer = .raw := by
  have valued := Descriptor.value?_of_method? keeps
  have current : world.store.dataValue? plan.target name = some (.procedure kept) := by
    rw [Store.dataValue?, resolved, Option.bind_some, valued]
  have different : kept ≠ marker := by
    rintro rfl
    rw [required] at implemented
    cases implemented
  rcases run_weigh_of_required plan index name (owner == table) ownChain known required different
    with ⟨later, weighed, changes⟩
  rw [← current] at weighed
  exact leavesAlone_iff_of_keeping found method
    (installs_of_marker found method plain plan ownChain) weighed changes rooted resolved valued

/-- A requirement meets something that is none. Brought by a bare table, it leaves that
alone, whatever it is. Brought by the table of a procedure, plain or of a type, it leaves
alone a method only: one that the destination owns and may assign, or that it inherits and
may own without being asked. -/
theorem requirement_spares_iff (rooted : world.store.Rooted)
    (known : world.store.hasProcedure marker = true)
    (implemented : ∀ kept, existing.method? = some kept → world.store.isRequired kept = false) :
    LeavesAlone (fun meaning => mixMember meaning plan table name) plan.target name world ∧
      (LeavesAlone (fun meaning => mixMethod meaning plan index table ownChain name) plan.target
          name world ↔
        ∃ kept, existing.method? = some kept ∧
          if world.store.hasOwn plan.target name then existing.shape = .data (.procedure kept) true
          else plan.definer = .raw) := by
  refine ⟨leavesAlone_mixMember found method required plain plan resolved, ?_⟩
  cases keeps : existing.method? with
  | none =>
      have displaced :=
        not_leavesAlone_mixMethod found method plain plan resolved index ownChain keeps
      simp [displaced]
  | some kept =>
      rw [leavesAlone_mixMethod_iff found method required plain plan resolved index ownChain keeps
        rooted known (implemented kept keeps)]
      simp

end Markers

def holdingText : World Unit where
  store := {
    objects := #[
      { members := MemberTable.empty.insert "n" (.ofValue (.text "five")) },
      { members := MemberTable.empty.insert "n" (.ofValue (.procedure Store.requiredMarker)) }]
    procedures := #[{ body := .required }, { body := .code ⟨0⟩, table := some ⟨1⟩ }] }
  state := ()

/-- The bare table leaves the text alone, the procedure that has the same table does not. -/
theorem requirement_displaces_text :
    LeavesAlone (fun meaning => mixMember meaning ⟨⟨0⟩, .raw, [.object ⟨1⟩]⟩ ⟨1⟩ "n") ⟨0⟩ "n"
        holdingText ∧
      ¬LeavesAlone
        (fun meaning => mixMethod meaning ⟨⟨0⟩, .raw, [.procedure ⟨1⟩]⟩ 0 ⟨1⟩ [⟨1⟩] "n") ⟨0⟩ "n"
        holdingText := by
  have found : holdingText.store.lookup ⟨1⟩ "n" =
      some (⟨1⟩, .ofValue (.procedure Store.requiredMarker)) :=
    Store.lookup_of_own (MemberTable.find?_insert_same ..)
  have resolved : holdingText.store.descriptor? ⟨0⟩ "n" = some (.ofValue (.text "five")) :=
    Store.descriptor?_of_own (MemberTable.find?_insert_same ..)
  have spares (source : Value) := requirement_spares_iff found rfl rfl rfl
    ⟨⟨0⟩, .raw, [source]⟩ resolved 0 [⟨1⟩] (by decide) (by decide)
    (fun kept keeps => by cases keeps)
  refine ⟨(spares _).1, fun leaves => ?_⟩
  rcases (spares _).2.mp leaves with ⟨kept, keeps, _⟩
  cases keeps

end TraitComposition.Merge
