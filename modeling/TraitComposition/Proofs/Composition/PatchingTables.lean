import TraitComposition.Proofs.Advice.AccessorAdvice
import TraitComposition.Proofs.Composition.CapturedAliases
import TraitComposition.Proofs.Machine.Growth

/-!
Bare tables that give advice on an accessor. Whatever else such a table shows, merging it leaves the
destination with an accessor of its own, on which the advice is stacked: what is merged under the
other names does not touch it.
-/
namespace TraitComposition

open TraitComposition.Action (Follows succeeded_of_bind)

variable {σ : Type}

/-! ### Tables that patch a name

A bare table patches a name if it shows a decorator there whose hook is a patch, and decorates
this name only if nothing that it shows under others carries a hook. -/

namespace Store

structure Patches (store : Store) (table : ObjectId) (name : String) (patch : Patch) : Prop where
  known : store.hasObject table = true
  binds : ∃ decorator, store.Binds table name decorator ∧
    store.hasProcedure decorator = true ∧ (store.procedure decorator).hook = some (.patch patch)

def HoldsUnhooked (store : Store) (table : ObjectId) (name : String) : Prop :=
  ∀ method ∈ (store.descriptor? table name).bind Descriptor.method?,
    store.hasProcedure method = true ∧ (store.procedure method).hook = none

instance (store : Store) (table : ObjectId) (name : String) :
    Decidable (store.HoldsUnhooked table name) :=
  inferInstanceAs (Decidable (∀ method ∈ (store.descriptor? table name).bind Descriptor.method?,
    store.hasProcedure method = true ∧ (store.procedure method).hook = none))

def DecoratesOnly (store : Store) (table : ObjectId) (name : String) : Prop :=
  ∀ other ∈ store.enumerableNames table, other ≠ name → store.HoldsUnhooked table other

instance (store : Store) (table : ObjectId) (name : String) :
    Decidable (store.DecoratesOnly table name) :=
  inferInstanceAs (Decidable (∀ other ∈ store.enumerableNames table, other ≠ name →
    store.HoldsUnhooked table other))

section Members

variable {kept : ObjectId → Prop} {before after : Store} {table : ObjectId} {name : String}
  (keeps : before.Keeps kept after) (rooted : before.Rooted)
  (inside : ∀ level ∈ before.ancestry table, kept level)

include keeps rooted inside

theorem Patches.later {patch : Patch} (patches : before.Patches table name patch) :
    after.Patches table name patch := by
  have extends_ := keeps.extends_
  rcases patches.binds with ⟨decorator, binds, there, hooked⟩
  refine ⟨(extends_.object table patches.known).1, decorator, ⟨?_, ?_⟩,
    (extends_.procedure decorator there).1, (extends_.hook there).trans hooked⟩
  · rw [keeps.enumerableNames_eq rooted patches.known inside]
    exact binds.listed
  · rw [keeps.descriptor?_eq rooted patches.known inside]
    exact binds.shown

variable (there : before.hasObject table = true)

include there

private theorem HoldsUnhooked.later (unhooked : before.HoldsUnhooked table name) :
    after.HoldsUnhooked table name := by
  intro method holds
  rw [keeps.descriptor?_eq rooted there inside] at holds
  rcases unhooked method holds with ⟨known, bare⟩
  exact ⟨(keeps.extends_.procedure method known).1, (keeps.extends_.hook known).trans bare⟩

theorem DecoratesOnly.later (only : before.DecoratesOnly table name) :
    after.DecoratesOnly table name := by
  intro other listed different
  rw [keeps.enumerableNames_eq rooted there inside] at listed
  exact (only other listed different).later keeps rooted inside there

end Members

structure Sheltered (kept : ObjectId → Prop) (table target : ObjectId) (store : Store) : Prop where
  rooted : store.Rooted
  there : store.hasObject table = true
  known : store.hasObject target = true
  inside : kept target
  levels : ∀ level ∈ store.ancestry table, kept level ∧ level ≠ target

section Later

variable {kept : ObjectId → Prop} {before after : Store} {table target : ObjectId} {name : String}
  (sheltered : before.Sheltered kept table target)
  (keeps : before.Keeps (fun object => kept object ∧ object ≠ target) after)

include sheltered keeps

private theorem Sheltered.later : after.Sheltered kept table target := by
  have rooted := keeps.rooted sheltered.rooted
  have extends_ := keeps.extends_
  refine ⟨rooted, (extends_.object table sheltered.there).1,
    (extends_.object target sheltered.known).1, sheltered.inside, ?_⟩
  rw [extends_.ancestry_eq sheltered.rooted rooted sheltered.there]
  exact sheltered.levels

private theorem Sheltered.enumerableNames_eq :
    after.enumerableNames table = before.enumerableNames table :=
  keeps.enumerableNames_eq sheltered.rooted sheltered.there sheltered.levels

private theorem Sheltered.holdsUnhooked (unhooked : before.HoldsUnhooked table name) :
    after.HoldsUnhooked table name :=
  unhooked.later keeps sheltered.rooted sheltered.levels sheltered.there

end Later

/-! ### What other names leave alone -/

structure KeepsMember (kept : ObjectId → Prop) (target : ObjectId) (name : String)
    (before after : Store) : Prop where
  keeps : before.Keeps (fun object => kept object ∧ object ≠ target) after
  own : before.hasObject target = true →
    after.ownDescriptor? target name = before.ownDescriptor? target name

namespace KeepsMember

variable {kept : ObjectId → Prop} {target : ObjectId} {name : String} {first second third : Store}

theorem trans (start : KeepsMember kept target name first second)
    (rest : KeepsMember kept target name second third) :
    KeepsMember kept target name first third where
  keeps := start.keeps.trans rest.keeps
  own known := (rest.own (start.keeps.extends_.object target known).1).trans (start.own known)

theorem descriptor?_eq (same : KeepsMember kept target name first second) (rooted : first.Rooted)
    (known : first.hasObject target = true)
    (above : ∀ level ∈ first.ancestors target, kept level) :
    second.descriptor? target name = first.descriptor? target name := by
  have looked : second.lookup target name = first.lookup target name := by
    apply lookup_congr (same.keeps.extends_.ancestry_eq rooted (same.keeps.rooted rooted) known)
    intro level member
    rw [ancestry_eq_cons, List.mem_cons] at member
    rcases member with rfl | member
    · exact same.own known
    · have apart : level ≠ target := fun equal =>
        not_mem_ancestors_self rooted target (equal ▸ member)
      rw [ownDescriptor?, ownDescriptor?, same.keeps.members level
        (hasObject_of_mem_ancestry rooted known (List.mem_of_mem_tail member))
        ⟨above level member, apart⟩]
  rw [descriptor?, descriptor?, looked]

end KeepsMember

structure AwaitsAdvice (kept : ObjectId → Prop) (table target : ObjectId) (name : String)
    (patch : Patch) (former : Descriptor) (store : Store) : Prop where
  sheltered : store.Sheltered kept table target
  above : ∀ level ∈ store.ancestors target, kept level
  patches : store.Patches table name patch
  advising : patch.Advising store
  founds : store.FoundsAccessor former
  resolved : store.descriptor? target name = some former
  unowned : store.ownDescriptor? target name = none

theorem AwaitsAdvice.later {kept : ObjectId → Prop} {table target : ObjectId} {name : String}
    {patch : Patch} {former : Descriptor} {before after : Store}
    (awaits : before.AwaitsAdvice kept table target name patch former)
    (same : before.KeepsMember kept target name after) :
    after.AwaitsAdvice kept table target name patch former := by
  have sheltered := awaits.sheltered
  have extends_ := same.keeps.extends_
  have line := extends_.ancestry_eq sheltered.rooted (same.keeps.rooted sheltered.rooted)
    sheltered.known
  exact {
    sheltered := sheltered.later same.keeps
    above := by
      rw [ancestors, line]
      exact awaits.above
    patches := awaits.patches.later same.keeps sheltered.rooted sheltered.levels
    advising := awaits.advising.later extends_
    founds := awaits.founds.later extends_
    resolved := (same.descriptor?_eq sheltered.rooted sheltered.known awaits.above).trans
      awaits.resolved
    unowned := (same.own sheltered.known).trans awaits.unowned }

end Store

def Passage.keepingMember (σ : Type) (kept : ObjectId → Prop) (target : ObjectId) (name : String) :
    Passage σ where
  leads before after := before.store.KeepsMember kept target name after.store
  refl world := ⟨.refl _ world.store, fun _ => rfl⟩
  trans start rest := start.trans rest

/-! ### Merging -/

namespace Merge

variable {kept : ObjectId → Prop} [DecidablePred kept] {plan : Plan} {table : ObjectId}
  {name : String}

theorem respects_keepingMember (inside : kept plan.target) {other : String}
    (different : other ≠ name) (budget : Nat) :
    Respects (Passage.keepingMember σ kept plan.target name) (.sheltering kept budget) plan
      other := by
  apply respects_sheltering kept
  · intro before after keeps
    refine Store.KeepsMember.mk (keeps.mono fun _ _ => And.left) fun known => ?_
    rw [Store.ownDescriptor?, keeps.members plan.target known inside, ← Store.ownDescriptor?]
  · intro descriptor world
    have stored := Store.ChangesOnly.of_storeMember world.store plan.target other descriptor
    exact ⟨.of_changesOnly stored fun both => both.2 rfl, fun _ =>
      Store.ownDescriptor?_storeMember_other world.store descriptor
        fun both => different both.2.symm⟩

variable {budget : Nat} {now later : World σ} {held : List Conflict}
  {result : Except Fault (List Conflict)}

private theorem keeps_of_mixMember
    (ran : (mixMember (.sheltering kept budget) plan table name held).run now = (result, later)) :
    now.store.Keeps (fun object => kept object ∧ object ≠ plan.target) later.store := by
  have respects : Respects (Passage.keeping σ fun object => kept object ∧ object ≠ plan.target)
      (.sheltering kept budget) plan name := by
    apply respects_sheltering kept
    · exact fun _ _ keeps => keeps.mono fun _ _ => And.left
    · exact Passage.keeping_storeMember (fun both => both.2 rfl) name
  have follows := respects.mixMember table held now
  rwa [ran] at follows

private theorem keepsMember_of_mixOthers (inside : kept plan.target) {names : List String}
    (absent : name ∉ names)
    (ran : (names.foldlM (fun held other =>
      mixMember (.sheltering kept budget) plan table other held) held).run now = (result, later)) :
    now.store.KeepsMember kept plan.target name later.store := by
  have follows : ∀ (names : List String) (held : List Conflict), name ∉ names →
      Follows (Passage.keepingMember σ kept plan.target name) (names.foldlM (fun held other =>
        mixMember (.sheltering kept budget) plan table other held) held) := by
    intro names
    induction names with
    | nil => exact fun _ _ => Follows.pure _
    | cons other names induction =>
        intro held absent
        rw [List.mem_cons, not_or] at absent
        rw [List.foldlM_cons]
        exact Follows.bind
          ((respects_keepingMember inside (Ne.symm absent.1) budget).mixMember table held)
          fun left => induction left absent.2
  have merged := follows names held absent now
  rwa [ran] at merged

theorem exists_run_mixMember_of_unhooked (meaning : Meaning σ) (raw : plan.definer = .raw)
    (listed : name ∈ now.store.enumerableNames table)
    (unhooked : now.store.HoldsUnhooked table name)
    (unowned : now.store.ownDescriptor? plan.target name = none) :
    ∃ later, (mixMember meaning plan table name []).run now = (.ok [], later) := by
  rcases Store.mem_enumerableNames_iff.mp listed with ⟨_, resolved, _⟩
  rcases Option.map_eq_some_iff.mp resolved with ⟨⟨owner, descriptor⟩, found, rfl⟩
  have puts := run_put_of_not_owned meaning plan descriptor raw unowned
  cases method : descriptor.method? with
  | none =>
      rw [run_mixMember_of_value meaning plan [] found method, Action.run_bind_of_ok _ puts,
        settledBy_nil]
      exact ⟨_, rfl⟩
  | some incoming =>
      have bare := (unhooked incoming (by rw [resolved]; exact method)).2
      rw [run_mixMember_of_unhooked meaning plan [] found method bare]
      split
      · exact ⟨now, rfl⟩
      · rw [Action.run_bind_of_ok _ puts, settledBy_nil]
        exact ⟨_, rfl⟩

variable (budget) in
theorem exists_run_mixUnhooked (raw : plan.definer = .raw) (names : List String)
    (sheltered : now.store.Sheltered kept table plan.target) (unique : names.Nodup)
    (bare : ∀ name ∈ names, name ∈ now.store.enumerableNames table ∧
      now.store.HoldsUnhooked table name ∧ now.store.ownDescriptor? plan.target name = none) :
    ∃ later, (names.foldlM (fun held other =>
      mixMember (.sheltering kept budget) plan table other held) []).run now = (.ok [], later) := by
  induction names generalizing now with
  | nil => exact ⟨now, rfl⟩
  | cons name names induction =>
      rw [List.nodup_cons] at unique
      rcases bare name (List.mem_cons_self ..) with ⟨listed, unhooked, unowned⟩
      rcases exists_run_mixMember_of_unhooked (.sheltering kept budget) raw listed unhooked unowned
        with ⟨between, ran⟩
      have keeps := keeps_of_mixMember ran
      have rest : ∀ other ∈ names, other ∈ between.store.enumerableNames table ∧
          between.store.HoldsUnhooked table other ∧
          between.store.ownDescriptor? plan.target other = none := by
        intro other member
        rcases bare other (List.mem_cons_of_mem _ member) with ⟨listed, unhooked, unowned⟩
        have different : name ≠ other := fun equal => unique.1 (equal ▸ member)
        have respects := respects_keepingMember (σ := σ) sheltered.inside different budget
        have same := respects.mixMember table [] now
        rw [ran] at same
        rw [sheltered.enumerableNames_eq keeps]
        exact ⟨listed, sheltered.holdsUnhooked keeps unhooked,
          (same.own sheltered.known).trans unowned⟩
      rcases induction (sheltered.later keeps) unique.2 rest with ⟨later, ranRest⟩
      refine ⟨later, ?_⟩
      rw [List.foldlM_cons, Action.run_bind_of_ok _ ran]
      exact ranRest

/-! ### The turn of the name -/

section Patching

variable (plan) {patch : Patch} {former : Descriptor}

theorem exists_run_mixMember_patching
    (awaits : now.store.AwaitsAdvice kept table plan.target name patch former)
    (drafts : ∀ draft ∈ now.store.upcoming 2, kept draft) (held : List Conflict) :
    ∃ advised later, (mixMember (.sheltering kept (budget + 2)) plan table name held).run now =
        (.ok (settleConflict name held), later) ∧
      later.store.ownDescriptor? plan.target name = some advised ∧
      now.store.Advised later.store former patch advised := by
  have sheltered := awaits.sheltered
  rcases awaits.patches.binds with ⟨decorator, binds, there, hooked⟩
  rcases Option.bind_eq_some_iff.mp binds.shown with ⟨_, shown, holds⟩
  rcases Option.map_eq_some_iff.mp shown with ⟨⟨owner, descriptor⟩, found, rfl⟩
  rcases Decorator.exists_run_install_advising kept budget awaits.advising awaits.founds drafts name
    sheltered.known sheltered.inside awaits.unowned awaits.resolved with
    ⟨advised, drafted, ran, keeps, advises⟩
  have stored := Store.ChangesOnly.of_storeMember drafted.store plan.target name advised
  refine ⟨advised, { drafted with store := drafted.store.storeMember plan.target name advised }, ?_,
    Store.ownDescriptor?_storeMember_same _ plan.target name advised
      (keeps.extends_.object _ sheltered.known).1, advises.later stored.extends_⟩
  rw [run_mixMember_of_hook _ _ held found holds hooked]
  exact Action.run_bind_of_ok _ ran

theorem mixMembers_patching {before after : List String} {left : List Conflict}
    (awaits : now.store.AwaitsAdvice kept table plan.target name patch former)
    (absent : name ∉ before ∧ name ∉ after)
    (drafts : ∀ passed front, (before.foldlM (fun held other =>
        mixMember (.sheltering kept (budget + 2)) plan table other held) held).run now =
          (.ok passed, front) →
      ∀ draft ∈ front.store.upcoming 2, kept draft)
    (ran : ((before ++ name :: after).foldlM (fun held other =>
      mixMember (.sheltering kept (budget + 2)) plan table other held) held).run now =
        (.ok left, later)) :
    ∃ advised, now.store.Keeps (fun object => kept object ∧ object ≠ plan.target) later.store ∧
      later.store.ownDescriptor? plan.target name = some advised ∧
      now.store.Advised later.store former patch advised := by
  have inside := awaits.sheltered.inside
  rw [List.foldlM_append] at ran
  rcases succeeded_of_bind ran with ⟨passed, front, ranBefore, ran⟩
  rw [List.foldlM_cons] at ran
  have first := keepsMember_of_mixOthers inside absent.1 ranBefore
  rcases exists_run_mixMember_patching plan (awaits.later first) (drafts passed front ranBefore)
    passed with ⟨advised, back, ranName, own, advises⟩
  rw [Action.run_bind_of_ok _ ranName] at ran
  have last := keepsMember_of_mixOthers inside absent.2 ran
  have known := Store.hasObject_of_descriptor? (Store.descriptor?_of_own own)
  exact ⟨advised, first.keeps.trans ((keeps_of_mixMember ranName).trans last.keeps),
    (last.own known).trans own, (advises.since first.keeps.extends_ awaits.founds
      awaits.advising).later last.keeps.extends_⟩

end Patching

/-! ### The whole table -/

def mixUpTo (meaning : Meaning σ) (plan : Plan) (table : ObjectId) (name : String) :
    Action σ (List Conflict) := do
  let names := (← Action.getStore).enumerableNames table
  (names.takeWhile (· ≠ name)).foldlM (fun held other => mixMember meaning plan table other held) []

theorem exists_run_mixUpTo {meaning : Meaning σ} {target : ObjectId} {definer : Definer}
    {left : List Conflict}
    (ran : (mixin meaning target [.object table] definer).run now = (.ok left, later)) :
    ∃ passed front, (mixUpTo meaning ⟨target, definer, [.object table]⟩ table name).run now =
      (.ok passed, front) := by
  rcases succeeded_of_bind ran with ⟨_, _, ranSource, _⟩
  rw [mixSource, Action.run_getStore_bind,
    ← (now.store.enumerableNames table).takeWhile_append_dropWhile (p := (· ≠ name)),
    List.foldlM_append] at ranSource
  rcases succeeded_of_bind ranSource with ⟨passed, front, ranBefore, _⟩
  exact ⟨passed, front, (Action.run_getStore_bind _ now).trans ranBefore⟩

theorem exists_split_at {now : World σ} (listed : name ∈ now.store.enumerableNames table) :
    ∃ before after, now.store.enumerableNames table = before ++ name :: after ∧
      (name ∉ before ∧ name ∉ after) ∧
      ∀ (meaning : Meaning σ) (plan : Plan), (mixUpTo meaning plan table name).run now =
        (before.foldlM (fun held other => mixMember meaning plan table other held) []).run now := by
  have splits : ∀ names : List String, names.Nodup → name ∈ names →
      ∃ after, names = names.takeWhile (· ≠ name) ++ name :: after ∧
        name ∉ names.takeWhile (· ≠ name) ∧ name ∉ after := by
    intro names unique member
    induction names with
    | nil => cases member
    | cons other names induction =>
        rw [List.nodup_cons] at unique
        by_cases same : other = name
        · subst same
          rw [List.takeWhile_cons, decide_eq_false (not_not_intro rfl), if_neg Bool.false_ne_true]
          exact ⟨names, rfl, List.not_mem_nil, unique.1⟩
        · rcases induction unique.2 (List.mem_of_ne_of_mem (Ne.symm same) member) with
            ⟨after, split, absent⟩
          rw [List.takeWhile_cons, decide_eq_true same, if_pos rfl]
          exact ⟨after, congrArg (other :: ·) split,
            List.not_mem_cons_of_ne_of_not_mem (Ne.symm same) absent.1, absent.2⟩
  rcases splits _ (now.store.nodup_enumerableNames table) listed with ⟨after, split, absent⟩
  exact ⟨_, after, split, absent, fun meaning plan => Action.run_getStore_bind _ now⟩

section Mixin

variable {patch : Patch} {former : Descriptor} {target : ObjectId} {definer : Definer}
  (awaits : now.store.AwaitsAdvice kept table target name patch former)
  (drafts : ∀ passed front, (mixUpTo (.sheltering kept (budget + 2))
      ⟨target, definer, [.object table]⟩ table name).run now = (.ok passed, front) →
    ∀ draft ∈ front.store.upcoming 2, kept draft)

include awaits drafts

/-- Merging a table that gives advice on an accessor, which the destination inherits, leaves it with
one of its own. -/
theorem mixin_patching {left : List Conflict}
    (ran : (mixin (.sheltering kept (budget + 2)) target [.object table] definer).run now =
      (.ok left, later)) :
    ∃ advised, now.store.Keeps (fun object => kept object ∧ object ≠ target) later.store ∧
      later.store.ownDescriptor? target name = some advised ∧
      now.store.Advised later.store former patch advised := by
  rcases awaits.patches.binds with ⟨_, binds, _⟩
  rcases exists_split_at binds.listed with ⟨before, after, split, absent, upTo⟩
  rcases succeeded_of_bind ran with ⟨_, _, ranSource, finished⟩
  cases finished
  rw [mixSource, Action.run_getStore_bind, split] at ranSource
  exact mixMembers_patching ⟨target, definer, [.object table]⟩ awaits absent
    (fun passed front ranBefore => drafts passed front ((upTo _ _).trans ranBefore)) ranSource

/-- If the table shows no other decorators, and the destination is new, the merge succeeds. -/
theorem exists_run_mixin_patching (raw : definer = .raw)
    (only : now.store.DecoratesOnly table name)
    (fresh : ∀ other, now.store.ownDescriptor? target other = none) :
    ∃ later, (mixin (.sheltering kept (budget + 2)) target [.object table] definer).run now =
      (.ok [], later) := by
  let plan : Plan := ⟨target, definer, [.object table]⟩
  have sheltered : now.store.Sheltered kept table plan.target := awaits.sheltered
  rcases awaits.patches.binds with ⟨_, binds, _⟩
  rcases exists_split_at binds.listed with ⟨before, after, split, absent, upTo⟩
  have unique := now.store.nodup_enumerableNames table
  rw [split, List.append_cons, List.nodup_append] at unique
  rcases unique with ⟨uniqueBefore, uniqueAfter, disjoint⟩
  have listed {other : String} (member : other ∈ before ++ name :: after) :
      other ∈ now.store.enumerableNames table := split ▸ member
  have unhooked {other : String} (listed : other ∈ now.store.enumerableNames table)
      (outside : name ≠ other) : now.store.HoldsUnhooked table other :=
    only other listed outside.symm
  rcases exists_run_mixUnhooked (budget + 2) raw before sheltered
    (List.nodup_append.mp uniqueBefore).1 (fun other member =>
      have listed := listed (List.mem_append_left _ member)
      ⟨listed, unhooked listed fun same => absent.1 (same ▸ member), fresh other⟩) with
    ⟨front, ranBefore⟩
  have first := keepsMember_of_mixOthers sheltered.inside absent.1 ranBefore
  rcases exists_run_mixMember_patching plan (awaits.later first)
    (drafts [] front ((upTo _ _).trans ranBefore)) [] with ⟨_, back, ranName, _⟩
  have keeps := first.keeps.trans (keeps_of_mixMember ranName)
  have ranFront : ((before ++ [name]).foldlM (fun held other =>
      mixMember (.sheltering kept (budget + 2)) plan table other held) []).run now =
        (.ok [], back) := by
    rw [List.foldlM_append, Action.run_bind_of_ok _ ranBefore, List.foldlM_cons,
      Action.run_bind_of_ok _ ranName]
    rfl
  -- what comes after the name is not owned by then
  rcases exists_run_mixUnhooked (budget + 2) raw after
    (sheltered.later keeps) uniqueAfter (fun other member => by
      have listed := listed (List.mem_append_right _ (List.mem_cons_of_mem _ member))
      have passed := keepsMember_of_mixOthers sheltered.inside
        (fun early => disjoint other early other member rfl) ranFront
      have bare := unhooked listed fun same => absent.2 (same ▸ member)
      rw [sheltered.enumerableNames_eq keeps]
      exact ⟨listed, sheltered.holdsUnhooked keeps bare,
        (passed.own sheltered.known).trans (fresh other)⟩) with ⟨later, ranAfter⟩
  refine ⟨later, Action.run_bind_of_ok _ ?_⟩
  rw [mixSource, Action.run_getStore_bind, split, List.append_cons, List.foldlM_append,
    Action.run_bind_of_ok _ ranFront]
  exact ranAfter

end Mixin

end Merge

end TraitComposition
