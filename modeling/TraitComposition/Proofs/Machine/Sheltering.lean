import TraitComposition.Proofs.Machine.Evolution
import TraitComposition.Proofs.Machine.Exhaustion
import TraitComposition.Proofs.Store.Regions

/-!
Machines that shelter objects. Whatever a call or an entry of user code does to the members
of the objects of a kind is undone when it is over; decorators are still installed the way
the machine installs them. Where user code leaves these objects alone anyway, such a machine
does what the one below it does, so what it cannot change, composition does not change.
-/
namespace TraitComposition

variable {σ α : Type}

/-! ### Objects that keep their members -/

namespace Store

structure Keeps (kept : ObjectId → Prop) (before after : Store) : Prop where
  extends_ : before.Extends after
  members : ∀ object, before.hasObject object = true → kept object →
    after.members object = before.members object
  rooted : before.Rooted → after.Rooted

namespace Keeps

variable {kept fewer : ObjectId → Prop} {first second third : Store}

theorem refl (kept : ObjectId → Prop) (store : Store) : Keeps kept store store where
  extends_ := .refl store
  members _ _ _ := rfl
  rooted rooted := rooted

theorem trans (start : Keeps kept first second) (rest : Keeps kept second third) :
    Keeps kept first third where
  extends_ := start.extends_.trans rest.extends_
  members object known sheltered := by
    rw [rest.members object (start.extends_.object object known).1 sheltered,
      start.members object known sheltered]
  rooted rooted := rest.rooted (start.rooted rooted)

theorem mono (keeps : Keeps kept first second)
    (inside : ∀ object, first.hasObject object = true → fewer object → kept object) :
    Keeps fewer first second :=
  { keeps with
    members := fun object known sheltered =>
      keeps.members object known (inside object known sheltered) }

theorem of_changesOnly {target : ObjectId} (changes : ChangesOnly target first second)
    (apart : ¬kept target) : Keeps kept first second where
  extends_ := changes.extends_
  members object known sheltered :=
    changes.members object known fun equal => apart (equal ▸ sheltered)
  rooted := changes.rooted

theorem of_all (changes : ∀ target, ChangesOnly target first second) :
    Keeps kept first second where
  extends_ := (changes first.nextObject).extends_
  members _ known _ := members_eq_of_changesOnly changes known
  rooted := (changes first.nextObject).rooted

private theorem of_prototypeOf (store : Store) (procedure : ProcedureId) :
    Keeps kept store (store.prototypeOf procedure).2 :=
  of_all fun target => .of_prototypeOf store procedure target

theorem of_createObject (store : Store) (parent : Option ObjectId) :
    Keeps kept store (store.createObject parent).2 :=
  of_all fun target => .of_createObject store parent target

theorem of_addProcedure (store : Store) (procedure : Procedure) :
    Keeps kept store (store.addProcedure procedure).2 :=
  of_all fun target => .of_addProcedure store procedure target

private theorem of_insertAll {object : ObjectId} (apart : ¬kept object) :
    ∀ (entries : List (String × Value)) (store : Store),
      Keeps kept store (store.insertAll object entries)
  | [], store => .refl kept store
  | entry :: entries, store =>
      (of_changesOnly (.of_storeMember store object entry.1 (.ofValue entry.2)) apart).trans
        (of_insertAll apart entries _)

theorem of_encode (store : Store) (fields : List (String × Value)) :
    Keeps kept store (Store.encode fields store).2 := by
  have filled : (store.createObject none).2.Keeps (· ≠ store.nextObject) _ :=
    of_insertAll (fun different => different rfl) fields _
  exact ((of_createObject store none).trans filled).mono fun _ known _ =>
    (nextObject_ne known).symm

end Keeps

def withMembersFrom (store before : Store) (kept : ObjectId → Prop) [DecidablePred kept] :
    Store :=
  { store with
    objects := store.objects.mapIdx fun index object =>
      if before.hasObject ⟨index⟩ = true ∧ kept ⟨index⟩ then
        { object with members := before.members ⟨index⟩ }
      else object }

section Restored

variable (store before : Store) (kept : ObjectId → Prop) [DecidablePred kept]

private theorem object_withMembersFrom (reference : ObjectId) :
    (store.withMembersFrom before kept).object reference =
      if store.hasObject reference = true ∧ before.hasObject reference = true ∧
          kept reference then
        { store.object reference with members := before.members reference }
      else store.object reference := by
  simp only [withMembersFrom, object, Array.getD_eq_getD_getElem?, Array.getElem?_mapIdx]
  cases inside : store.objects[reference.index]? with
  | none =>
      have absent : store.hasObject reference = false := by
        simpa [hasObject] using inside
      simp [absent]
  | some found =>
      have known : store.hasObject reference = true := by
        rw [hasObject_iff]
        exact (Array.getElem?_eq_some_iff.mp inside).1
      simp [known]

private theorem hasObject_withMembersFrom (reference : ObjectId) :
    (store.withMembersFrom before kept).hasObject reference = store.hasObject reference := by
  simp [withMembersFrom, hasObject]

private theorem parent_withMembersFrom (reference : ObjectId) :
    (store.withMembersFrom before kept).parent reference = store.parent reference := by
  rw [parent, object_withMembersFrom]
  split <;> rfl

variable {store before}

theorem keeps_withMembersFrom (evolution : before.Evolves store) :
    Keeps kept before (store.withMembersFrom before kept) where
  extends_ := evolution.extends.trans
    { Extends.refl store with
      object := fun reference known =>
        ⟨(hasObject_withMembersFrom store before kept reference).trans known,
          parent_withMembersFrom store before kept reference⟩ }
  members object known sheltered := by
    have knownThen := (evolution.extends.object object known).1
    rw [members, object_withMembersFrom, if_pos ⟨knownThen, known, sheltered⟩]
  rooted rooted :=
    (rooted.evolves evolution).of_parent_eq (parent_withMembersFrom store before kept)

theorem withMembersFrom_of_keeps (keeps : Keeps kept before store) :
    store.withMembersFrom before kept = store := by
  have same : (store.objects.mapIdx fun index object =>
      if before.hasObject ⟨index⟩ = true ∧ kept ⟨index⟩ then
        { object with members := before.members ⟨index⟩ }
      else object) = store.objects := by
    apply Array.ext_getElem?
    intro index
    rw [Array.getElem?_mapIdx]
    cases found : store.objects[index]? with
    | none => rfl
    | some object =>
        have members : store.members ⟨index⟩ = object.members := by
          rw [Store.members, Store.object, Array.getD_eq_getD_getElem?, found, Option.getD_some]
        rw [Option.map_some]
        split
        · next sheltered => rw [← keeps.members ⟨index⟩ sheltered.1 sheltered.2, members]
        · rfl
  rw [withMembersFrom, same]

end Restored

end Store

open TraitComposition.Action (Follows UpheldBy)

def Passage.keeping (σ : Type) (kept : ObjectId → Prop) : Passage σ where
  leads before after := before.store.Keeps kept after.store
  refl world := .refl kept world.store
  trans start rest := start.trans rest

/-! ### Sheltering machines -/

section Machine

variable (kept : ObjectId → Prop) [DecidablePred kept]

def Action.puttingBack (action : Action σ α) : Action σ α := do
  let before ← getStore
  let result ← outcome action
  change (·.withMembersFrom before kept)
  ofExcept result

def Meaning.sheltering : (budget : Nat) → Meaning σ
  | 0 => exhausted
  | budget + 1 =>
      { call := fun procedure receiver arguments =>
          ((ofBudget (budget + 1)).call procedure receiver arguments).puttingBack kept
        install := fun hook object name =>
          Decorator.install (sheltering budget) hook object name
        enter := fun code entry => ((ofBudget (budget + 1)).enter code entry).puttingBack kept }

/-- Whether no procedure that an operation runs changes an object of the kind: the operation
comes out the same if whatever they do to these objects is undone. -/
def Harmless (operation : Meaning σ → Action σ α) (budget : Nat) (world : World σ) : Prop :=
  (operation (.sheltering kept budget)).run world = (operation (.ofBudget budget)).run world

variable {kept}

theorem harmless_of_upheld {operation : Meaning σ → Action σ α} {world later : World σ}
    {answer : α} (upheld : ∀ meaning, UpheldBy (operation .exhausted) (operation meaning))
    (ran : (operation .exhausted).run world = (.ok answer, later)) (budget : Nat) :
    Harmless kept operation budget world :=
  (upheld _ world answer later ran).trans (upheld _ world answer later ran).symm

private theorem Action.follows_puttingBack {action : Action σ α} (evolving : action.Evolving) :
    Follows (Passage.keeping σ kept) (action.puttingBack kept) := by
  intro world
  rw [puttingBack, run_getStore_bind, run_bind_of_ok _ (run_outcome action world),
    run_change_bind, run_ofExcept]
  exact Store.keeps_withMembersFrom kept (evolving world).1

theorem Action.run_puttingBack_of_keeps {action : Action σ α} {world : World σ}
    (keeps : world.store.Keeps kept (action.run world).2.store) :
    (action.puttingBack kept).run world = action.run world := by
  rw [puttingBack, run_getStore_bind, run_bind_of_ok _ (run_outcome action world),
    run_change_bind, run_ofExcept, Store.withMembersFrom_of_keeps kept keeps]

end Machine

/-! ### What such machines do -/

section Keeping

variable {kept fewer : ObjectId → Prop} {meaning : Meaning σ}

private theorem Action.Follows.keeping_mono {action : Action σ α}
    (follows : Follows (Passage.keeping σ kept) action)
    (inside : ∀ object, fewer object → kept object) :
    Follows (Passage.keeping σ fewer) action :=
  fun world => (follows world).mono fun object _ => inside object

theorem Action.keeping_edit {change : Store → α × Store}
    (keeps : ∀ store : Store, store.Keeps kept (change store).2) :
    Follows (Passage.keeping σ kept) (edit change : Action σ α) :=
  fun world => keeps world.store

theorem Passage.keeping_storeMember {object : ObjectId} (apart : ¬kept object) (name : String)
    (descriptor : Descriptor) (world : World σ) :
    (Passage.keeping σ kept).leads world
      { world with store := world.store.storeMember object name descriptor } :=
  .of_changesOnly (.of_storeMember world.store object name descriptor) apart

theorem Descriptor.keeping_encode (descriptor : Descriptor) :
    Follows (Passage.keeping σ kept) (descriptor.encode : Action σ ObjectId) :=
  Action.keeping_edit fun store => .of_encode store descriptor.fields

theorem Merge.asks_keeping : Merge.Asks (Passage.keeping σ kept) :=
  fun procedure => Action.keeping_edit fun store => .of_prototypeOf store procedure

theorem Merge.respects_keeping {plan : Plan} (apart : ¬kept plan.target)
    (calls : ∀ procedure receiver arguments,
      Follows (Passage.keeping σ kept) (meaning.call procedure receiver arguments))
    (installs : ∀ hook name,
      Follows (Passage.keeping σ kept) (meaning.install hook plan.target name)) (name : String) :
    Respects (Passage.keeping σ kept) meaning plan name where
  asks := asks_keeping
  assign := Member.follows_assign (Passage.keeping_storeMember apart name) calls
  define := Definer.follows_define (Passage.keeping_storeMember apart name) calls
    Descriptor.keeping_encode plan.definer
  install hook := installs hook name

theorem keeping_mixin {target : ObjectId} (apart : ¬kept target)
    (calls : ∀ procedure receiver arguments,
      Follows (Passage.keeping σ kept) (meaning.call procedure receiver arguments))
    (installs : ∀ hook name,
      Follows (Passage.keeping σ kept) (meaning.install hook target name))
    (sources : List Value) (definer : Definer) :
    Follows (Passage.keeping σ kept) (mixin meaning target sources definer) :=
  Merge.follows_mixSources (Merge.respects_keeping apart calls installs) 0 sources []

end Keeping

structure Meaning.Shelters (kept : ObjectId → Prop) (meaning : Meaning σ) : Prop where
  call : ∀ procedure receiver arguments,
    Follows (Passage.keeping σ kept) (meaning.call procedure receiver arguments)
  enter : ∀ code entry, Follows (Passage.keeping σ kept) (meaning.enter code entry)
  install : ∀ hook object name,
    Follows (Passage.keeping σ fun other => kept other ∧ other ≠ object)
      (meaning.install hook object name)

theorem Meaning.Shelters.install_of_apart {kept : ObjectId → Prop} {meaning : Meaning σ}
    (shelters : meaning.Shelters kept) {object : ObjectId} (apart : ¬kept object) (hook : Hook)
    (name : String) :
    Follows (Passage.keeping σ kept) (meaning.install hook object name) :=
  (shelters.install hook object name).keeping_mono fun _ sheltered =>
    ⟨sheltered, fun equal => apart (equal ▸ sheltered)⟩

namespace Decorator

variable {kept : ObjectId → Prop} {meaning : Meaning σ} (shelters : meaning.Shelters kept)
  (object : ObjectId) (name : String)

include shelters in
private theorem keeping_call (procedure : ProcedureId) (receiver : Value) (arguments : List Value) :
    Follows (Passage.keeping σ fun other => kept other ∧ other ≠ object)
      (meaning.call procedure receiver arguments) :=
  (shelters.call procedure receiver arguments).keeping_mono fun _ => And.left

include shelters in
theorem keeping_patched (inherited : Descriptor) (patch : Patch) :
    Follows (Passage.keeping σ kept) (patched meaning name inherited patch) := by
  intro world
  have rest : Follows
      (Passage.keeping σ fun other => kept other ∧ other ≠ world.store.nextObject) (do
        let fields ← patch.encode
        let _ ← mixin meaning world.store.nextObject [.object fields] .raw
        Descriptor.decode meaning name world.store.nextObject) := by
    apply Follows.bind (Action.keeping_edit fun store => .of_encode store patch.fields)
    intro fields
    apply Follows.bind (keeping_mixin (fun both => both.2 rfl) (keeping_call shelters _)
      (fun hook name => shelters.install hook _ name) _ .raw)
    intro conflicts
    exact Descriptor.follows_decode (keeping_call shelters _) name _
  have encoded : world.store.Keeps (fun other => kept other ∧ other ≠ world.store.nextObject)
      (Store.encode inherited.fields world.store).2 := .of_encode world.store inherited.fields
  rw [patched, Descriptor.encode, Action.run_edit_bind]
  exact (encoded.trans (rest { world with store := _ })).mono fun other known sheltered =>
    ⟨sheltered, (Store.nextObject_ne known).symm⟩

include shelters in
theorem keeping_complete (patch : Patch) :
    Follows (Passage.keeping σ kept) (patch.complete meaning name) :=
  Follows.bind (Action.keeping_edit fun store => .of_encode store patch.fields) fun fields =>
    Descriptor.follows_decode shelters.call name fields

theorem keeping_aliasedDescriptor (source : AliasSource) (member : Option String)
    (captured : Option Descriptor) :
    Follows (Passage.keeping σ kept) (aliasedDescriptor source member captured object name) := by
  unfold aliasedDescriptor
  split
  · exact Follows.bind Follows.getStore fun _ => Follows.pure _
  · split
    · exact Follows.pure _
    · next trait _ =>
      apply Follows.bind (Action.keeping_edit fun store => ?_) fun _ => Follows.pure _
      cases trait with
      | procedure procedure => exact .of_prototypeOf store procedure
      | _ => exact .refl kept store

section Installs

variable {passage : Passage σ}
  (keeping : ∀ before after, (Passage.keeping σ kept).leads before after →
    passage.leads before after)
  (writes : ∀ (descriptor : Descriptor) (world : World σ),
    passage.leads world { world with store := world.store.storeMember object name descriptor })

include keeping writes

private theorem follows_installAlias (source : AliasSource) (member : Option String)
    (captured : Option Descriptor) :
    Follows passage (installAlias source member captured object name) := by
  apply Follows.bind
    ((keeping_aliasedDescriptor object name source member captured).wider keeping)
  intro found
  split
  · exact Member.follows_define writes _
  · exact Follows.throw _

include shelters

private theorem follows_installWeave (weave : Weave) :
    Follows passage (installWeave meaning weave object name) := by
  apply Follows.bind Follows.getStore
  intro store
  have built := Weave.follows_build shelters.enter
    (fun procedure _ => Action.keeping_edit fun store => .of_addProcedure store procedure)
    (store.stackWeaves (store.weaveOf (store.dataValue? object name)) weave)
  apply Follows.bind (built.wider keeping)
  intro advised
  split
  · exact Member.follows_assign writes
      (fun procedure receiver arguments => (shelters.call procedure receiver arguments).wider
        keeping) _
  · exact Follows.pure _

private theorem follows_installPatch (patch : Patch) :
    Follows passage (installPatch meaning patch object name) := by
  apply Follows.bind Follows.getStore
  intro store
  dsimp only
  split
  · exact Follows.bind ((keeping_patched shelters name _ patch).wider keeping)
      (Member.follows_define writes)
  · exact Follows.bind ((keeping_complete shelters name patch).wider keeping)
      (Member.follows_define writes)

theorem follows_install (hook : Hook) : Follows passage (install meaning hook object name) := by
  cases hook with
  | weave weave => exact follows_installWeave shelters object name keeping writes weave
  | patch patch => exact follows_installPatch shelters object name keeping writes patch
  | aliased source member captured =>
      exact follows_installAlias object name keeping writes source member captured
  | code code =>
      exact Follows.bind ((shelters.enter _ _).wider keeping) fun _ => Follows.pure _

end Installs

include shelters in
theorem keeping_install (hook : Hook) :
    Follows (Passage.keeping σ fun other => kept other ∧ other ≠ object)
      (install meaning hook object name) :=
  follows_install shelters object name (fun _ _ keeps => keeps.mono fun _ _ => And.left)
    (Passage.keeping_storeMember (fun both => both.2 rfl) name) hook

end Decorator

theorem Meaning.shelters_sheltering (kept : ObjectId → Prop) [DecidablePred kept] :
    ∀ budget : Nat, (Meaning.sheltering kept budget : Meaning σ).Shelters kept
  | 0 =>
      { call := fun _ _ _ => Follows.throw _
        enter := fun _ _ => Follows.throw _
        install := fun _ _ _ => Follows.throw _ }
  | budget + 1 =>
      { call := fun _ _ _ => Action.follows_puttingBack ((evolving_ofBudget _).call _ _ _)
        enter := fun _ _ => Action.follows_puttingBack ((evolving_ofBudget _).enter _ _)
        install := fun hook object name =>
          Decorator.keeping_install (shelters_sheltering kept budget) object name hook }

/-- Merging a member on such a machine writes that member of the destination, and the rest of it
sheltered objects do not notice. -/
theorem Merge.respects_sheltering (kept : ObjectId → Prop) [DecidablePred kept]
    {passage : Passage σ} {plan : Plan} {name : String}
    (keeping : ∀ before after, (Passage.keeping σ kept).leads before after →
      passage.leads before after)
    (writes : ∀ (descriptor : Descriptor) (world : World σ), passage.leads world
      { world with store := world.store.storeMember plan.target name descriptor }) :
    ∀ budget : Nat, Respects passage (.sheltering kept budget) plan name := by
  intro budget
  have shelters := Meaning.shelters_sheltering (σ := σ) kept
  have calls (procedure : ProcedureId) (receiver : Value) (arguments : List Value) :
      Follows passage ((Meaning.sheltering kept budget).call procedure receiver arguments) :=
    ((shelters budget).call procedure receiver arguments).wider keeping
  refine
    { asks := fun procedure => Follows.wider (asks_keeping procedure) keeping
      assign := Member.follows_assign writes calls
      define := Definer.follows_define writes calls
        (fun descriptor => (Descriptor.keeping_encode descriptor).wider keeping) plan.definer
      install := fun hook => ?_ }
  cases budget with
  | zero => exact Follows.throw _
  | succ budget =>
      exact Decorator.follows_install (shelters budget) plan.target name keeping writes hook

end TraitComposition
