import TraitComposition.Proofs.Merge.OneType
import TraitComposition.Proofs.Merge.SourceTables
import TraitComposition.Proofs.Merge.Turns

/-!
Independent sources. Two sources are independent if neither has a table that resolves a name
which the other one enumerates. What such sources offer is decided on one by one: what becomes
of an offer depends on the tables of its source and on what the new destination delegates to,
and not on the sources that are merged before or after.
-/
namespace TraitComposition

namespace Store

/-- Whether neither of two sources enumerates a name that a table of the other one resolves. -/
structure Independent (store : Store) (one other : Value) : Prop where
  names : ∀ name ∈ store.sourceNames one, ∀ table ∈ store.sourceTables other,
    store.has table name = false
  namesToo : ∀ name ∈ store.sourceNames other, ∀ table ∈ store.sourceTables one,
    store.has table name = false

theorem Independent.symm {store : Store} {one other : Value}
    (independent : store.Independent one other) : store.Independent other one :=
  ⟨independent.namesToo, independent.names⟩

private theorem independent_iff {store : Store} {one other : Value} :
    store.Independent one other ↔
      (∀ name ∈ store.sourceNames one, ∀ table ∈ store.sourceTables other,
        store.has table name = false) ∧
      ∀ name ∈ store.sourceNames other, ∀ table ∈ store.sourceTables one,
        store.has table name = false :=
  ⟨fun independent => ⟨independent.names, independent.namesToo⟩, fun both => ⟨both.1, both.2⟩⟩

instance (store : Store) : DecidableRel store.Independent :=
  fun _ _ => decidable_of_iff' _ independent_iff

def Undecorated (store : Store) (source : Value) : Prop :=
  ∀ name method, store.shows name method source = true → store.isDecorator method = false

theorem undecorated_of_all {store : Store} (plain : ∀ procedure ∈ store.procedures,
    procedure.hook = none) (source : Value) : store.Undecorated source := by
  intro name method _
  rw [isDecorator, Option.isSome_eq_false_iff, Option.isNone_iff_eq_none, procedure,
    Array.getD_eq_getD_getElem?]
  cases found : store.procedures[method.index]? with
  | none => rfl
  | some procedure => exact plain procedure (Array.mem_of_getElem? found)

/-! ### Tables of sources that are there -/

section Present

variable {store : Store} {source : Value} (present : store.Present source) {table : ObjectId}
  (front : store.front? source = some table)

include present front

theorem Present.fronts_of_front? (known : store.hasObject table = true) :
    store.Fronts source table := by
  cases present with
  | type houses =>
      have asked := prototypeOf_of_table? front
      rw [prototypeOf_of_composite? houses.found] at asked
      cases asked
      exact .type houses
  | @plain reference plain =>
      have asked := prototypeOf_of_table? front
      cases made : (store.procedure reference).table with
      | some other =>
          rw [prototypeOf_of_table plain made] at asked
          cases asked
          exact .plain plain made
      | none =>
          rw [prototypeOf_of_tableless plain made] at asked
          have new : store.nextObject = table := congrArg Prod.fst asked
          exact absurd new (nextObject_ne known)
  | table there =>
      cases front
      exact .table there

theorem Present.front_mem_sourceTables : table ∈ store.sourceTables source := by
  cases present with
  | type houses =>
      have asked := prototypeOf_of_table? front
      rw [prototypeOf_of_composite? houses.found] at asked
      cases asked
      rw [sourceTables_of_bases? (bases?_of_composite? houses.found)]
      exact houses.own
  | plain plain =>
      rw [sourceTables_of_bases?_eq_none (bases?_of_isPlain plain)]
      exact Option.mem_toList.mpr front
  | table there =>
      cases front
      exact List.mem_singleton_self _

end Present

theorem Undecorated.hook_eq_none {store : Store} {source : Value} {table owner : ObjectId}
    {name : String} {descriptor : Descriptor} {method : ProcedureId}
    (undecorated : store.Undecorated source) (fronts : store.Fronts source table)
    (listed : name ∈ store.enumerableNames table)
    (found : store.lookup table name = some (owner, descriptor))
    (holds : descriptor.method? = some method) : (store.procedure method).hook = none := by
  have shown : store.shows name method source = true := by
    rw [shows_iff fronts, shown?_eq_procedure_iff, descriptor?, found]
    exact ⟨listed, holds⟩
  have plain := undecorated name method shown
  rw [isDecorator, Option.isSome_eq_false_iff, Option.isNone_iff_eq_none] at plain
  exact plain

/-! ### Offers -/

structure Offer where
  source : Value
  name : String

def offers (store : Store) (sources : List Value) : List Offer :=
  sources.flatMap fun source => (store.sourceNames source).map (Offer.mk source)

theorem sourceNames_of_front? {store : Store} {source : Value} {table : ObjectId}
    (front : store.front? source = some table) :
    store.sourceNames source = store.enumerableNames table := by
  rw [sourceNames, front]
  rfl

theorem sourceNames_of_front?_eq_none {store : Store} {source : Value}
    (missing : store.front? source = none) : store.sourceNames source = [] := by
  rw [sourceNames, missing]
  rfl

private theorem nodup_sourceNames (store : Store) (source : Value) :
    (store.sourceNames source).Nodup := by
  cases front : store.front? source with
  | none =>
      rw [sourceNames_of_front?_eq_none front]
      exact List.nodup_nil
  | some table =>
      rw [sourceNames_of_front? front]
      exact nodup_enumerableNames store table

private theorem has_of_mem_sourceNames {store : Store} {source : Value}
    (present : store.Present source) {name : String} (listed : name ∈ store.sourceNames source) :
    ∃ table ∈ store.sourceTables source, store.has table name = true := by
  cases front : store.front? source with
  | none =>
      rw [sourceNames_of_front?_eq_none front] at listed
      cases listed
  | some table =>
      rw [sourceNames_of_front? front] at listed
      exact ⟨table, present.front_mem_sourceTables front, has_of_mem_enumerableNames listed⟩

private theorem map_name_offers (store : Store) (sources : List Value) :
    (store.offers sources).map Offer.name = sources.flatMap store.sourceNames := by
  rw [offers, List.map_flatMap]
  simp only [List.map_map]
  congr 1
  funext source
  exact List.map_id' _

private theorem offers_concat (store : Store) (sources : List Value) (source : Value) :
    store.offers (sources ++ [source]) =
      store.offers sources ++ (store.sourceNames source).map (Offer.mk source) := by
  rw [offers, List.flatMap_append, List.flatMap_singleton, ← offers]

theorem not_mem_names_offers {store : Store} {sources : List Value} {source : Value}
    (present : store.Present source)
    (independent : ∀ other ∈ sources, store.Independent other source) {name : String}
    (listed : name ∈ store.sourceNames source) :
    name ∉ (store.offers sources).map Offer.name := by
  intro offered
  rw [map_name_offers] at offered
  rcases List.mem_flatMap.mp offered with ⟨other, member, listedToo⟩
  rcases has_of_mem_sourceNames present listed with ⟨table, among, resolved⟩
  rw [(independent other member).names name listedToo table among] at resolved
  cases resolved

end Store

namespace Merge

open Store (Offer)

/-! ### Verdicts -/

structure Verdict where
  stored : Option Descriptor := none
  conflict : Option Conflict := none

namespace Verdict

def ofResolution (kept : Option Descriptor) (name : String) (descriptor : Descriptor)
    (incoming : ProcedureId) : Resolution → Verdict
  | .incoming => { stored := some descriptor }
  | .keepDestination => { stored := kept }
  | .conflict existing => { stored := some descriptor, conflict := some ⟨name, existing, incoming⟩ }

def ofOffer (origin begun : Store) (target : ObjectId) (offer : Offer) : Verdict :=
  match (origin.front? offer.source).bind fun table =>
      (origin.lookup table offer.name).map (table, ·) with
  | none => {}
  | some (table, owner, descriptor) =>
      match descriptor.method? with
      | none => { stored := some descriptor }
      | some incoming =>
          match offer.source with
          | .procedure _ =>
              let tables := origin.sourceTables offer.source
              ofResolution (begun.descriptor? target offer.name) offer.name descriptor incoming
                (weighed begun target [] tables tables offer.name (owner == table) incoming
                  (begun.dataValue? target offer.name))
          | _ =>
              if origin.isRequired incoming && begun.has target offer.name then {}
              else { stored := some descriptor }

section Offer

variable {origin begun : Store} {target table owner : ObjectId} {name : String}
  {descriptor : Descriptor} {incoming : ProcedureId}
  (found : origin.lookup table name = some (owner, descriptor))

include found

theorem ofOffer_of_value {source : Value} (front : origin.front? source = some table)
    (value : descriptor.method? = none) :
    ofOffer origin begun target ⟨source, name⟩ = { stored := some descriptor } := by
  simp only [ofOffer, front, found, Option.bind_some, Option.map_some, value]

theorem ofOffer_of_method {reference : ProcedureId}
    (front : origin.front? (.procedure reference) = some table)
    (method : descriptor.method? = some incoming) :
    ofOffer origin begun target ⟨.procedure reference, name⟩ =
      ofResolution (begun.descriptor? target name) name descriptor incoming
        (weighed begun target [] (origin.sourceTables (.procedure reference))
          (origin.sourceTables (.procedure reference)) name (owner == table) incoming
          (begun.dataValue? target name)) := by
  simp only [ofOffer, front, found, Option.bind_some, Option.map_some, method]

private theorem ofOffer_of_bare (method : descriptor.method? = some incoming) :
    ofOffer origin begun target ⟨.object table, name⟩ =
      if origin.isRequired incoming && begun.has target name then {}
      else { stored := some descriptor } := by
  simp only [ofOffer, Store.front?, found, Option.bind_some, Option.map_some, method]

end Offer

private theorem member_of_ofResolution {kept : Option Descriptor} {name : String}
    {descriptor : Descriptor}
    {incoming : ProcedureId} {resolution : Resolution} {conflict : Conflict}
    (held : (ofResolution kept name descriptor incoming resolution).conflict = some conflict) :
    conflict.member = name := by
  cases resolution with
  | conflict existing =>
      cases held
      rfl
  | _ => cases held

theorem member_of_ofOffer {origin begun : Store} {target : ObjectId} {offer : Offer}
    {conflict : Conflict} (held : (ofOffer origin begun target offer).conflict = some conflict) :
    conflict.member = offer.name := by
  unfold ofOffer at held
  split at held
  · cases held
  · split at held
    · cases held
    · split at held
      · exact member_of_ofResolution held
      · split at held
        · cases held
        · cases held

end Verdict

end Merge

namespace Store

def storeMember? (store : Store) (object : ObjectId) (name : String) :
    Option Descriptor → Store
  | some descriptor => store.storeMember object name descriptor
  | none => store

section StoreMember?

variable (store : Store) {target : ObjectId} {name : String} (stored : Option Descriptor)

private theorem ownDescriptor?_storeMember?_same (known : store.hasObject target = true)
    (missing : store.ownDescriptor? target name = none) :
    (store.storeMember? target name stored).ownDescriptor? target name = stored := by
  cases stored with
  | none => exact missing
  | some descriptor => exact ownDescriptor?_storeMember_same _ _ _ _ known

private theorem Confined.of_storeMember? :
    Confined target [name] store (store.storeMember? target name stored) := by
  cases stored with
  | none => exact { Confined.refl target store with others := fun _ _ => rfl }
  | some descriptor => exact .of_storeMember store target name descriptor

private theorem Amid.storeMember? {start : Store} (amid : Amid start target store) :
    Amid start target (store.storeMember? target name stored) := by
  cases stored with
  | none => exact amid
  | some descriptor => exact amid.storeMember name descriptor

end StoreMember?

/-! ### Merges that are under way -/

structure Awaits (origin : Store) (target : ObjectId) (begun : Store) : Prop where
  amid : Amid origin target begun
  rooted : origin.Rooted
  new : origin.hasObject target = false
  empty : ∀ name, begun.ownDescriptor? target name = none

structure Partway (origin : Store) (target : ObjectId) (begun : Store) (done : List Offer)
    (held : List Conflict) (now : Store) : Prop where
  amid : Amid origin target now
  confined : Confined target (done.map Offer.name) begun now
  stored : ∀ offer ∈ done, now.ownDescriptor? target offer.name =
    (Merge.Verdict.ofOffer origin begun target offer).stored
  conflicts : held =
    done.filterMap fun offer => (Merge.Verdict.ofOffer origin begun target offer).conflict

namespace Partway

open Merge (Verdict)

variable {origin begun now after : Store} {target : ObjectId} {done : List Offer}
  {held : List Conflict}

private theorem start (awaits : Awaits origin target begun) :
    Partway origin target begun [] [] begun where
  amid := awaits.amid
  confined := .refl target begun
  stored _ member := absurd member List.not_mem_nil
  conflicts := rfl

variable (partway : Partway origin target begun done held now)

include partway

private theorem asked (adds : now.OnlyAdds after) (amid : Amid origin target after) :
    Partway origin target begun done held after where
  amid := amid
  confined := by
    have asked := partway.confined.trans (adds.confined partway.amid.known [])
    rwa [List.append_nil] at asked
  stored offer member := by
    rw [ownDescriptor?, adds.members_eq partway.amid.known]
    exact partway.stored offer member
  conflicts := partway.conflicts

private theorem missing (awaits : Awaits origin target begun) {name : String}
    (absent : name ∉ done.map Offer.name) : now.ownDescriptor? target name = none :=
  (partway.confined.others name absent).trans (awaits.empty name)

private theorem member_ne {name : String} (absent : name ∉ done.map Offer.name) :
    ∀ conflict ∈ held, conflict.member ≠ name := by
  rintro conflict member rfl
  rw [partway.conflicts] at member
  rcases List.mem_filterMap.mp member with ⟨offer, among, decided⟩
  exact absent (List.mem_map.mpr ⟨offer, among, (Verdict.member_of_ofOffer decided).symm⟩)

theorem step (awaits : Awaits origin target begun) {offer : Offer}
    (absent : offer.name ∉ done.map Offer.name) {verdict : Verdict}
    (decided : Verdict.ofOffer origin begun target offer = verdict) :
    Partway origin target begun (done ++ [offer]) (held ++ verdict.conflict.toList)
      (now.storeMember? target offer.name verdict.stored) := by
  have missing := partway.missing awaits absent
  have conflicts : held ++ verdict.conflict.toList = (done ++ [offer]).filterMap fun offer =>
      (Verdict.ofOffer origin begun target offer).conflict := by
    rw [List.filterMap_append, ← partway.conflicts, ← decided]
    cases held : (Verdict.ofOffer origin begun target offer).conflict <;> simp [held]
  have changed : Confined target [offer.name] now
      (now.storeMember? target offer.name verdict.stored) := .of_storeMember? now verdict.stored
  refine
    { amid := partway.amid.storeMember? now verdict.stored
      confined := ?_
      stored := fun other member => ?_
      conflicts }
  · rw [List.map_append]
    exact partway.confined.trans changed
  · rcases List.mem_append.mp member with member | member
    · have different : other.name ∉ [offer.name] := fun same =>
        absent (List.mem_singleton.mp same ▸ List.mem_map_of_mem member)
      rw [changed.others other.name different]
      exact partway.stored other member
    · rw [List.mem_singleton.mp member, decided]
      exact ownDescriptor?_storeMember?_same now verdict.stored partway.amid.known missing

end Partway

/-! ### Reading what was there before -/

section Reading

variable {origin begun now : Store} {target : ObjectId} (awaits : Awaits origin target begun)
  (amid : Amid origin target now) {table : ObjectId} (known : origin.hasObject table = true)

include awaits

theorem Awaits.not_mem_ancestry {table : ObjectId} (known : origin.hasObject table = true) :
    target ∉ origin.ancestry table := by
  intro member
  have there := hasObject_of_mem_ancestry awaits.rooted known member
  rw [awaits.new] at there
  cases there

include amid

private theorem Awaits.lookup_eq {table : ObjectId} (known : origin.hasObject table = true)
    (name : String) : now.lookup table name = origin.lookup table name :=
  amid.changes.lookup_eq awaits.rooted known (awaits.not_mem_ancestry known) name

theorem Awaits.chainHolds_eq {tables chain : List ObjectId}
    (known : ∀ table ∈ tables, origin.hasObject table = true)
    (spans : now.Spans target tables chain) (name : String) (method : Value) :
    now.chainHolds chain name method = origin.chainHolds tables name method := by
  rw [spans.chainHolds_eq]
  refine chainHolds_congr (fun table member => ?_) method
  have there := known table member
  exact amid.changes.dataValue?_eq awaits.rooted there (awaits.not_mem_ancestry there) name

end Reading

private theorem chainHolds_append (store : Store) (first second : List ObjectId) (name : String)
    (method : Value) :
    store.chainHolds (first ++ second) name method =
      (store.chainHolds first name method || store.chainHolds second name method) :=
  List.any_append

private theorem chainHolds_eq_false {store : Store} {tables : List ObjectId} {name : String}
    (clear : ∀ table ∈ tables, store.has table name = false) (method : Value) :
    store.chainHolds tables name method = false := by
  rw [chainHolds, List.any_eq_false]
  intro table member
  have missing := clear table member
  rw [has, Option.isSome_eq_false_iff, Option.isNone_iff_eq_none] at missing
  rw [dataValue?, descriptor?, missing]
  exact Bool.false_ne_true

end Store

namespace Merge

open Store (Offer Partway Awaits)

variable {σ : Type} (meaning : Meaning σ) {origin begun : Store} {target : ObjectId}
  {done : List Offer} {held : List Conflict} {world : World σ} {sources : List Value}

/-! ### Turns of independent sources -/

private theorem settleConflict_of_forall_ne {name : String} {held : List Conflict}
    (fresh : ∀ conflict ∈ held, conflict.member ≠ name) : settleConflict name held = held :=
  List.filter_eq_self.mpr fun conflict member => decide_eq_true (fresh conflict member)

theorem run_carryOut {name : String} (missing : world.store.ownDescriptor? target name = none)
    (fresh : ∀ conflict ∈ held, conflict.member ≠ name) (descriptor : Descriptor)
    (incoming : ProcedureId) (resolution : Resolution) {verdict : Verdict}
    (decided : Verdict.ofResolution (world.store.descriptor? target name) name descriptor incoming
      resolution = verdict) :
    (carryOut meaning ⟨target, .raw, sources⟩ name descriptor incoming held resolution).run world =
      (.ok (held ++ verdict.conflict.toList),
        { world with store := world.store.storeMember? target name verdict.stored }) := by
  have puts (descriptor : Descriptor) := run_put_of_not_owned meaning ⟨target, .raw, sources⟩
    descriptor rfl missing
  subst decided
  cases resolution with
  | incoming =>
      rw [carryOut, Action.run_bind_of_ok _ (puts descriptor), Verdict.ofResolution,
        Option.toList_none, List.append_nil]
      rfl
  | conflict existing =>
      rw [carryOut, Action.run_bind_of_ok _ (puts descriptor), Verdict.ofResolution,
        Option.toList_some, ← holdConflict_of_fresh _ fresh]
      rfl
  | keepDestination =>
      rw [carryOut, Action.run_getStore_bind, Verdict.ofResolution, Option.toList_none,
        List.append_nil]
      cases world.store.descriptor? target name with
      | none => rfl
      | some kept =>
          dsimp only
          rw [Action.run_bind_of_ok _ (puts kept)]
          rfl

section Turn

variable (awaits : Awaits origin target begun)
  (partway : Partway origin target begun done held world.store)
  (tables : ∀ source ∈ sources, origin.HasTablesOf source) {before : List Value}
  {source : Value} {index : Nat} (earlier : sources.take index = before)
  (throughThis : sources.take (index + 1) = before ++ [source]) {name : String}
  (absent : name ∉ done.map Offer.name)
  (clear : ∀ table ∈ before.flatMap origin.sourceTables, origin.has table name = false)

include awaits partway tables earlier throughThis absent clear

theorem exists_run_weigh_of_clear {chain : List ObjectId}
    (spans : world.store.Spans target (origin.sourceTables source) chain) (own : Bool)
    (incoming : ProcedureId) (current : Option Value) :
    ∃ asked, (weigh ⟨target, .raw, sources⟩ index name own incoming chain current).run world =
        (.ok (weighed begun target [] (origin.sourceTables source) (origin.sourceTables source)
          name own incoming current), { world with store := asked }) ∧
      world.store.OnlyAdds asked ∧ origin.Amid target asked := by
  rcases rival_or_alone current incoming with ⟨existing, different, rfl⟩ | alone
  · have known : ∀ other ∈ before ++ [source], ∀ table ∈ origin.sourceTables other,
        origin.hasObject table = true := by
      intro other among
      rw [← throughThis] at among
      exact (tables other (List.mem_of_mem_take among)).tables
    have knownEarlier : ∀ table ∈ before.flatMap origin.sourceTables,
        origin.hasObject table = true :=
      List.forall_mem_flatMap.mpr fun other among => known other (List.mem_append_left _ among)
    have knownOwn := known source (List.mem_append_right _ (List.mem_singleton_self source))
    rcases exists_run_weigh_spanning ⟨target, .raw, sources⟩ partway.amid index name own chain
      different with ⟨asked, askedEarlier, askedThis, ran, amid, adds, spansEarlier, spansThis⟩
    dsimp only at spansEarlier spansThis amid
    rw [earlier] at spansEarlier
    rw [throughThis] at spansThis
    have askedPartway := partway.asked adds amid
    have resolved : Rivalry.resolve ⟨name, incoming, existing, own, chain⟩ asked target
        askedEarlier askedThis =
      Rivalry.resolve ⟨name, incoming, existing, own, origin.sourceTables source⟩ begun target []
        (origin.sourceTables source) := by
      apply resolve_congr incoming existing own
      · intro method
        rw [amid.isRequired, awaits.amid.isRequired]
      · exact askedPartway.confined.inherits_eq (awaits.amid.changes.rooted awaits.rooted)
          awaits.amid.known absent
      · intro method
        rw [awaits.chainHolds_eq amid knownOwn (spans.later (adds.changesOnly target)),
          awaits.chainHolds_eq awaits.amid knownOwn (.refl ..)]
      · intro method
        rw [awaits.chainHolds_eq amid knownEarlier spansEarlier, Store.chainHolds_eq_false clear]
        rfl
      · intro method
        rw [awaits.chainHolds_eq amid (List.forall_mem_flatMap.mpr known) spansThis,
          List.flatMap_append, List.flatMap_singleton, Store.chainHolds_append,
          Store.chainHolds_eq_false clear, Bool.false_or,
          awaits.chainHolds_eq awaits.amid knownOwn (.refl ..)]
    refine ⟨asked, ?_, adds, amid⟩
    rw [ran, resolved, weighed, if_neg different]
  · rw [weigh_of_no_rival _ _ _ _ _ _ alone, weighed_of_no_rival alone]
    exact ⟨world.store, rfl, .refl world.store, partway.amid⟩

omit tables earlier throughThis clear in
private theorem exists_partway_put {descriptor : Descriptor}
    (decided : Verdict.ofOffer origin begun target ⟨source, name⟩ = { stored := some descriptor }) :
    ∃ after, (put meaning ⟨target, .raw, sources⟩ name descriptor >>= fun _ =>
        (pure held : Action σ (List Conflict))).run world =
          (.ok held, { world with store := after }) ∧
      Partway origin target begun (done ++ [⟨source, name⟩]) held after ∧
      Store.ChangesOnly target world.store after := by
  have puts := run_put_of_not_owned meaning ⟨target, .raw, sources⟩ descriptor rfl
    (partway.missing awaits absent)
  have step := partway.step awaits absent decided
  rw [Option.toList_none, List.append_nil] at step
  exact ⟨_, Action.run_bind_of_ok _ puts, step,
    (Store.Confined.of_storeMember? _ (some descriptor)).toChangesOnly⟩

private theorem exists_partway_mixMethod {reference : ProcedureId} {table owner : ObjectId}
    {chain : List ObjectId} {descriptor : Descriptor}
    (front : origin.front? (.procedure reference) = some table)
    (known : origin.hasObject table = true) (procedure : source = .procedure reference)
    (spans : world.store.Spans target (origin.sourceTables source) chain)
    (found : origin.lookup table name = some (owner, descriptor))
    (unhooked : ∀ method, descriptor.method? = some method →
      (origin.procedure method).hook = none) :
    ∃ left after, (mixMethod meaning ⟨target, .raw, sources⟩ index table chain name held).run
        world = (.ok left, { world with store := after }) ∧
      Partway origin target begun (done ++ [⟨source, name⟩]) left after ∧
      Store.ChangesOnly target world.store after := by
  have foundNow := (awaits.lookup_eq partway.amid known name).trans found
  subst procedure
  cases method : descriptor.method? with
  | none =>
      refine ⟨held, ?_⟩
      rw [run_mixMethod_of_value meaning _ index chain held foundNow method]
      exact exists_partway_put meaning awaits partway absent
        (Verdict.ofOffer_of_value found front method)
  | some incoming =>
      have silent : installs world.store table chain name
          (world.store.dataValue? target name) = false := by
        rw [installs, foundNow]
        simp only [method]
        rw [partway.amid.hook, unhooked incoming method]
        rfl
      have rooted := awaits.amid.changes.rooted awaits.rooted
      have current := partway.confined.dataValue?_eq rooted awaits.amid.known absent
      rcases exists_run_weigh_of_clear awaits partway tables earlier throughThis absent clear spans
        (owner == table) incoming (begun.dataValue? target name) with ⟨asked, weighs, adds, amid⟩
      have askedPartway := partway.asked adds amid
      have kept := askedPartway.confined.descriptor?_eq rooted awaits.amid.known absent
      have decided : Verdict.ofOffer origin begun target ⟨.procedure reference, name⟩ = _ :=
        Verdict.ofOffer_of_method found front method
      rw [← kept] at decided
      have changes (stored : Option Descriptor) : Store.ChangesOnly target world.store
          (asked.storeMember? target name stored) :=
        (adds.changesOnly target).trans (Store.Confined.of_storeMember? asked stored).toChangesOnly
      refine ⟨_, _, ?_, askedPartway.step awaits absent decided, changes _⟩
      rw [run_mixMethod_weighs meaning ⟨target, .raw, sources⟩ index chain held foundNow method
        silent, current, Action.run_bind_of_ok _ weighs]
      exact run_carryOut meaning (askedPartway.missing awaits absent)
        (askedPartway.member_ne absent) descriptor incoming _ rfl

omit tables earlier throughThis clear in
private theorem exists_partway_mixMember {table owner : ObjectId} {descriptor : Descriptor}
    (known : origin.hasObject table = true) (bare : source = .object table)
    (found : origin.lookup table name = some (owner, descriptor))
    (unhooked : ∀ method, descriptor.method? = some method →
      (origin.procedure method).hook = none) :
    ∃ left after, (mixMember meaning ⟨target, .raw, sources⟩ table name held).run world =
        (.ok left, { world with store := after }) ∧
      Partway origin target begun (done ++ [⟨source, name⟩]) left after ∧
      Store.ChangesOnly target world.store after := by
  have foundNow := (awaits.lookup_eq partway.amid known name).trans found
  have unsettled : settledBy owner table name held = held := by
    rw [settledBy, settleConflict_of_forall_ne (partway.member_ne absent), ite_self]
  refine ⟨held, ?_⟩
  subst bare
  cases method : descriptor.method? with
  | none =>
      rw [run_mixMember_of_value meaning _ held foundNow method, unsettled]
      exact exists_partway_put meaning awaits partway absent
        (Verdict.ofOffer_of_value found rfl method)
  | some incoming =>
      have decided : Verdict.ofOffer origin begun target ⟨.object table, name⟩ = _ :=
        Verdict.ofOffer_of_bare found method
      have had : world.store.has target name = begun.has target name := by
        rw [Store.has, Store.has, partway.confined.lookup_eq
          (awaits.amid.changes.rooted awaits.rooted) awaits.amid.known absent]
      have unhookedNow := (partway.amid.hook incoming).trans (unhooked incoming method)
      rw [run_mixMember_of_unhooked meaning _ held foundNow method unhookedNow,
        partway.amid.isRequired, had, unsettled]
      split
      · next skipped =>
        rw [if_pos skipped] at decided
        have step := partway.step awaits absent decided
        rw [Option.toList_none, List.append_nil] at step
        exact ⟨world.store, rfl, step, .refl target world.store⟩
      · next taken =>
        rw [if_neg taken] at decided
        exact exists_partway_put meaning awaits partway absent decided

end Turn

/-! ### Independent sources, one after the other -/

theorem exists_partway_names {mix : List Conflict → String → Action σ (List Conflict)}
    {bears : Store → Prop} {source : Value} {listed : String → Prop}
    (later : ∀ {store after : Store}, bears store → Store.ChangesOnly target store after →
      bears after)
    (each : ∀ {done : List Offer} {held : List Conflict} {world : World σ} {name : String},
      Partway origin target begun done held world.store → bears world.store → listed name →
        name ∉ done.map Offer.name →
          ∃ left after, (mix held name).run world = (.ok left, { world with store := after }) ∧
            Partway origin target begun (done ++ [⟨source, name⟩]) left after ∧
            Store.ChangesOnly target world.store after) :
    ∀ {names : List String} {done : List Offer} {held : List Conflict} {world : World σ},
      (∀ name ∈ names, listed name ∧ name ∉ done.map Offer.name) → names.Nodup →
        Partway origin target begun done held world.store → bears world.store →
          ∃ left after, (names.foldlM mix held).run world =
              (.ok left, { world with store := after }) ∧
            Partway origin target begun (done ++ names.map (Offer.mk source)) left after
  | [], done, held, world, _, _, partway, _ => by
      refine ⟨held, world.store, rfl, ?_⟩
      rw [List.map_nil, List.append_nil]
      exact partway
  | name :: names, done, held, world, fresh, unique, partway, bearing => by
      rw [List.nodup_cons] at unique
      have first := fresh name (List.mem_cons_self ..)
      rcases each partway bearing first.1 first.2 with ⟨left, after, ran, step, changes⟩
      have freshRest : ∀ other ∈ names,
          listed other ∧ other ∉ (done ++ [Offer.mk source name]).map Offer.name := by
        intro other member
        have fresh := fresh other (List.mem_cons_of_mem _ member)
        refine ⟨fresh.1, fun among => ?_⟩
        rw [List.map_append, List.mem_append] at among
        rcases among with among | among
        · exact fresh.2 among
        · have same : other = name := List.mem_singleton.mp among
          exact unique.1 (same ▸ member)
      let between : World σ := { world with store := after }
      have rest : ∃ final last, (names.foldlM mix left).run between =
            (.ok final, { between with store := last }) ∧
          Partway origin target begun
            (done ++ [Offer.mk source name] ++ names.map (Offer.mk source)) final last :=
        exists_partway_names later each freshRest unique.2 step (later bearing changes)
      rcases rest with ⟨final, last, ranRest, reached⟩
      rw [List.append_assoc] at reached
      refine ⟨final, last, ?_, reached⟩
      rw [List.foldlM_cons, Action.run_bind_of_ok _ ran]
      exact ranRest

section Sources

variable (awaits : Awaits origin target begun)
  (present : ∀ source ∈ sources, origin.Present source)
  (tables : ∀ source ∈ sources, origin.HasTablesOf source)
  (undecorated : ∀ source ∈ sources, origin.Undecorated source)

include present tables undecorated

theorem exists_partway_sourceNames {mix : List Conflict → String → Action σ (List Conflict)}
    {bears : Store → Prop} {source : Value} {table : ObjectId} (member : source ∈ sources)
    (front : origin.front? source = some table)
    (later : ∀ {store after : Store}, bears store → Store.ChangesOnly target store after →
      bears after)
    (each : ∀ {done : List Offer} {held : List Conflict} {world : World σ} {name : String}
      {owner : ObjectId} {descriptor : Descriptor},
      Partway origin target begun done held world.store → bears world.store →
        name ∈ origin.sourceNames source → name ∉ done.map Offer.name →
          origin.lookup table name = some (owner, descriptor) →
          (∀ method, descriptor.method? = some method → (origin.procedure method).hook = none) →
          ∃ left after, (mix held name).run world = (.ok left, { world with store := after }) ∧
            Partway origin target begun (done ++ [⟨source, name⟩]) left after ∧
            Store.ChangesOnly target world.store after)
    (partway : Partway origin target begun done held world.store) (bearing : bears world.store)
    (absent : ∀ name ∈ origin.sourceNames source, name ∉ done.map Offer.name) :
    ∃ left after, ((origin.sourceNames source).foldlM mix held).run world =
        (.ok left, { world with store := after }) ∧
      Partway origin target begun (done ++ (origin.sourceNames source).map (Offer.mk source))
        left after := by
  have names := Store.sourceNames_of_front? front
  have known := (tables source member).front table front
  have fronts := (present source member).fronts_of_front? front known
  refine exists_partway_names later (fun partway bearing listed absent => ?_)
    (fun name listed => ⟨listed, absent name listed⟩) (origin.nodup_sourceNames source) partway
    bearing
  have shown := names ▸ listed
  rcases Store.exists_lookup_of_mem_enumerableNames shown with ⟨owner, descriptor, found⟩
  exact each partway bearing listed absent found fun method holds =>
    (undecorated source member).hook_eq_none fronts shown found holds

include awaits

private theorem exists_partway_mixSource
    (partway : Partway origin target begun done held world.store) {before : List Value}
    {source : Value} {index : Nat} (earlier : sources.take index = before)
    (throughThis : sources.take (index + 1) = before ++ [source])
    (absent : ∀ name ∈ origin.sourceNames source, name ∉ done.map Offer.name)
    (clear : ∀ name ∈ origin.sourceNames source,
      ∀ table ∈ before.flatMap origin.sourceTables, origin.has table name = false) :
    ∃ left after, (mixSource meaning ⟨target, .raw, sources⟩ index source held).run world =
        (.ok left, { world with store := after }) ∧
      Partway origin target begun (done ++ (origin.sourceNames source).map (Offer.mk source))
        left after := by
  have member : source ∈ sources := by
    apply List.mem_of_mem_take
    rw [throughThis]
    exact List.mem_append_right before (List.mem_singleton_self source)
  cases source with
  | procedure reference =>
      have tabled :=
        partway.asked (.of_prototypeOf _ reference) (partway.amid.prototypeOf reference)
      have asked := tabled.amid.spans_prototypes [.procedure reference]
      have begins := tabled.asked asked.2.1 asked.1
      rw [List.flatMap_singleton] at asked
      rw [mixSource, Action.run_edit_bind, Action.run_edit_bind, Action.run_getStore_bind]
      dsimp only
      rcases partway.amid.prototypeOf_cases reference with front | ⟨missing, vacant⟩
      · have known := (tables _ member).front _ front
        have names : origin.sourceNames (.procedure reference) = origin.enumerableNames _ :=
          Store.sourceNames_of_front? front
        rw [begins.amid.changes.enumerableNames_eq awaits.rooted known
          (awaits.not_mem_ancestry known), ← names]
        refine exists_partway_sourceNames present tables undecorated member front
          (fun spans changes => Store.Spans.later spans changes)
          (fun partway spans listed absent found unhooked => ?_) begins asked.2.2 absent
        exact exists_partway_mixMethod meaning awaits partway tables earlier throughThis absent
          (clear _ listed) front known rfl spans found unhooked
      · have names : origin.sourceNames (.procedure reference) = [] :=
          Store.sourceNames_of_front?_eq_none missing
        rw [(vacant.later (asked.2.1.changesOnly target)).blank.enumerableNames_eq_nil, names,
          List.map_nil, List.append_nil]
        exact ⟨held, _, rfl, begins⟩
  | object table =>
      have known := (tables _ member).front table rfl
      have listed := partway.amid.changes.enumerableNames_eq awaits.rooted known
        (awaits.not_mem_ancestry known)
      rw [mixSource, Action.run_getStore_bind, listed]
      refine exists_partway_sourceNames present tables undecorated member rfl
        (fun _ _ => trivial) (fun partway _ _ absent found unhooked => ?_) partway trivial absent
      exact exists_partway_mixMember meaning awaits partway absent known rfl found unhooked
  | _ =>
      cases present _ member

private theorem exists_partway_mixSources (independent : sources.Pairwise origin.Independent) :
    ∀ {before rest : List Value} {held : List Conflict} {world : World σ},
      sources = before ++ rest →
        Partway origin target begun (origin.offers before) held world.store →
        ∃ left after, (mixSources meaning ⟨target, .raw, sources⟩ before.length rest held).run
            world = (.ok left, { world with store := after }) ∧
          Partway origin target begun (origin.offers sources) left after
  | before, [], held, world, split, partway => by
      rw [List.append_nil] at split
      subst split
      exact ⟨held, world.store, rfl, partway⟩
  | before, source :: rest, held, world, split, partway => by
      have splitThis : sources = before ++ [source] ++ rest := by
        rw [split, List.append_assoc, List.singleton_append]
      have earlier : sources.take before.length = before := by rw [split, List.take_left]
      have throughThis : sources.take (before.length + 1) = before ++ [source] := by
        rw [splitThis]
        exact List.take_left' List.length_append
      have apart : ∀ other ∈ before, origin.Independent other source := by
        rw [split, List.pairwise_append] at independent
        exact fun other member => independent.2.2 other member source (List.mem_cons_self ..)
      have presentSource := present source
        (split ▸ List.mem_append_right before (List.mem_cons_self ..))
      have absent (name : String) (listed : name ∈ origin.sourceNames source) :=
        Store.not_mem_names_offers presentSource apart listed
      have clear (name : String) (listed : name ∈ origin.sourceNames source) :
          ∀ table ∈ before.flatMap origin.sourceTables, origin.has table name = false :=
        List.forall_mem_flatMap.mpr fun other member => (apart other member).namesToo name listed
      rcases exists_partway_mixSource meaning awaits present tables undecorated partway earlier
        throughThis absent clear with ⟨left, after, ran, step⟩
      rw [← Store.offers_concat] at step
      let between : World σ := { world with store := after }
      have rest : ∃ final last, (mixSources meaning ⟨target, .raw, sources⟩
            (before ++ [source]).length rest left).run between =
              (.ok final, { between with store := last }) ∧
          Partway origin target begun (origin.offers sources) final last :=
        exists_partway_mixSources independent splitThis step
      rw [List.length_append, List.length_singleton] at rest
      rcases rest with ⟨final, last, ranRest, reached⟩
      refine ⟨final, last, ?_, reached⟩
      rw [mixSources, Action.run_bind_of_ok _ ran]
      exact ranRest

end Sources

end Merge

/-- Merging independent sources into a new destination succeeds, and decides on all that they
offer. -/
theorem exists_run_mixin {σ : Type} (meaning : Meaning σ) {origin : Store} {target : ObjectId}
    {sources : List Value} {world : World σ} (awaits : origin.Awaits target world.store)
    (present : ∀ source ∈ sources, origin.Present source)
    (tables : ∀ source ∈ sources, origin.HasTablesOf source)
    (undecorated : ∀ source ∈ sources, origin.Undecorated source)
    (independent : sources.Pairwise origin.Independent) :
    ∃ conflicts after, (mixin meaning target sources .raw).run world =
        (.ok conflicts, { world with store := after }) ∧
      origin.Partway target world.store (origin.offers sources) conflicts after := by
  have started : origin.Partway target world.store (origin.offers []) [] world.store :=
    .start awaits
  exact Merge.exists_partway_mixSources meaning awaits present tables undecorated independent
    (List.nil_append sources).symm started

namespace Store

/-! ### Other orders -/

theorem perm_offers (store : Store) {sources permuted : List Value}
    (reordered : permuted.Perm sources) : (store.offers permuted).Perm (store.offers sources) :=
  reordered.flatMap_right _

section Reordered

variable {origin begun now nowToo : Store} {target : ObjectId} {done doneToo : List Offer}
  {held heldToo : List Conflict} (partway : Partway origin target begun done held now)
  (partwayToo : Partway origin target begun doneToo heldToo nowToo)
  (reordered : doneToo.Perm done)

include partway partwayToo reordered

theorem Partway.perm_conflicts : heldToo.Perm held := by
  rw [partway.conflicts, partwayToo.conflicts]
  exact reordered.filterMap _

/-- In whatever order offers were decided on, the same is stored in the destination. -/
theorem Partway.ownDescriptor?_eq (name : String) :
    nowToo.ownDescriptor? target name = now.ownDescriptor? target name := by
  by_cases offered : name ∈ done.map Offer.name
  · rcases List.mem_map.mp offered with ⟨offer, member, rfl⟩
    rw [partway.stored offer member, partwayToo.stored offer (reordered.mem_iff.mpr member)]
  · have offeredToo : name ∉ doneToo.map Offer.name := fun member =>
      offered ((reordered.map Offer.name).mem_iff.mp member)
    rw [partway.confined.others name offered, partwayToo.confined.others name offeredToo]

end Reordered

end Store

end TraitComposition
