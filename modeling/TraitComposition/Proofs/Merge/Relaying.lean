import TraitComposition.Proofs.Machine.Exhaustion
import TraitComposition.Proofs.Merge.SourceTables
import TraitComposition.Proofs.Merge.Weighing
import TraitComposition.Proofs.Store.Encoding

/-!
Definers that relay. A definer that decodes the descriptor it is given and defines the member on
its receiver goes unnoticed: as long as a merge runs no setter and no hook, it comes to the same
end with such a definer as without, and leaves the same in the destination. The two merges are
followed side by side. They read alike what was there when they began, and the tables that they
meet besides are vacant.
-/
namespace TraitComposition

variable {σ α β : Type}

/-! ### Stores side by side -/

namespace Store

structure Chains where
  tables : List ObjectId := []
  first : List ObjectId := []
  second : List ObjectId := []

structure Twin (start : Store) (target : ObjectId) (chains : Chains) (direct relayed : Store) :
    Prop where
  amidFirst : Amid start target direct
  amidSecond : Amid start target relayed
  same : relayed.members target = direct.members target
  spansFirst : direct.Spans target chains.tables chains.first
  spansSecond : relayed.Spans target chains.tables chains.second

namespace Twin

variable {start direct relayed : Store} {target : ObjectId} {chains : Chains}

theorem refl (known : start.hasObject target = true) : Twin start target {} start start where
  amidFirst := .refl known
  amidSecond := .refl known
  same := rfl
  spansFirst := ⟨List.forall_mem_nil _, List.forall_mem_nil _⟩
  spansSecond := ⟨List.forall_mem_nil _, List.forall_mem_nil _⟩

variable (twin : Twin start target chains direct relayed)

include twin

private theorem unchained : Twin start target {} direct relayed :=
  { twin with
    spansFirst := ⟨List.forall_mem_nil _, List.forall_mem_nil _⟩
    spansSecond := ⟨List.forall_mem_nil _, List.forall_mem_nil _⟩ }

private theorem storeMember (name : String) (descriptor : Descriptor) :
    Twin start target chains (direct.storeMember target name descriptor)
      (relayed.storeMember target name descriptor) where
  amidFirst := twin.amidFirst.storeMember name descriptor
  amidSecond := twin.amidSecond.storeMember name descriptor
  same := by
    rw [Store.storeMember, Store.storeMember,
      members_updateMembers_same direct _ _ twin.amidFirst.known,
      members_updateMembers_same relayed _ _ twin.amidSecond.known, twin.same]
  spansFirst := twin.spansFirst.later (.of_storeMember direct target name descriptor)
  spansSecond := twin.spansSecond.later (.of_storeMember relayed target name descriptor)

theorem beside {directLater relayedLater : Store}
    (amidFirst : Amid start target directLater) (amidSecond : Amid start target relayedLater)
    (first : ∀ object, ChangesOnly object direct directLater)
    (second : ∀ object, ChangesOnly object relayed relayedLater) :
    Twin start target chains directLater relayedLater where
  amidFirst := amidFirst
  amidSecond := amidSecond
  same := by
    rw [members_eq_of_changesOnly first twin.amidFirst.known,
      members_eq_of_changesOnly second twin.amidSecond.known, twin.same]
  spansFirst := twin.spansFirst.later (first target)
  spansSecond := twin.spansSecond.later (second target)

private theorem prototypeOf (reference : ProcedureId) :
    Twin start target chains (direct.prototypeOf reference).2 (relayed.prototypeOf reference).2 :=
  twin.beside (twin.amidFirst.prototypeOf reference) (twin.amidSecond.prototypeOf reference)
    (.of_prototypeOf direct reference) (.of_prototypeOf relayed reference)

private theorem prototypes (sources : List Value) :
    Twin start target chains (Store.prototypes sources direct).2
      (Store.prototypes sources relayed).2 :=
  have first := twin.amidFirst.spans_prototypes sources
  have second := twin.amidSecond.spans_prototypes sources
  twin.beside first.1 second.1 first.2.1.changesOnly second.2.1.changesOnly

theorem spanning (sources : List Value) :
    Twin start target
      ⟨sources.flatMap start.sourceTables, (Store.prototypes sources direct).1,
        (Store.prototypes sources relayed).1⟩
      (Store.prototypes sources direct).2 (Store.prototypes sources relayed).2 :=
  { twin.prototypes sources with
    spansFirst := (twin.amidFirst.spans_prototypes sources).2.2
    spansSecond := (twin.amidSecond.spans_prototypes sources).2.2 }

theorem table_cases (reference : ProcedureId) :
    (∃ table, start.table? reference = some table ∧ (direct.prototypeOf reference).1 = table ∧
        (relayed.prototypeOf reference).1 = table) ∨
      (direct.prototypeOf reference).2.Vacant target (direct.prototypeOf reference).1 ∧
        (relayed.prototypeOf reference).2.Vacant target (relayed.prototypeOf reference).1 := by
  rcases twin.amidFirst.prototypeOf_cases reference with found | ⟨missing, vacant⟩
  · rcases twin.amidSecond.prototypeOf_cases reference with foundToo | ⟨missing, _⟩
    · exact .inl ⟨_, found, rfl, Option.some.inj (foundToo.symm.trans found)⟩
    · cases missing.symm.trans found
  · rcases twin.amidSecond.prototypeOf_cases reference with found | ⟨_, vacantToo⟩
    · cases missing.symm.trans found
    · exact .inr ⟨vacant, vacantToo⟩

private theorem encode (fields : List (String × Value)) :
    Twin start target chains direct (Store.encode fields relayed).2 := by
  have changes := ChangesOnly.of_encode fields relayed
  rcases exists_encode_eq fields relayed with ⟨objects, equal⟩
  have amid : Amid start target (Store.encode fields relayed).2 :=
    twin.amidSecond.later (changes target) (by rw [equal]) (by rw [equal])
  exact twin.beside twin.amidFirst amid (fun object => .refl object direct) changes

theorem report {journal : Array Report} (longer : relayed.journal.toList <+: journal.toList) :
    Twin start target chains direct { relayed with journal := journal } := by
  have extends_ : relayed.Extends { relayed with journal := journal } :=
    { Extends.refl relayed with journal := longer }
  have changes (object : ObjectId) :
      ChangesOnly object relayed { relayed with journal := journal } :=
    .of_objects_eq extends_ rfl (fun _ _ found => found) object
  exact twin.beside twin.amidFirst (twin.amidSecond.later (changes target) rfl rfl)
    (fun object => .refl object direct) changes

private theorem isRequired (reference : ProcedureId) :
    relayed.isRequired reference = direct.isRequired reference := by
  rw [twin.amidSecond.isRequired, twin.amidFirst.isRequired]

private theorem hook (reference : ProcedureId) :
    (relayed.procedure reference).hook = (direct.procedure reference).hook := by
  rw [twin.amidSecond.hook, twin.amidFirst.hook]

private theorem ownDescriptor?_target (name : String) :
    relayed.ownDescriptor? target name = direct.ownDescriptor? target name := by
  rw [ownDescriptor?, ownDescriptor?, twin.same]

private theorem accepts_target (name : String) (descriptor : Descriptor) :
    relayed.accepts target name descriptor = direct.accepts target name descriptor := by
  rw [accepts, accepts, twin.ownDescriptor?_target]

/-! What was there when the merges began is read alike. -/

section Reading

variable (rooted : start.Rooted) {object : ObjectId} (known : start.hasObject object = true)

include known

private theorem members_eq : relayed.members object = direct.members object := by
  by_cases destination : object = target
  · rw [destination, twin.same]
  · rw [twin.amidSecond.changes.members object known destination,
      twin.amidFirst.changes.members object known destination]

include rooted

private theorem ancestry_eq : relayed.ancestry object = direct.ancestry object := by
  rw [twin.amidSecond.changes.ancestry_eq rooted known,
    twin.amidFirst.changes.ancestry_eq rooted known]

private theorem members_of_mem_ancestry {level : ObjectId}
    (member : level ∈ direct.ancestry object) :
    relayed.members level = direct.members level := by
  rw [twin.amidFirst.changes.ancestry_eq rooted known] at member
  exact twin.members_eq (hasObject_of_mem_ancestry rooted known member)

private theorem lookup_eq (name : String) :
    relayed.lookup object name = direct.lookup object name := by
  apply lookup_congr (twin.ancestry_eq rooted known)
  intro level member
  rw [ownDescriptor?, ownDescriptor?, twin.members_of_mem_ancestry rooted known member]

private theorem descriptor?_eq (name : String) :
    relayed.descriptor? object name = direct.descriptor? object name := by
  rw [descriptor?, descriptor?, twin.lookup_eq rooted known]

private theorem dataValue?_eq (name : String) :
    relayed.dataValue? object name = direct.dataValue? object name := by
  rw [dataValue?, dataValue?, twin.descriptor?_eq rooted known]

private theorem enumerableNames_eq :
    relayed.enumerableNames object = direct.enumerableNames object :=
  enumerableNames_congr (twin.ancestry_eq rooted known)
    fun _ member => twin.members_of_mem_ancestry rooted known member

private theorem inherits_eq (name : String) (method : Value) :
    relayed.inherits object name method = direct.inherits object name method := by
  refine inherits_congr (twin.ancestry_eq rooted known) (fun level member => ?_) method
  rw [ownDescriptor?, ownDescriptor?, twin.members_of_mem_ancestry rooted known member]

end Reading

theorem chainHolds_eq (rooted : start.Rooted)
    (known : ∀ table ∈ chains.tables, start.hasObject table = true) (name : String)
    (method : Value) :
    relayed.chainHolds chains.second name method = direct.chainHolds chains.first name method := by
  rw [twin.spansFirst.chainHolds_eq, twin.spansSecond.chainHolds_eq]
  exact chainHolds_congr (fun table member => twin.dataValue?_eq rooted (known table member) name)
    method

end Twin

end Store

/-! ### Runs side by side -/

namespace Action

def Agree (related : World σ → World σ → Prop) (refusal : Fault)
    (first second : Except Fault α × World σ) : Prop :=
  first.1 = .error refusal ∨ second.1 = first.1 ∧ related first.2 second.2

namespace Agree

variable {related wider : World σ → World σ → Prop} {refusal : Fault} {first second : World σ}

private theorem pure (answer : α) (holds : related first second) :
    Agree related refusal ((Pure.pure answer : Action σ α).run first)
      ((Pure.pure answer : Action σ α).run second) :=
  .inr ⟨rfl, holds⟩

private theorem throw (fault : Fault) (holds : related first second) :
    Agree related refusal ((MonadExcept.throw fault : Action σ α).run first)
      ((MonadExcept.throw fault : Action σ α).run second) :=
  .inr ⟨rfl, holds⟩

private theorem of_agree {run other : Except Fault α × World σ}
    (agree : Agree related refusal run other)
    (widens : related run.2 other.2 → wider run.2 other.2) : Agree wider refusal run other :=
  agree.imp_right fun ended => ⟨ended.1, widens ended.2⟩

private theorem bind {action other : Action σ α} {next rest : α → Action σ β}
    (start : Agree related refusal (action.run first) (other.run second))
    (each : ∀ answer {firstLater secondLater : World σ}, related firstLater secondLater →
      Agree related refusal ((next answer).run firstLater) ((rest answer).run secondLater)) :
    Agree related refusal ((action >>= next).run first) ((other >>= rest).run second) := by
  rw [run_bind, run_bind]
  generalize action.run first = ran at start ⊢
  generalize other.run second = ranToo at start ⊢
  rcases ran with ⟨fault | answer, firstLater⟩
  · rcases start with refused | ⟨same, holds⟩
    · cases refused
      exact .inl rfl
    · rcases ranToo with ⟨result, secondLater⟩
      cases same
      exact .inr ⟨rfl, holds⟩
  · rcases start with refused | ⟨same, holds⟩
    · cases refused
    · rcases ranToo with ⟨result, secondLater⟩
      cases same
      exact each answer holds

theorem foldlM {next rest : β → α → Action σ β}
    (each : ∀ state item {firstLater secondLater : World σ}, related firstLater secondLater →
      Agree related refusal ((next state item).run firstLater)
        ((rest state item).run secondLater)) :
    ∀ (items : List α) (state : β) {first second : World σ}, related first second →
      Agree related refusal ((items.foldlM next state).run first)
        ((items.foldlM rest state).run second)
  | [], state, _, _, holds => pure state holds
  | item :: items, state, _, _, holds => by
      rw [List.foldlM_cons, List.foldlM_cons]
      exact bind (each state item holds) fun reached _ _ further =>
        foldlM each items reached further

end Agree

end Action

open TraitComposition.Action (Agree)

def Meaning.refusing (σ : Type) (explanation : String) : Meaning σ where
  call _ _ _ := throw (.thrown explanation)
  install _ _ _ := throw (.thrown explanation)
  enter _ _ := throw (.thrown explanation)

/-- Whether an operation asks the machine for nothing, neither to call a procedure nor to install
a hook nor to enter user code. -/
def Unasked (operation : Meaning σ → Action σ α) (world : World σ) : Prop :=
  ∀ first second, (operation first).run world = (operation second).run world

/-- Whether a procedure that is called as a definer decodes the descriptor it is given, under the
name it is given, and defines the member on its receiver. It may keep a state of its own and
report what it does. -/
def Relays (meaning : Meaning σ) (definer : ProcedureId) (origin : World σ) : Prop :=
  ∀ now, (Passage.evolution σ).leads origin now → ∀ receiver name fields,
    ∃ (inner : Meaning σ) (journal : Array Report),
    let called := (meaning.call definer (.object receiver) [.text name, .object fields]).run now
    let told := (Descriptor.decode inner name fields >>= Member.define receiver name).run now
    called.1.map (fun _ => ()) = told.1 ∧
      called.2.store = { told.2.store with journal := journal }

private theorem Member.run_define_eq (object : ObjectId) (name : String) (descriptor : Descriptor)
    (world : World σ) :
    (define object name descriptor).run world =
      if world.store.accepts object name descriptor = true then
        (.ok (), { world with store := world.store.storeMember object name descriptor })
      else (.error (.notConfigurable name), world) := by
  rw [define, Action.run_getStore_bind]
  split <;> rfl

theorem Definer.run_define_custom (meaning : Meaning σ) (definer : ProcedureId) (target : ObjectId)
    (name : String) (descriptor : Descriptor) (world : World σ) :
    ((custom definer).define meaning target name descriptor).run world =
      let called := (meaning.call definer (.object target)
        [.text name, .object world.store.nextObject]).run
          { world with store := (Store.encode descriptor.fields world.store).2 }
      ((called.1.map fun _ => ()).mapError (Fault.withMember name), called.2) := by
  rw [define, Descriptor.encode, Action.run_edit_bind, Action.run_bind, Action.run_naming]
  dsimp only [Store.encode_eq]
  generalize (meaning.call definer _ _).run _ = called
  rcases called with ⟨fault | answer, later⟩
  · rfl
  · rfl

namespace Merge

structure Twinned (origin : World σ) (target : ObjectId) (chains : Store.Chains)
    (direct relayed : World σ) : Prop where
  stores : Store.Twin origin.store target chains direct.store relayed.store
  leads : (Passage.evolution σ).leads origin relayed

variable {origin direct relayed : World σ} {target : ObjectId} {chains : Store.Chains}

private theorem agree_of_stores {first second : Except Fault α × World σ} {refusal : Fault}
    (agree : Agree (fun direct relayed =>
      Store.Twin origin.store target chains direct.store relayed.store) refusal first second)
    (leads : (Passage.evolution σ).leads origin second.2) :
    Agree (Twinned origin target chains) refusal first second :=
  agree.of_agree fun stores => ⟨stores, leads⟩

section Steps

variable (explanation : String) (budget : Nat) {definer : ProcedureId}
  (rooted : origin.store.Rooted) (known : origin.store.hasObject target = true)
  (twinned : Twinned origin target chains direct relayed)

include rooted known twinned

private theorem agree_assign (name : String) (value : Value) :
    Agree (Twinned origin target chains) (.thrown explanation)
      ((Member.assign (.refusing σ explanation) target name value).run direct)
      ((Member.assign (.ofBudget budget) target name value).run relayed) := by
  have respects : Respects (Passage.evolution σ) (.ofBudget budget) ⟨target, .raw, []⟩ name :=
    respects_evolution (Meaning.evolving_ofBudget budget) _ name
  apply agree_of_stores _
    ((Passage.evolution σ).trans twinned.leads (respects.assign value relayed))
  have stores := twinned.stores
  rw [Member.assign, Member.assign, Action.run_getStore_bind, Action.run_getStore_bind,
    stores.lookup_eq rooted known]
  split
  · exact .inr ⟨rfl, stores.storeMember name _⟩
  · next owner descriptor found =>
    split
    · exact .inl rfl
    · exact .throw _ stores
    · exact .throw _ stores
    · split
      · exact .inr ⟨rfl, stores.storeMember name _⟩
      · exact .inr ⟨rfl, stores.storeMember name _⟩

omit rooted known in
theorem agree_define (relays : Relays (.ofBudget budget) definer origin) (name : String)
    (descriptor : Descriptor) :
    Agree (Twinned origin target chains) (.thrown explanation)
      ((Definer.raw.define (.refusing σ explanation) target name descriptor).run direct)
      (((Definer.custom definer).define (.ofBudget budget) target name descriptor).run
        relayed) := by
  have respects : Respects (Passage.evolution σ) (.ofBudget budget)
      ⟨target, .custom definer, []⟩ name :=
    respects_evolution (Meaning.evolving_ofBudget budget) _ name
  apply agree_of_stores _
    ((Passage.evolution σ).trans twinned.leads (respects.define descriptor relayed))
  let encoded : World σ :=
    { relayed with store := (Store.encode descriptor.fields relayed.store).2 }
  have stores : Store.Twin origin.store target chains direct.store encoded.store :=
    twinned.stores.encode descriptor.fields
  have leads : (Passage.evolution σ).leads origin encoded :=
    (Passage.evolution σ).trans twinned.leads
      ⟨(Store.Quiet.of_encode descriptor.fields relayed.store).evolves, List.prefix_refl _⟩
  have records := Store.records_encode descriptor.nodup_keys_fields relayed.store
  have reports := (Meaning.evolving_ofBudget (σ := σ) budget).call definer (.object target)
    [.text name, .object relayed.store.nextObject] encoded
  rcases relays encoded leads target name relayed.store.nextObject with
    ⟨inner, journal, answered, left⟩
  have longer := reports.1.extends.journal
  rw [left] at longer
  rw [Action.run_bind_of_ok _ (Descriptor.run_decode inner name records), Member.run_define_eq,
    stores.accepts_target] at answered left
  rw [Definer.run_define_custom, Definer.define, Member.run_define_eq]
  dsimp only
  by_cases accepted : direct.store.accepts target name descriptor = true
  · simp only [if_pos accepted] at answered left ⊢
    rw [answered]
    exact .inr ⟨rfl, (congrArg (Store.Twin _ _ _ _) left).mpr
      ((stores.storeMember name descriptor).report longer)⟩
  · simp only [if_neg accepted] at answered left ⊢
    rw [answered]
    exact .inr ⟨rfl, (congrArg (Store.Twin _ _ _ _) left).mpr (stores.report longer)⟩

variable (sources : List Value)

private theorem agree_put (relays : Relays (.ofBudget budget) definer origin) (name : String)
    (descriptor : Descriptor) :
    Agree (Twinned origin target chains) (.thrown explanation)
      ((put (.refusing σ explanation) ⟨target, .raw, sources⟩ name descriptor).run direct)
      ((put (.ofBudget budget) ⟨target, .custom definer, sources⟩ name descriptor).run
        relayed) := by
  have defined := agree_define explanation budget twinned relays name descriptor
  unfold put
  split
  · rw [Action.run_getStore_bind, Action.run_getStore_bind, Store.hasOwn_eq_isSome,
      Store.hasOwn_eq_isSome, twinned.stores.ownDescriptor?_target]
    split
    · exact agree_assign explanation budget rooted known twinned name _
    · exact defined
  · exact defined

/-! ### Weighing -/

variable (tables : ∀ source ∈ sources, origin.store.HasTablesOf source)
  (spanned : ∀ table ∈ chains.tables, origin.store.hasObject table = true)

include tables spanned

private theorem agree_weigh (index : Nat) (name : String) (own : Bool) (incoming : ProcedureId)
    (current : Option Value) :
    Agree (Twinned origin target chains) (.thrown explanation)
      ((weigh ⟨target, .raw, sources⟩ index name own incoming chains.first current).run direct)
      ((weigh ⟨target, .custom definer, sources⟩ index name own incoming chains.second
        current).run relayed) := by
  unfold weigh
  split
  · next existing =>
    split
    · exact .pure _ twinned
    · have listed (count : Nat) :
          ∀ table ∈ (sources.take count).flatMap origin.store.sourceTables,
            origin.store.hasObject table = true :=
        List.forall_mem_flatMap.mpr fun source among =>
          (tables source (List.mem_of_mem_take among)).tables
      have asked := twinned.stores.prototypes (sources.take index)
      have ownChains := asked.prototypes (sources.take (index + 1))
      have earlier := (twinned.stores.spanning (sources.take index)).prototypes
        (sources.take (index + 1))
      have throughThis := asked.spanning (sources.take (index + 1))
      have resolved := resolve_congr incoming existing own ownChains.isRequired
        (ownChains.inherits_eq rooted known name)
        (ownChains.chainHolds_eq rooted spanned name)
        (earlier.chainHolds_eq rooted (listed index) name)
        (throughThis.chainHolds_eq rooted (listed (index + 1)) name)
      refine .inr ⟨congrArg Except.ok resolved, ownChains, ?_⟩
      refine (Passage.evolution σ).trans twinned.leads ⟨?_, List.prefix_refl _⟩
      exact (Store.evolves_prototypes _ _).trans (Store.evolves_prototypes _ _)
  · exact .pure _ twinned

/-! ### Members -/

variable (relays : Relays (.ofBudget budget) definer origin)

include relays

omit tables spanned in
private theorem agree_carryOut (name : String) (descriptor : Descriptor) (incoming : ProcedureId)
    (held : List Conflict) (resolution : Resolution) :
    Agree (Twinned origin target chains) (.thrown explanation)
      ((carryOut (.refusing σ explanation) ⟨target, .raw, sources⟩ name descriptor incoming held
        resolution).run direct)
      ((carryOut (.ofBudget budget) ⟨target, .custom definer, sources⟩ name descriptor incoming
        held resolution).run relayed) := by
  have puts (descriptor : Descriptor) :=
    agree_put explanation budget rooted known twinned sources relays name descriptor
  cases resolution with
  | incoming => exact .bind (puts descriptor) fun _ _ _ reached => .pure _ reached
  | conflict existing => exact .bind (puts descriptor) fun _ _ _ reached => .pure _ reached
  | keepDestination =>
      rw [carryOut, carryOut, Action.run_getStore_bind, Action.run_getStore_bind,
        twinned.stores.descriptor?_eq rooted known]
      dsimp only
      split
      · exact .bind (puts _) fun _ _ _ reached => .pure _ reached
      · exact .pure _ twinned

private theorem agree_mixMethod (index : Nat) {table : ObjectId}
    (there : origin.store.hasObject table = true) (name : String) (held : List Conflict) :
    Agree (Twinned origin target chains) (.thrown explanation)
      ((mixMethod (.refusing σ explanation) ⟨target, .raw, sources⟩ index table chains.first name
        held).run direct)
      ((mixMethod (.ofBudget budget) ⟨target, .custom definer, sources⟩ index table chains.second
        name held).run relayed) := by
  have stores := twinned.stores
  have found := stores.lookup_eq rooted there name
  have resolved := stores.dataValue?_eq rooted known name
  have holds : relayed.store.chainHolds chains.second name =
      direct.store.chainHolds chains.first name :=
    funext (stores.chainHolds_eq rooted spanned name)
  rw [mixMethod, mixMethod, Action.run_getStore_bind, Action.run_getStore_bind, found, resolved]
  split
  · exact .pure _ twinned
  · next owner descriptor _ =>
    have puts := agree_put explanation budget rooted known twinned sources relays name descriptor
    dsimp only
    split
    · exact .bind puts fun _ _ _ reached => .pure _ reached
    · next incoming _ =>
      rw [stores.hook, holds]
      split
      · exact .inl rfl
      · refine .bind (agree_weigh explanation rooted known twinned sources tables spanned index
          name (owner == table) incoming (direct.store.dataValue? target name))
            fun resolution _ _ reached => ?_
        have carried := agree_carryOut explanation budget rooted known reached sources relays name
          descriptor incoming held resolution
        cases resolution <;> exact carried

omit tables spanned in
private theorem agree_mixMember {table : ObjectId} (there : origin.store.hasObject table = true)
    (name : String) (held : List Conflict) :
    Agree (Twinned origin target chains) (.thrown explanation)
      ((mixMember (.refusing σ explanation) ⟨target, .raw, sources⟩ table name held).run direct)
      ((mixMember (.ofBudget budget) ⟨target, .custom definer, sources⟩ table name held).run
        relayed) := by
  have stores := twinned.stores
  have found := stores.lookup_eq rooted there name
  have had : relayed.store.has target name = direct.store.has target name := by
    rw [Store.has, Store.has, stores.lookup_eq rooted known]
  rw [mixMember, mixMember, Action.run_getStore_bind, Action.run_getStore_bind, found]
  split
  · exact .pure _ twinned
  · next owner descriptor _ =>
    have puts := agree_put explanation budget rooted known twinned sources relays name descriptor
    dsimp only
    split
    · exact .bind puts fun _ _ _ reached => .pure _ reached
    · next method _ =>
      rw [stores.hook, stores.isRequired, had]
      split
      · exact .inl rfl
      · split
        · exact .pure _ twinned
        · exact .bind puts fun _ _ _ reached => .pure _ reached

end Steps

/-! ### Sources -/

section Sources

variable (explanation : String) (budget : Nat) {definer : ProcedureId} {sources : List Value}
  (rooted : origin.store.Rooted) (known : origin.store.hasObject target = true)
  (tables : ∀ source ∈ sources, origin.store.HasTablesOf source)
  (relays : Relays (.ofBudget budget) definer origin)

include rooted known tables relays

private theorem agree_mixMethods (index : Nat) {table : ObjectId}
    (there : origin.store.hasObject table = true)
    (spanned : ∀ table ∈ chains.tables, origin.store.hasObject table = true)
    (twinned : Twinned origin target chains direct relayed) (names : List String)
    (held : List Conflict) :
    Agree (Twinned origin target {}) (.thrown explanation)
      ((names.foldlM (fun held name => mixMethod (.refusing σ explanation) ⟨target, .raw, sources⟩
        index table chains.first name held) held).run direct)
      ((names.foldlM (fun held name => mixMethod (.ofBudget budget)
        ⟨target, .custom definer, sources⟩ index table chains.second name held) held).run
          relayed) := by
  have agree := Agree.foldlM (fun held name _ _ reached => agree_mixMethod explanation budget
    rooted known reached sources tables spanned relays index there name held) names held twinned
  exact agree.of_agree fun reached => ⟨reached.stores.unchained, reached.leads⟩

theorem agree_mixSource (index : Nat) {source : Value} (member : source ∈ sources)
    (held : List Conflict) (twinned : Twinned origin target {} direct relayed) :
    Agree (Twinned origin target {}) (.thrown explanation)
      ((mixSource (.refusing σ explanation) ⟨target, .raw, sources⟩ index source held).run direct)
      ((mixSource (.ofBudget budget) ⟨target, .custom definer, sources⟩ index source held).run
        relayed) := by
  have stores := twinned.stores
  cases source with
  | procedure reference =>
      have tabled := stores.prototypeOf reference
      have spanning := tabled.spanning [.procedure reference]
      have spanned : ∀ table ∈ [Value.procedure reference].flatMap origin.store.sourceTables,
          origin.store.hasObject table = true := by
        rw [List.flatMap_singleton]
        exact (tables _ member).tables
      let asked (world : World σ) : World σ :=
        { world with
          store := (Store.prototypes [.procedure reference]
            (world.store.prototypeOf reference).2).2 }
      have evolves : relayed.store.Evolves (asked relayed).store :=
        (Store.Evolves.of_step (.prototypeOf relayed.store reference)).trans
          (Store.evolves_prototypes [.procedure reference] _)
      have twins : Twinned origin target _ (asked direct) (asked relayed) :=
        ⟨spanning, (Passage.evolution σ).trans twinned.leads ⟨evolves, List.prefix_refl _⟩⟩
      rw [mixSource, mixSource]
      simp only [Action.run_edit_bind, Action.run_getStore_bind]
      rcases stores.table_cases reference with ⟨table, found, first, second⟩ | ⟨vacant, vacantToo⟩
      · have there := (tables _ member).front table found
        rw [first, second, spanning.enumerableNames_eq rooted there]
        exact agree_mixMethods explanation budget rooted known tables relays index there spanned
          twins _ held
      · have first := tabled.amidFirst.spans_prototypes [.procedure reference]
        have second := tabled.amidSecond.spans_prototypes [.procedure reference]
        rw [(vacant.later (first.2.1.changesOnly target)).blank.enumerableNames_eq_nil,
          (vacantToo.later (second.2.1.changesOnly target)).blank.enumerableNames_eq_nil]
        exact .pure held ⟨spanning.unchained, twins.leads⟩
  | object table =>
      have there := (tables _ member).front table rfl
      rw [mixSource, mixSource, Action.run_getStore_bind, Action.run_getStore_bind,
        stores.enumerableNames_eq rooted there]
      exact .foldlM (fun held name _ _ reached => agree_mixMember explanation budget rooted known
        reached sources relays there name held) _ held twinned
  | _ => exact .throw _ twinned

private theorem agree_mixSources :
    ∀ (index : Nat) {rest : List Value} (held : List Conflict) {direct relayed : World σ},
      (∀ source ∈ rest, source ∈ sources) → Twinned origin target {} direct relayed →
        Agree (Twinned origin target {}) (.thrown explanation)
          ((mixSources (.refusing σ explanation) ⟨target, .raw, sources⟩ index rest held).run
            direct)
          ((mixSources (.ofBudget budget) ⟨target, .custom definer, sources⟩ index rest held).run
            relayed)
  | _, [], held, _, _, _, twinned => .pure held twinned
  | index, source :: rest, held, _, _, inside, twinned => by
      have among := List.forall_mem_cons.mp inside
      exact .bind (agree_mixSource explanation budget rooted known tables relays index among.1 held
        twinned) fun left _ _ reached => agree_mixSources (index + 1) left among.2 reached

end Sources

end Merge

open Merge in
/-- Definitions that are relayed go unnoticed. A merge that runs no setter and no hook ends in the
same way if its definitions are made through a definer that decodes and defines what it is given:
with the same conflicts or the same fault, and the same members in the destination, in the same
order and with the same descriptors. -/
theorem mixin_of_relays (budget : Nat) {definer : ProcedureId} {target : ObjectId}
    {sources : List Value} {world : World σ} (rooted : world.store.Rooted)
    (known : world.store.hasObject target = true)
    (tables : ∀ source ∈ sources, world.store.HasTablesOf source)
    (relays : Relays (.ofBudget budget) definer world)
    (unasked : Unasked (fun meaning => mixin meaning target sources .raw) world) :
    let direct := (mixin (.ofBudget budget) target sources .raw).run world
    let relayed := (mixin (.ofBudget budget) target sources (.custom definer)).run world
    relayed.1 = direct.1 ∧ relayed.2.store.members target = direct.2.store.members target := by
  have started : Twinned world target {} world world :=
    ⟨.refl known, (Passage.evolution σ).refl world⟩
  -- A merge that asks for nothing is not refused, or else it would be so in whatever words.
  have agree (explanation : String) :
      Agree (Twinned world target {}) (.thrown explanation)
        ((mixin (.ofBudget budget) target sources .raw).run world)
        ((mixin (.ofBudget budget) target sources (.custom definer)).run world) := by
    have mixed := agree_mixSources explanation budget rooted known tables relays 0 []
      (fun _ member => member) started
    rw [unasked (.ofBudget budget) (.refusing σ explanation)]
    exact mixed
  rcases agree "" with refused | ⟨same, twinned⟩
  · rcases agree "refused" with refusedToo | ⟨same, twinned⟩
    · have words := Fault.thrown.inj (Except.error.inj (refused.symm.trans refusedToo))
      exact absurd words (by decide)
    · exact ⟨same, twinned.stores.same⟩
  · exact ⟨same, twinned.stores.same⟩

/-! ### A definer that relays -/

def Program.relaying (receiver : ObjectId) (name : String) (fields : ObjectId) : Program σ :=
  .ask (.decode name fields) fun
    | .error fault => .done (.error fault)
    | .ok descriptor =>
        .ask (.note (.text name)) fun _ =>
          .ask (.define receiver name descriptor) fun
            | .error fault => .done (.error fault)
            | .ok () => .done (.ok .undefined)

private theorem Program.run_ask (meaning : Meaning σ) (request : Request)
    (next : Except Fault request.Answer → Program σ) (world : World σ) :
    ((ask request next).run meaning).run world =
      ((next ((request.perform meaning).run world).1).run meaning).run
        ((request.perform meaning).run world).2 := by
  rw [run, Action.run_bind_of_ok _ (Action.run_outcome _ world)]

theorem relays_of_code {world : World σ} {definer : ProcedureId} {code : CodeId}
    (body : (world.store.procedure definer).body = .code code)
    (written : code.index < world.codes.size)
    (relaying : ∀ receiver name fields,
      world.code code (.call (.object receiver) [.text name, .object fields]) =
        .relaying receiver name fields) (budget : Nat) :
    Relays (.ofBudget (budget + 2)) definer world := by
  intro now leads receiver name fields
  have called := World.run_call_of_code_of_nesting body written leads budget (.object receiver)
    [.text name, .object fields]
  rw [relaying] at called
  rcases decoded : (Descriptor.decode (.ofBudget budget) name fields).run now with
    ⟨fault | descriptor, later⟩
  · have performed : ((Request.decode name fields).perform (.ofBudget budget)).run now =
        (.error fault, later) := decoded
    refine ⟨.ofBudget budget, later.store.journal, ?_⟩
    rw [called, Program.relaying, Program.run_ask, performed, Action.run_bind_of_error _ decoded]
    exact ⟨rfl, rfl⟩
  · have performed : ((Request.decode name fields).perform (.ofBudget budget)).run now =
        (.ok descriptor, later) := decoded
    let noted : World σ := { later with store := later.store.report (.note (.text name)) }
    have reported : ((Request.note (.text name)).perform (.ofBudget budget)).run later =
        (.ok (), noted) := rfl
    have defined :
        ((Request.define receiver name descriptor).perform (.ofBudget budget)).run noted =
        if later.store.accepts receiver name descriptor = true then
          (.ok (), { noted with store := noted.store.storeMember receiver name descriptor })
        else (.error (.notConfigurable name), noted) := Member.run_define_eq ..
    refine ⟨.ofBudget budget, noted.store.journal, ?_⟩
    rw [called, Program.relaying, Program.run_ask, performed, Action.run_bind_of_ok _ decoded,
      Member.run_define_eq]
    dsimp only
    rw [Program.run_ask, reported]
    dsimp only
    rw [Program.run_ask, defined]
    by_cases accepted : later.store.accepts receiver name descriptor = true
    · simp only [if_pos accepted]
      exact ⟨rfl, rfl⟩
    · simp only [if_neg accepted]
      exact ⟨rfl, rfl⟩

theorem unasked_of_ok {world later : World σ} {target : ObjectId} {sources : List Value}
    {definer : Definer} {conflicts : List Conflict}
    (ran : (mixin .exhausted target sources definer).run world = (.ok conflicts, later)) :
    Unasked (fun meaning => mixin meaning target sources definer) world :=
  fun first second => (upheld_mixin first target sources definer world conflicts later ran).trans
    (upheld_mixin second target sources definer world conflicts later ran).symm

/-- An object with a method and a value, a bare table with a new value for the one, a getter and a
locked member, and a procedure whose table has another method. -/
def definitionsToRelay : World Unit where
  store := {
    objects := #[
      { members := .ofEntries [("run", .ofValue (.procedure ⟨3⟩)), ("count", .ofValue .null)] },
      { members := .ofEntries [("count", .ofValue (.boolean true)),
          ("size", ⟨.accessor (some ⟨3⟩) none, true, false⟩),
          ("tag", ⟨.data .undefined false, true, false⟩)] },
      { members := .ofEntries [("run", .ofValue (.procedure ⟨4⟩))] }]
    procedures := #[
      { body := .required }, { body := .code ⟨0⟩ }, { body := .code ⟨1⟩, table := some ⟨2⟩ },
      { body := .code ⟨1⟩ }, { body := .code ⟨1⟩ }] }
  codes := #[
    fun
      | .call (.object receiver) [.text name, .object fields] => .relaying receiver name fields
      | _ => .done (.ok .undefined),
    fun _ => .done (.ok .undefined)]
  state := ()

/-- A value is assigned, two members are defined through the definer, and a conflict is held. -/
theorem mixin_of_relays_beside_conflict :
    definitionsToRelay.store.Rooted ∧
      (∀ source ∈ [Value.object ⟨1⟩, .procedure ⟨2⟩],
        definitionsToRelay.store.HasTablesOf source) ∧
      Relays (.ofBudget 2) ⟨1⟩ definitionsToRelay ∧
      Unasked (fun meaning => mixin meaning ⟨0⟩ [.object ⟨1⟩, .procedure ⟨2⟩] .raw)
        definitionsToRelay ∧
      ∃ later, (mixin (.ofBudget 2) ⟨0⟩ [.object ⟨1⟩, .procedure ⟨2⟩] .raw).run
          definitionsToRelay = (.ok [⟨"run", ⟨3⟩, ⟨4⟩⟩], later) ∧
        ∃ relayed, (mixin (.ofBudget 2) ⟨0⟩ [.object ⟨1⟩, .procedure ⟨2⟩] (.custom ⟨1⟩)).run
            definitionsToRelay = (.ok [⟨"run", ⟨3⟩, ⟨4⟩⟩], relayed) ∧
          relayed.store.members ⟨0⟩ = later.store.members ⟨0⟩ ∧
          later.store.ownNames ⟨0⟩ = ["run", "count", "size", "tag"] := by
  have rooted : definitionsToRelay.store.Rooted := Store.rooted_iff.mpr (by decide)
  have tables : ∀ source ∈ [Value.object ⟨1⟩, .procedure ⟨2⟩],
      definitionsToRelay.store.HasTablesOf source :=
    List.forall_mem_cons.mpr ⟨by decide, List.forall_mem_singleton.mpr (by decide)⟩
  have relays : Relays (.ofBudget 2) ⟨1⟩ definitionsToRelay :=
    relays_of_code rfl (by decide) (fun _ _ _ => rfl) 0
  have ran : (mixin .exhausted ⟨0⟩ [.object ⟨1⟩, .procedure ⟨2⟩] .raw).run
      definitionsToRelay = (.ok [⟨"run", ⟨3⟩, ⟨4⟩⟩], _) :=
    Action.run_eq_of_toOption _ _ _ (by decide +kernel)
  have direct := upheld_mixin (.ofBudget 2) _ _ _ _ _ _ ran
  have same := mixin_of_relays 2 rooted (by decide) tables relays (unasked_of_ok ran)
  rcases mixed : (mixin (.ofBudget 2) ⟨0⟩ [.object ⟨1⟩, .procedure ⟨2⟩] (.custom ⟨1⟩)).run
    definitionsToRelay with ⟨result, relayed⟩
  rw [direct, mixed] at same
  rcases same with ⟨rfl, same⟩
  exact ⟨rooted, tables, relays, unasked_of_ok ran, _, direct, relayed, rfl, same,
    by decide +kernel⟩

end TraitComposition
