import TraitComposition.Proofs.Advice.Layers
import TraitComposition.Proofs.Store.Confinement

/-!
Where woven procedures come from. A procedure that carries a weave was either woven from it
or is a decorator that was not installed, in every store in which what a weave is made of is
older than the procedures that carry it; whatever is added to the store later, that stays so.
-/
namespace TraitComposition

/-! ### What is older -/

def Wrap.Precedes : Wrap → ProcedureId → Prop
  | .before _, _ => True
  | .after advice, procedure => advice.index < procedure.index

instance : (wrap : Wrap) → (procedure : ProcedureId) → Decidable (wrap.Precedes procedure)
  | .before _, _ => inferInstanceAs (Decidable True)
  | .after advice, procedure => inferInstanceAs (Decidable (advice.index < procedure.index))

def Body.layer? : Body → Option LayerId
  | .standalone layer => some layer
  | _ => none

@[simp] theorem Body.layer?_eq_some_iff {body : Body} {layer : LayerId} :
    body.layer? = some layer ↔ body = .standalone layer := by
  cases body <;> simp [layer?]

def Body.direct? : Body → Option ProcedureId
  | .unapplied direct => direct
  | _ => none

@[simp] theorem Body.direct?_eq_some_iff {body : Body} {direct : ProcedureId} :
    body.direct? = some direct ↔ body = .unapplied (some direct) := by
  cases body <;> simp [direct?]

def Procedure.weave? (procedure : Procedure) : Option Weave :=
  match procedure.mark with
  | some (.weave weave) => some weave
  | _ => none

@[simp] theorem Procedure.weave?_eq_some_iff {procedure : Procedure} {weave : Weave} :
    procedure.weave? = some weave ↔ procedure.mark = some (.weave weave) := by
  rcases procedure with ⟨_, _, _, _ | (_ | _), _⟩ <;> simp [weave?]

/-- Whether all that a weave is made of was there before a procedure: its root, the
procedures its layers call, and the layers themselves, which are as old as the procedures
that stand for them. -/
structure Weave.Precedes (store : Store) (weave : Weave) (procedure : ProcedureId) : Prop where
  root : ∀ root ∈ weave.root, root.index < procedure.index
  layer : ∀ layer ∈ weave.layers, ∃ index < procedure.index,
    (store.procedure ⟨index⟩).body.layer? = some layer
  advice : ∀ layer ∈ weave.layers, ∀ wrap ∈ store.wrap? layer, wrap.Precedes procedure

instance (store : Store) (weave : Weave) (procedure : ProcedureId) :
    Decidable (weave.Precedes store procedure) :=
  decidable_of_iff
    ((∀ root ∈ weave.root, root.index < procedure.index) ∧
      (∀ layer ∈ weave.layers, ∃ index < procedure.index,
        (store.procedure ⟨index⟩).body.layer? = some layer) ∧
      ∀ layer ∈ weave.layers, ∀ wrap ∈ store.wrap? layer, wrap.Precedes procedure)
    ⟨fun all => ⟨all.1, all.2.1, all.2.2⟩, fun precedes =>
      ⟨precedes.root, precedes.layer, precedes.advice⟩⟩

namespace Store

/-- Whether no procedure carries a weave of what was not there yet. Nothing can be referred
to before it is there, unless a program makes a reference up. -/
def Chronological (store : Store) : Prop :=
  ∀ procedure weave, (store.procedure procedure).mark = some (.weave weave) →
    weave.Precedes store procedure

private theorem chronological_iff {store : Store} :
    store.Chronological ↔ ∀ index < store.procedures.size,
      ∀ weave ∈ (store.procedure ⟨index⟩).weave?, weave.Precedes store ⟨index⟩ := by
  constructor
  · intro chronological index _ weave carried
    exact chronological ⟨index⟩ weave (Procedure.weave?_eq_some_iff.mp carried)
  · intro all procedure weave marked
    exact all procedure.index (hasProcedure_iff.mp (hasProcedure_of_mark marked)) weave
      (Procedure.weave?_eq_some_iff.mpr marked)

instance (store : Store) : Decidable store.Chronological :=
  decidable_of_iff' _ chronological_iff

private theorem Chronological.earlier {before after : Store} (chronological : after.Chronological)
    (extends_ : before.Extends after) : before.Chronological := by
  intro procedure weave marked
  have known := hasProcedure_of_mark marked
  have precedes := chronological procedure weave ((extends_.mark known).trans marked)
  refine ⟨precedes.root, fun layer member => ?_, fun layer member wrap found =>
    precedes.advice layer member wrap (extends_.wrap? found)⟩
  rcases precedes.layer layer member with ⟨index, older, stands⟩
  have knownToo : before.hasProcedure ⟨index⟩ = true :=
    hasProcedure_iff.mpr (Nat.lt_trans older (hasProcedure_iff.mp known))
  exact ⟨index, older, extends_.body knownToo ▸ stands⟩

theorem Layered.earlier {before after : Store} (extends_ : before.Extends after) :
    ∀ {layers : List LayerId} {wraps : List Wrap}, after.Layered layers wraps →
      (∀ layer ∈ layers, (before.layer layer).isSome = true) → before.Layered layers wraps
  | [], [], .nil, _ => .nil
  | layer :: _, _ :: _, .cons found layered, known =>
      .cons ((extends_.wrap?_eq (known layer (List.mem_cons_self ..))).symm.trans found)
        (Layered.earlier extends_ layered fun other member =>
          known other (List.mem_cons_of_mem _ member))

/-- Whether a procedure is the decorator of a layer, not installed and not called through:
it calls the procedure that stands for the layer. -/
def Uninstalled (store : Store) (procedure : ProcedureId) (layer : LayerId) : Prop :=
  ∃ direct, (store.procedure procedure).body = .unapplied (some direct) ∧
    (store.procedure direct).body = .standalone layer

private theorem Uninstalled.later {before after : Store} {procedure : ProcedureId} {layer : LayerId}
    (uninstalled : before.Uninstalled procedure layer) (extends_ : before.Extends after) :
    after.Uninstalled procedure layer := by
  rcases uninstalled with ⟨direct, body, stands⟩
  exact ⟨direct, extends_.body_eq_of_ne body nofun, extends_.body_eq_of_ne stands nofun⟩

def Accounts (store : Store) (procedure : ProcedureId) (weave : Weave) (wraps : List Wrap) :
    Prop :=
  (∃ layer, weave = .single layer ∧ store.Uninstalled procedure layer) ∨
    store.Wrapped weave.root wraps.reverse (some procedure)

private theorem Accounts.later {before after : Store} {procedure : ProcedureId} {weave : Weave}
    {wraps : List Wrap} (accounts : before.Accounts procedure weave wraps)
    (extends_ : before.Extends after) : after.Accounts procedure weave wraps := by
  rcases accounts with ⟨layer, single, uninstalled⟩ | wrapped
  · exact .inl ⟨layer, single, uninstalled.later extends_⟩
  · exact .inr (wrapped.later extends_)

theorem Accounts.copy {store : Store} {procedure other : ProcedureId} {weave : Weave}
    {wraps : List Wrap} (accounts : store.Accounts procedure weave wraps)
    (known : store.hasProcedure procedure = true) (knownToo : store.hasProcedure other = true)
    (body : (store.procedure other).body = (store.procedure procedure).body) :
    store.Accounts other weave wraps := by
  rcases accounts with ⟨layer, single, direct, unapplied, stands⟩ | wrapped
  · exact .inl ⟨layer, single, direct, body.trans unapplied, stands⟩
  · exact .inr (.copy wrapped known knownToo body)

structure Provenance (store : Store) : Prop where
  layer : ∀ {procedure layer}, (store.procedure procedure).body = .standalone layer →
    (store.layer layer).isSome = true
  standalone : ∀ {reference layer woven wrap}, store.layer reference = some layer →
    layer.standalone = some woven → store.wrap? reference = some wrap →
      store.Wrapped none [wrap] (some woven)
  weave : store.Chronological → ∀ {procedure weave wraps},
    (store.procedure procedure).mark = some (.weave weave) →
      store.Layered weave.layers wraps → store.Accounts procedure weave wraps

namespace Provenance

theorem initial : Store.initial.Provenance := by
  have plain (procedure : ProcedureId) : (Store.initial.procedure procedure).body = .required ∧
      (Store.initial.procedure procedure).mark = none := by
    rcases procedure with ⟨_ | index⟩
    · exact ⟨rfl, rfl⟩
    · simp [Store.initial, procedure]
  refine ⟨fun {procedure _} body => ?_, fun found _ _ => ?_, fun _ {procedure _ _} marked => ?_⟩
  · rw [(plain procedure).1] at body
    cases body
  · cases found
  · rw [(plain procedure).2] at marked
    cases marked

variable {before after : Store} (provenance : before.Provenance)
  (extends_ : before.Extends after)

include provenance extends_

theorem accounts_later (chronological : after.Chronological) {procedure : ProcedureId}
    {weave : Weave} {wraps : List Wrap} (known : before.hasProcedure procedure = true)
    (marked : (after.procedure procedure).mark = some (.weave weave))
    (layered : after.Layered weave.layers wraps) : after.Accounts procedure weave wraps := by
  have earlier := chronological.earlier extends_
  have markedThen := (extends_.mark known).symm.trans marked
  refine (provenance.weave earlier markedThen
    (Layered.earlier extends_ layered fun layer member => ?_)).later extends_
  rcases (earlier procedure weave markedThen).layer layer member with ⟨_, _, stands⟩
  exact provenance.layer (Body.layer?_eq_some_iff.mp stands)

private theorem layer_later {procedure : ProcedureId} {layer : LayerId}
    (known : before.hasProcedure procedure = true)
    (body : (after.procedure procedure).body = .standalone layer) :
    (after.layer layer).isSome = true := by
  rcases Option.isSome_iff_exists.mp (provenance.layer ((extends_.body known).symm.trans body))
    with ⟨made, found⟩
  rcases extends_.layer layer made found with ⟨standalone, kept⟩
  rw [kept, Option.isSome_some]

private theorem standalone_later (same : after.layers = before.layers) {reference : LayerId}
    {layer : Layer} {woven : ProcedureId} {wrap : Wrap} (found : after.layer reference = some layer)
    (alone : layer.standalone = some woven) (wraps : after.wrap? reference = some wrap) :
    after.Wrapped none [wrap] (some woven) := by
  have layers (other : LayerId) : after.layer other = before.layer other := by
    rw [Store.layer, Store.layer, same]
  rw [layers] at found
  rw [wrap?, layers, ← wrap?] at wraps
  exact (provenance.standalone found alone wraps).later extends_

theorem of_new (same : after.layers = before.layers)
    (stands : ∀ {procedure layer}, before.hasProcedure procedure = false →
      (after.procedure procedure).body = .standalone layer → (after.layer layer).isSome = true)
    (woven : after.Chronological → ∀ {procedure weave wraps},
      before.hasProcedure procedure = false →
      (after.procedure procedure).mark = some (.weave weave) →
        after.Layered weave.layers wraps → after.Accounts procedure weave wraps) :
    after.Provenance where
  layer {procedure _} body := by
    cases known : before.hasProcedure procedure with
    | true => exact provenance.layer_later extends_ known body
    | false => exact stands known body
  standalone := provenance.standalone_later extends_ same
  weave chronological procedure _ _ marked layered := by
    cases known : before.hasProcedure procedure with
    | true => exact provenance.accounts_later extends_ chronological known marked layered
    | false => exact woven chronological known marked layered

/-- Where there are neither new procedures nor new layers, there is nothing to account
for. -/
theorem of_quiet (procedures : after.procedures.size = before.procedures.size)
    (layers : after.layers = before.layers) : after.Provenance := by
  have absent {procedure : ProcedureId} (unknown : before.hasProcedure procedure = false) :
      after.procedure procedure = { body := .required } :=
    procedure_of_not_hasProcedure (by rw [hasProcedure, procedures, ← hasProcedure, unknown])
  refine provenance.of_new extends_ layers (fun unknown body => ?_)
    fun _ _ _ _ unknown marked _ => ?_
  · rw [absent unknown] at body
    cases body
  · rw [absent unknown] at marked
    cases marked

theorem of_push {procedure : Procedure}
    (pushed : after.procedures = before.procedures.push procedure)
    (same : after.layers = before.layers)
    (stands : ∀ {layer}, procedure.body = .standalone layer → (before.layer layer).isSome = true)
    (woven : after.Chronological → ∀ {weave wraps}, procedure.mark = some (.weave weave) →
      after.Layered weave.layers wraps → after.Accounts ⟨before.procedures.size⟩ weave wraps) :
    after.Provenance := by
  have made {reference : ProcedureId} (unknown : before.hasProcedure reference = false)
      (known : after.hasProcedure reference = true) :
      reference = ⟨before.procedures.size⟩ ∧ after.procedure reference = procedure := by
    rw [hasProcedure_iff, pushed, Array.size_push] at known
    have beyond : ¬reference.index < before.procedures.size := by
      rw [← hasProcedure_iff, unknown]
      exact Bool.false_ne_true
    obtain rfl : reference = ⟨before.procedures.size⟩ :=
      congrArg ProcedureId.mk (by omega : reference.index = before.procedures.size)
    simp [Store.procedure, pushed, Array.getD_eq_getD_getElem?]
  refine provenance.of_new extends_ same (fun {reference layer} unknown body => ?_)
    fun chronological {reference _ _} unknown marked layered => ?_
  · have implemented : (after.procedure reference).body ≠ .required := by simp [body]
    have known := hasProcedure_of_body_ne implemented
    rw [(made unknown known).2] at body
    rw [Store.layer, same]
    exact stands body
  · have known := hasProcedure_of_mark marked
    rw [(made unknown known).2] at marked
    rw [(made unknown known).1]
    exact woven chronological marked layered

omit extends_

theorem addProcedure {procedure : Procedure}
    (unmarked : ∀ weave, procedure.mark ≠ some (.weave weave))
    (stands : ∀ {layer}, procedure.body = .standalone layer →
      (before.layer layer).isSome = true) : (before.addProcedure procedure).2.Provenance :=
  provenance.of_push (.of_addProcedure before procedure) rfl rfl stands
    fun _ _ _ marked _ => absurd marked (unmarked _)

theorem addComposite (prototype : ObjectId) (bases : Bases) (composer : Composer) :
    (before.addComposite prototype bases composer).2.Provenance :=
  provenance.of_push (.of_addComposite before prototype bases composer) rfl rfl nofun nofun

theorem withValue (procedure : ProcedureId) (value : Value) :
    (before.withMark procedure (.value value)).2.Provenance :=
  provenance.addProcedure nofun provenance.layer

theorem addCopy {original : ProcedureId} {procedure : Procedure}
    (body : procedure.body = (before.procedure original).body)
    (woven : (before.addProcedure procedure).2.Chronological → ∀ {weave wraps},
      procedure.mark = some (.weave weave) →
      (before.addProcedure procedure).2.Layered weave.layers wraps →
        before.hasProcedure original = true ∧
          (before.addProcedure procedure).2.Accounts original weave wraps) :
    (before.addProcedure procedure).2.Provenance := by
  have extends_ := Extends.of_addProcedure before procedure
  refine provenance.of_push extends_ rfl rfl (fun stands => provenance.layer (body ▸ stands))
    fun chronological _ _ marked layered => ?_
  rcases woven chronological marked layered with ⟨known, accounts⟩
  refine accounts.copy (extends_.procedure original known).1
    (hasProcedure_addProcedure_self _ _) ?_
  rw [procedure_addProcedure_self, extends_.body known, body]

theorem withHook (procedure : ProcedureId) (hook : Hook) :
    (before.withHook procedure hook).2.Provenance := by
  have extends_ := Extends.of_addProcedure before
    { before.procedure procedure with hook := some hook, table := none }
  refine provenance.addCopy rfl fun chronological _ _ marked layered => ?_
  have known : before.hasProcedure procedure = true := hasProcedure_of_mark marked
  exact ⟨known, provenance.accounts_later extends_ chronological known
    ((extends_.mark known).trans marked) layered⟩

theorem withWeave {inner : ProcedureId} {weave : Weave}
    (woven : (before.withMark inner (.weave weave)).2.Chronological → ∀ {wraps},
      (before.withMark inner (.weave weave)).2.Layered weave.layers wraps →
        before.hasProcedure inner = true ∧
          before.Wrapped weave.root wraps.reverse (some inner)) :
    (before.withMark inner (.weave weave)).2.Provenance := by
  refine provenance.addCopy rfl fun chronological _ _ marked layered => ?_
  cases marked
  rcases woven chronological layered with ⟨known, wrapped⟩
  exact ⟨known, .inr (wrapped.later (.of_addProcedure _ _))⟩

theorem addLayer (advice : Advice) : (before.addLayer { advice := advice }).2.Provenance := by
  have extends_ := Extends.of_addLayer before { advice := advice }
  refine ⟨fun {procedure layer} body => ?_,
    fun {reference layer woven wrap} found alone wraps => ?_,
    fun chronological {procedure weave wraps} marked layered => ?_⟩
  · have known : before.hasProcedure procedure = true :=
      hasProcedure_of_body_ne (body.symm ▸ nofun : (before.procedure procedure).body ≠ .required)
    exact provenance.layer_later extends_ known body
  · have pushed : (before.layers.push { advice := advice })[reference.index]? = some layer := found
    rw [Array.getElem?_push] at pushed
    split at pushed
    · cases pushed
      cases alone
    · have same : (before.addLayer { advice := advice }).2.layer reference =
          before.layer reference := found.trans pushed.symm
      rw [wrap?, same, ← wrap?] at wraps
      exact (provenance.standalone pushed alone wraps).later extends_
  · have known : before.hasProcedure procedure = true := hasProcedure_of_mark marked
    exact provenance.accounts_later extends_ chronological known marked layered

theorem setStandalone {layer : LayerId} {woven : ProcedureId}
    (alone : ∀ wrap, before.wrap? layer = some wrap →
      before.Wrapped none [wrap] (some woven)) :
    (before.setStandalone layer woven).Provenance := by
  have extends_ := Extends.of_setStandalone before layer woven
  refine ⟨fun {procedure layer} body => ?_,
    fun {reference made other wrap} found settled wraps => ?_,
    fun chronological {procedure weave wraps} marked layered => ?_⟩
  · have known : before.hasProcedure procedure = true :=
      hasProcedure_of_body_ne (body.symm ▸ nofun : (before.procedure procedure).body ≠ .required)
    exact provenance.layer_later extends_ known body
  · have modified : (if layer.index = reference.index then
        (before.layer reference).map fun known => { known with standalone := some woven }
      else before.layer reference) = some made := by
      rw [← found, Store.layer, Store.layer, Store.setStandalone, Array.getElem?_modify]
    split at modified
    · next same =>
      obtain rfl : layer = reference := congrArg LayerId.mk same
      rcases Option.map_eq_some_iff.mp modified with ⟨earlier, known, rfl⟩
      cases settled
      rw [extends_.wrap?_eq (by rw [known, Option.isSome_some])] at wraps
      exact (alone wrap wraps).later extends_
    · rw [extends_.wrap?_eq (by rw [modified, Option.isSome_some])] at wraps
      exact (provenance.standalone modified settled wraps).later extends_
  · have known : before.hasProcedure procedure = true := hasProcedure_of_mark marked
    exact provenance.accounts_later extends_ chronological known marked layered

theorem addDecorator {layer : LayerId} (known : (before.layer layer).isSome = true)
    (label : Option String) (hook : Option Hook) :
    ((before.addProcedure { body := .standalone layer }).2.addProcedure
      { label := label, body := .unapplied (some ⟨before.procedures.size⟩), hook := hook,
        mark := some (.weave (.single layer)) }).2.Provenance := by
  have direct : (before.addProcedure { body := .standalone layer }).2.Provenance :=
    provenance.addProcedure nofun fun stands => by
      cases stands
      exact known
  refine direct.of_push (.of_addProcedure _ _) rfl rfl nofun fun _ _ _ marked _ => ?_
  cases marked
  refine .inl ⟨layer, rfl, ⟨before.procedures.size⟩, ?_, ?_⟩
  · rw [procedure_addProcedure_self]
  · rw [procedure_addProcedure_of_hasProcedure _ (hasProcedure_addProcedure_self _ _),
      procedure_addProcedure_self]

end Provenance

end Store

end TraitComposition
