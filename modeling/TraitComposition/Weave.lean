import TraitComposition.FirstSeen
import TraitComposition.Value

/-!
A weave is the undecorated procedure an advised member grew from, its root,
together with the layers of advice over it, innermost first. Stacking puts the
layers of one weave over another without repeating those already there.
-/
namespace TraitComposition

structure LayerId where
  index : Nat
deriving DecidableEq, Inhabited

structure Weave where
  root : Option ProcedureId := none
  layers : List LayerId := []
deriving DecidableEq, Inhabited

namespace Weave

def single (layer : LayerId) : Weave :=
  ⟨none, [layer]⟩

def bare (root : ProcedureId) : Weave :=
  ⟨some root, []⟩

def depth (weave : Weave) : Nat :=
  weave.layers.length

/-- The root of a stack: what is there stays, unless there is nothing or only a
placeholder for what is required. -/
def stackRoot (isRequired : ProcedureId → Bool) :
    Option ProcedureId → Option ProcedureId → Option ProcedureId
  | some current, some incoming => if isRequired current then some incoming else some current
  | some current, none => some current
  | none, incoming => incoming

/-- Puts the layers of `incoming` that are missing on top of those of `weave`. -/
def stack (isRequired : ProcedureId → Bool) (weave incoming : Weave) : Weave where
  root := stackRoot isRequired weave.root incoming.root
  layers := FirstSeen.union weave.layers incoming.layers

variable (isRequired : ProcedureId → Bool)

theorem stack_empty (weave : Weave) : weave.stack isRequired {} = weave := by
  obtain ⟨root, layers⟩ := weave
  cases root <;> rfl

@[simp] theorem mem_layers_stack {weave incoming : Weave} {layer : LayerId} :
    layer ∈ (weave.stack isRequired incoming).layers ↔
      layer ∈ weave.layers ∨ layer ∈ incoming.layers := by
  simp [stack]

theorem nodup_stack {weave : Weave} (incoming : Weave) (unique : weave.layers.Nodup) :
    (weave.stack isRequired incoming).layers.Nodup :=
  FirstSeen.nodup_union unique

example : (stack (fun _ => false) ⟨none, [⟨0⟩, ⟨1⟩]⟩ ⟨some ⟨5⟩, [⟨2⟩, ⟨0⟩]⟩) =
    ⟨some ⟨5⟩, [⟨0⟩, ⟨1⟩, ⟨2⟩]⟩ := by
  decide

end Weave

end TraitComposition
