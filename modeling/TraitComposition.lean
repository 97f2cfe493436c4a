import TraitComposition.Action
import TraitComposition.Advice
import TraitComposition.Composition
import TraitComposition.Config
import TraitComposition.Config.Document
import TraitComposition.Config.MissingFile
import TraitComposition.Conflict
import TraitComposition.DebugText
import TraitComposition.Decimal.Shortest
import TraitComposition.Decorator
import TraitComposition.Descriptor
import TraitComposition.Fault
import TraitComposition.FirstSeen
import TraitComposition.Flattening
import TraitComposition.Machine
import TraitComposition.Member
import TraitComposition.MemberTable
import TraitComposition.Merge
import TraitComposition.Program
import TraitComposition.Proofs.Action.Passage
import TraitComposition.Proofs.Action.Running
import TraitComposition.Proofs.Advice.AccessorAdvice
import TraitComposition.Proofs.Advice.ComposedTrait
import TraitComposition.Proofs.Advice.Installing
import TraitComposition.Proofs.Advice.Invocation
import TraitComposition.Proofs.Advice.Layers
import TraitComposition.Proofs.Advice.Onion
import TraitComposition.Proofs.Advice.Provenance
import TraitComposition.Proofs.Advice.SharedMember
import TraitComposition.Proofs.Advice.Stacking
import TraitComposition.Proofs.Advice.Trait
import TraitComposition.Proofs.Advice.WeaveAlgebra
import TraitComposition.Proofs.Advice.Weaving
import TraitComposition.Proofs.Composition.Absorption
import TraitComposition.Proofs.Composition.AdvisedAccessors
import TraitComposition.Proofs.Composition.CapturedAliases
import TraitComposition.Proofs.Composition.Clashes
import TraitComposition.Proofs.Composition.Composing
import TraitComposition.Proofs.Composition.Construction
import TraitComposition.Proofs.Composition.Creation
import TraitComposition.Proofs.Composition.Definitions
import TraitComposition.Proofs.Composition.Diamonds
import TraitComposition.Proofs.Composition.Extensions
import TraitComposition.Proofs.Composition.FailedMixins
import TraitComposition.Proofs.Composition.Fulfillment
import TraitComposition.Proofs.Composition.Ingredients
import TraitComposition.Proofs.Composition.Installations
import TraitComposition.Proofs.Composition.Materialization
import TraitComposition.Proofs.Composition.Overrides
import TraitComposition.Proofs.Composition.PatchingTables
import TraitComposition.Proofs.Composition.Permutations
import TraitComposition.Proofs.Composition.Presence
import TraitComposition.Proofs.Composition.Recomposing
import TraitComposition.Proofs.Composition.Regrouping
import TraitComposition.Proofs.Composition.Reporting
import TraitComposition.Proofs.Composition.Steps
import TraitComposition.Proofs.Composition.TwoTypes
import TraitComposition.Proofs.Composition.Verdicts
import TraitComposition.Proofs.Config.Environment
import TraitComposition.Proofs.Flattening.CompositionTree
import TraitComposition.Proofs.Flattening.FirstOccurrence
import TraitComposition.Proofs.Flattening.FlattenedTables
import TraitComposition.Proofs.Machine.Admission
import TraitComposition.Proofs.Machine.DefinitionOrder
import TraitComposition.Proofs.Machine.Delegation
import TraitComposition.Proofs.Machine.Enumeration
import TraitComposition.Proofs.Machine.Evolution
import TraitComposition.Proofs.Machine.Exhaustion
import TraitComposition.Proofs.Machine.Following
import TraitComposition.Proofs.Machine.Growth
import TraitComposition.Proofs.Machine.LockedMembers
import TraitComposition.Proofs.Machine.Operations
import TraitComposition.Proofs.Machine.Restraint
import TraitComposition.Proofs.Machine.Sheltering
import TraitComposition.Proofs.Machine.Uncalled
import TraitComposition.Proofs.Merge.BareTables
import TraitComposition.Proofs.Merge.Conflicts
import TraitComposition.Proofs.Merge.Courses
import TraitComposition.Proofs.Merge.Failures
import TraitComposition.Proofs.Merge.Fidelity
import TraitComposition.Proofs.Merge.FinalTable
import TraitComposition.Proofs.Merge.Following
import TraitComposition.Proofs.Merge.FreshSources
import TraitComposition.Proofs.Merge.Fulfillment
import TraitComposition.Proofs.Merge.Holdings
import TraitComposition.Proofs.Merge.Independence
import TraitComposition.Proofs.Merge.Interception
import TraitComposition.Proofs.Merge.Keeping
import TraitComposition.Proofs.Merge.Markers
import TraitComposition.Proofs.Merge.Membership
import TraitComposition.Proofs.Merge.Names
import TraitComposition.Proofs.Merge.OneType
import TraitComposition.Proofs.Merge.OrdinaryTables
import TraitComposition.Proofs.Merge.Outcomes
import TraitComposition.Proofs.Merge.Patches
import TraitComposition.Proofs.Merge.Relaying
import TraitComposition.Proofs.Merge.RepeatedPatches
import TraitComposition.Proofs.Merge.SourceTables
import TraitComposition.Proofs.Merge.TableFolds
import TraitComposition.Proofs.Merge.Turns
import TraitComposition.Proofs.Merge.Unattended
import TraitComposition.Proofs.Merge.Undecorated
import TraitComposition.Proofs.Merge.Weighing
import TraitComposition.Proofs.Store.Additions
import TraitComposition.Proofs.Store.Assignment
import TraitComposition.Proofs.Store.Confinement
import TraitComposition.Proofs.Store.Decoding
import TraitComposition.Proofs.Store.Encoding
import TraitComposition.Proofs.Store.Enumeration
import TraitComposition.Proofs.Store.Evolution
import TraitComposition.Proofs.Store.Focus
import TraitComposition.Proofs.Store.Locking
import TraitComposition.Proofs.Store.Lookup
import TraitComposition.Proofs.Store.NewTable
import TraitComposition.Proofs.Store.Redefinition
import TraitComposition.Proofs.Store.Regions
import TraitComposition.Proofs.Store.Removal
import TraitComposition.Proofs.Store.TableHistory
import TraitComposition.Proofs.Store.Types
import TraitComposition.Proofs.Store.Walks
import TraitComposition.Proofs.Store.Writing
import TraitComposition.Proofs.TraitGraph.AdvisedTraits
import TraitComposition.Proofs.TraitGraph.AncestorsFirst
import TraitComposition.Proofs.TraitGraph.Search
import TraitComposition.Script.Answer
import TraitComposition.Script.Argument
import TraitComposition.Script.Basic
import TraitComposition.Script.Data
import TraitComposition.Script.Evaluation
import TraitComposition.Script.Form.Composition
import TraitComposition.Script.Form.Decoration
import TraitComposition.Script.Form.Inspection
import TraitComposition.Script.Form.Language
import TraitComposition.Script.Form.Object
import TraitComposition.Script.Form.Procedure
import TraitComposition.Script.Form.Recording
import TraitComposition.Script.Form.Settings
import TraitComposition.Script.Session
import TraitComposition.Store.Basic
import TraitComposition.Store.Definition
import TraitComposition.Store.Delegation
import TraitComposition.Text.Blank
import TraitComposition.Text.Escaped
import TraitComposition.Text.Hexadecimal
import TraitComposition.Text.Quoted
import TraitComposition.Toml.Document
import TraitComposition.Toml.Lexeme
import TraitComposition.Toml.Node
import TraitComposition.Toml.Scalar
import TraitComposition.TraitGraph
import TraitComposition.Value
import TraitComposition.Weave
