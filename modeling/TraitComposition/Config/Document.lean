import TraitComposition.Config
import TraitComposition.Toml.Document

/-!
Settings written as a document, and read back from one.
-/
namespace TraitComposition.Config

def toDocument (config : Config) : String :=
  "conflict_policy = \"" ++ config.conflictPolicy.word ++ "\"\n" ++
    "materialize_accessors = " ++ (if config.materializeAccessors then "true" else "false") ++
    "\n"

/-! ### Reading

A document need not give every setting, and what it says beyond the settings has
no effect. -/

/-- A policy is written as its word, or as a table in which the word is the only key
and leads to something empty. -/
def policyOfNode? : Toml.Node → Option ConflictPolicy
  | .text word => ConflictPolicy.ofWord? word
  | .table _ [(word, content)] =>
      if content.isEmpty then ConflictPolicy.ofWord? word else none
  | _ => none

def flagOfNode? : Toml.Node → Option Bool
  | .boolean flag => some flag
  | _ => none

/-- The setting under a key. An absent one has its default, and one that cannot be
read makes the whole document invalid. -/
def setting? {α : Type} (entries : Toml.Entries) (key : String) (default : α)
    (read? : Toml.Node → Option α) : Option α :=
  match entries.lookup key with
  | none => some default
  | some node => read? node

def ofEntries? (entries : Toml.Entries) : Option Config := do
  let defaults : Config := {}
  let conflictPolicy ←
    setting? entries "conflict_policy" defaults.conflictPolicy policyOfNode?
  let materializeAccessors ←
    setting? entries "materialize_accessors" defaults.materializeAccessors flagOfNode?
  some { conflictPolicy, materializeAccessors }

def ofDocument? (content : String) : Option Config :=
  (Toml.read content).bind ofEntries?

def rejected : Fault :=
  .invalidConfig "<toml>"

def read (content : String) : Except Fault Config :=
  match ofDocument? content with
  | some config => .ok config
  | none => .error rejected

/-- Reads a document from the bytes of a file, if there are any, which have to be
well-formed text. -/
def readBytes (bytes : Option (List UInt8)) : Except Fault Config :=
  match bytes.bind fun bytes => String.fromUTF8? ⟨bytes.toArray⟩ with
  | some content => read content
  | none => .error rejected

example : ofEntries? [("conflict_policy", .table .headed [("fail", .table .inline [])])] =
    some strict := by
  decide

end TraitComposition.Config
