import TraitComposition.Toml.Node
import TraitComposition.Toml.Scalar

/-!
Reading TOML documents: values, entries and tables.
-/
namespace TraitComposition.Toml

/-! ### Values -/

def nestingLimit : Nat := 80

structure Entry where
  path : List String
  key : String
  node : Node

def entry (value : Reader Node) : Reader Entry := fun input => do
  let (keys, rest) ← key input
  let rest ← literal '=' rest
  let (node, rest) ← value (skipSpaces rest)
  some (⟨keys.dropLast, keys.getLastD "", node⟩, rest)

def arrayItems (value : Reader Node) : (limit : Nat) → Reader (List Node)
  | 0, _ => none
  | limit + 1, input =>
      match skipFiller input with
      | ']' :: rest => some ([], rest)
      | input => do
          let (item, rest) ← value input
          match skipFiller rest with
          | ',' :: rest => do
              let (items, rest) ← arrayItems value limit rest
              some (item :: items, rest)
          | ']' :: rest => some ([item], rest)
          | _ => none

def inlineEntries (value : Reader Node) : (limit : Nat) → Reader (List Entry)
  | 0, _ => none
  | limit + 1, input => do
      let (first, rest) ← entry value input
      match skipSpaces rest with
      | ',' :: rest => do
          let (entries, rest) ← inlineEntries value limit rest
          some (first :: entries, rest)
      | '\x7d' :: rest => some ([first], rest)
      | _ => none

def addAll (entries : Entries) : List Entry → Option Entries
  | [] => some entries
  | first :: rest => do addAll (← entries.add first.path first.key first.node) rest

/-- A value, with arrays and braces nested less than `depth` deep and of less than
`limit` items each. -/
def value (limit : Nat) : (depth : Nat) → Reader Node
  | 0, _ => none
  | depth + 1, input =>
      match input with
      | '"' :: _ | '\'' :: _ =>
          (text input).map fun read => (.text (.ofList read.1), read.2)
      | 't' :: 'r' :: 'u' :: 'e' :: rest => some (.boolean true, rest)
      | 'f' :: 'a' :: 'l' :: 's' :: 'e' :: rest => some (.boolean false, rest)
      | '[' :: rest => do
          if depth = 0 then none
          else
            let (items, rest) ← arrayItems (value limit depth) limit rest
            some (.array items, rest)
      | '\x7b' :: rest => do
          if depth = 0 then none
          else
            match skipSpaces rest with
            | '\x7d' :: rest => some (.table .inline [], rest)
            | rest => do
                let (entries, rest) ← inlineEntries (value limit depth) limit rest
                some (.table .inline (← addAll [] entries), rest)
      | _ => (scalar input).map fun rest => (.scalar, rest)

/-! ### Tables -/

inductive Open where
  | root
  | table (path : List String) (key : String)
  | tables (path : List String) (key : String)

structure Draft where
  finished : Entries := []
  current : Entries := []
  place : Open := .root

def Draft.close (draft : Draft) : Option Entries :=
  match draft.place with
  | .root => some draft.current
  | .table path key => Entries.updateAt (·.closeTable key draft.current) path draft.finished
  | .tables path key =>
      Entries.updateAt (·.closeTables key draft.current) path draft.finished

def entriesAt : (path : List String) → Entries → Option Entries
  | [], entries => some entries
  | part :: path, entries =>
      match entries.lookup part with
      | some (.table _ inner) => entriesAt path inner
      | some (.tables items) => items.head?.bind (entriesAt path)
      | _ => none

def Draft.openTable (keys : List String) (draft : Draft) : Option Draft := do
  let path := keys.dropLast
  let key := keys.getLastD ""
  let finished ← Entries.updateAt some path (← draft.close)
  let current ← (← entriesAt path finished).opened key
  some ⟨finished, current, .table path key⟩

def Draft.openTables (keys : List String) (draft : Draft) : Option Draft := do
  let path := keys.dropLast
  let key := keys.getLastD ""
  let finished ← Entries.updateAt some path (← draft.close)
  match (← entriesAt path finished).lookup key with
  | none | some (.tables _) => some ⟨finished, [], .tables path key⟩
  | some _ => none

def Draft.add (new : Entry) (draft : Draft) : Option Draft := do
  some { draft with current := ← draft.current.add new.path new.key new.node }

def header (draft : Draft) : Reader Draft
  | '[' :: '[' :: rest => do
      let (keys, rest) ← key rest
      let rest ← literal ']' (← literal ']' rest)
      some (← draft.openTables keys, rest)
  | '[' :: rest => do
      let (keys, rest) ← key rest
      some (← draft.openTable keys, ← literal ']' rest)
  | _ => none

/-- The lines of a document, the next one and those after it. Every line and every
item takes a character, so that `limit`, which is more than there are, bounds both. -/
def lines (limit : Nat) : (left : Nat) → Draft → List Char → Option Draft
  | 0, _, _ => none
  | left + 1, draft, input =>
      match skipFiller input with
      | [] => some draft
      | '[' :: rest => do
          let (draft, rest) ← header draft ('[' :: rest)
          lines limit left draft (← finishLine rest)
      | input => do
          let (new, rest) ← entry (value limit nestingLimit) input
          lines limit left (← draft.add new) (← finishLine rest)

/-- The top-level entries of a document. A byte order mark may stand before it. -/
def read (content : String) : Option Entries := do
  let input := match content.toList with
    | '\ufeff' :: rest => rest
    | input => input
  let limit := input.length + 1
  (← lines limit limit {} input).close

end TraitComposition.Toml
