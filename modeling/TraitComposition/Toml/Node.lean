/-!
The tree of a TOML document, and the rules for what may be added to it. A table may
be extended by dotted keys or by headers, depending on how it came about.
-/
namespace TraitComposition.Toml

inductive TableKind where
  /-- Written in braces; complete. -/
  | inline
  /-- Named by a header. -/
  | headed
  /-- Implied by the header of a table inside it. -/
  | implied
  /-- Implied by a dotted key. -/
  | dotted
deriving DecidableEq

inductive Node where
  | text (content : String)
  | boolean (flag : Bool)
  /-- A number or a date. -/
  | scalar
  | array (items : List Node)
  | table (kind : TableKind) (entries : List (String × Node))
  /-- Tables with headers in double brackets, last first. -/
  | tables (items : List (List (String × Node)))
deriving Inhabited

def Node.isEmpty : Node → Bool
  | array items => items.isEmpty
  | table _ entries => entries.isEmpty
  | tables items => items.isEmpty
  | _ => false

abbrev Entries : Type :=
  List (String × Node)

namespace Entries

def put (key : String) (node : Node) : Entries → Entries
  | [] => [(key, node)]
  | entry :: entries =>
      if entry.1 = key then (key, node) :: entries else entry :: put key node entries

def updateLast (update : Entries → Option Entries) : List Entries → Option (List Entries)
  | [] => none
  | last :: earlier => (update last).map (· :: earlier)

/-- Adds a node under a new key, in the table that the parts before it lead to. Dotted
keys only lead into tables that are implied, and only end in tables made by dotted
keys. -/
def addDotted (key : String) (node : Node) :
    (path : List String) → (isDotted : Bool) → Entries → Option Entries
  | [], isDotted, entries =>
      if isDotted && (entries.lookup key).isNone then some ((key, node) :: entries) else none
  | part :: path, _, entries =>
      match entries.lookup part with
      | none => do
          some ((part, .table .dotted (← addDotted key node path true [])) :: entries)
      | some (.table .dotted inner) => do
          some (put part (.table .dotted (← addDotted key node path true inner)) entries)
      | some (.table .implied inner) => do
          some (put part (.table .implied (← addDotted key node path false inner)) entries)
      | some (.tables items) => do
          some (put part (.tables (← updateLast (addDotted key node path false) items)) entries)
      | some _ => none

def add (path : List String) (key : String) (node : Node) (entries : Entries) :
    Option Entries :=
  addDotted key node path true entries

/-- Changes the table that the parts of a header lead to; tables on the way that are
not there yet are implied. -/
def updateAt (update : Entries → Option Entries) : (path : List String) → Entries → Option Entries
  | [], entries => update entries
  | part :: path, entries =>
      match entries.lookup part with
      | none => do
          some ((part, .table .implied (← updateAt update path [])) :: entries)
      | some (.table .inline _) => none
      | some (.table kind inner) => do
          some (put part (.table kind (← updateAt update path inner)) entries)
      | some (.tables items) => do
          some (put part (.tables (← updateLast (updateAt update path) items)) entries)
      | some _ => none

/-- What the entries of a table opened by a header start with: those of an implied
table of that name, which the header now names, or none. -/
def opened (key : String) (entries : Entries) : Option Entries :=
  match entries.lookup key with
  | none => some []
  | some (.table .implied inner) => some inner
  | some _ => none

def closeTable (entries : Entries) (key : String) (table : Entries) : Option Entries := do
  let _ ← opened key entries
  some (put key (.table .headed table) entries)

def closeTables (entries : Entries) (key : String) (table : Entries) : Option Entries :=
  match entries.lookup key with
  | none => some ((key, .tables [table]) :: entries)
  | some (.tables items) => some (put key (.tables (table :: items)) entries)
  | some _ => none

end Entries

example : ((Entries.add ["a"] "b" .scalar []).bind (Entries.add ["a"] "b" .scalar)).isNone =
    true := by
  decide

end TraitComposition.Toml
