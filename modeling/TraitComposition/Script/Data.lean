/-!
The data that scripts are written in and answered with.
-/
namespace TraitComposition.Script

inductive Data where
  | null
  | boolean (flag : Bool)
  /-- A number written without a point and without an exponent. -/
  | integer (amount : Int)
  | number (amount : Float)
  | text (content : String)
  | list (items : List Data)
  | record (fields : List (String × Data))
deriving Inhabited

namespace Data

def field? (data : Data) (name : String) : Option Data :=
  match data with
  | record fields => fields.lookup name
  | _ => none

def asText : Data → Option String
  | text content => some content
  | _ => none

def asList : Data → Option (List Data)
  | list items => some items
  | _ => none

def asNatural : Data → Option Nat
  | integer (.ofNat amount) => some amount
  | _ => none

def isTrue : Data → Bool
  | boolean flag => flag
  | _ => false

end Data

end TraitComposition.Script
