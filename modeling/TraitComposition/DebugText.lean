import TraitComposition.Advice
import TraitComposition.Decimal.Shortest
import TraitComposition.Text.Quoted

/-!
Texts that show values to a developer. Where an address would stand, the texts say
`PTR`, and so they do for whatever in them looks like an address.
-/
namespace TraitComposition.DebugText

/-- Replaces everything that looks like an address, `0x` with the digits after it.
`inside` says whether the characters before were an address. -/
def maskAddresses : (inside : Bool) → List Char → List Char
  | _, [] => []
  | true, character :: rest =>
      if Text.isHexDigit character then maskAddresses true rest
      else character :: maskAddresses false rest
  | false, '0' :: 'x' :: rest => 'P' :: 'T' :: 'R' :: maskAddresses true rest
  | false, character :: rest => character :: maskAddresses false rest

def mask (content : String) : String :=
  String.ofList (maskAddresses false content.toList)

def braced (content : String) : String :=
  "\x7b" ++ content ++ "\x7d"

def commaSeparated (items : List String) : String :=
  String.intercalate ", " items

def listed (items : List String) : String :=
  "[" ++ commaSeparated items ++ "]"

def record (name : String) (fields : List (String × String)) : String :=
  name ++ " " ++ braced
    (" " ++ commaSeparated (fields.map fun field => field.1 ++ ": " ++ field.2) ++ " ")

def optional (content : Option String) : String :=
  match content with
  | none => "None"
  | some content => "Some(" ++ content ++ ")"

def flag (value : Bool) : String :=
  if value then "true" else "false"

variable (store : Store)

def procedure (reference : ProcedureId) : String :=
  "Function(" ++ (store.procedure reference).label.getD "anonymous" ++ "@PTR" ++
    (if store.isDecorator reference then ", decorator" else "") ++ ")"

def object (reference : ObjectId) : String :=
  "Object@PTR" ++ braced (commaSeparated (store.ownNames reference))

mutual
def value : Value → String
  | .undefined => "undefined"
  | .null => "null"
  | .boolean truth => flag truth
  | .number amount => Decimal.render amount
  | .text content => Text.quote content
  | .list items => listed (values items)
  | .object reference => object store reference
  | .procedure reference => procedure store reference

def values : List Value → List String
  | [] => []
  | item :: items => value item :: values items
end

def weave (weave : Weave) : String :=
  record "Weave" [("root", optional (weave.root.map (procedure store))),
    ("layers", listed (weave.layers.map fun _ => "Layer(PTR)"))]

def hook (hook : Option Hook) : String :=
  optional (hook.map fun _ => "InstallHook(PTR)")

def conflict (conflict : Conflict) : String :=
  record "Conflict" [("member", Text.quote conflict.member),
    ("existing", procedure store conflict.existing),
    ("incoming", procedure store conflict.incoming)]

def config (config : Config) : String :=
  record "ComposeConfig"
    [("conflict_policy", match config.conflictPolicy with
      | .warn => "Warn"
      | .fail => "Fail"),
    ("materialize_accessors", flag config.materializeAccessors)]

def composer (composer : Composer) : String :=
  "Composer " ++ braced (" config: " ++ config composer.config ++ ", .. ")

def compositeType (type : Composite) : String :=
  record "CompositeType" [("prototype", object store type.prototype),
    ("constructors", toString type.bases.constructors.length),
    ("prototypes", toString type.bases.prototypes.length)]

example : maskAddresses false ['@', '0', 'x', 'f', '0', ')', '0', 'x'] =
    ['@', 'P', 'T', 'R', ')', 'P', 'T', 'R'] := by
  decide

end TraitComposition.DebugText
