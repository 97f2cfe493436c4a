import TraitComposition.Fault

/-!
Why settings cannot be read from a path at which there is no file. The names of a path
are followed from the left, so what is wrong with the first one decides.
-/
namespace TraitComposition.Config

inductive PathProblem where
  /-- The path holds the character that ends paths. -/
  | endsEarly
  /-- The path, or a name in it, has too many bytes. -/
  | tooLong
  | notFound
  /-- The path leads to a directory. -/
  | directory
deriving DecidableEq

def PathProblem.explanation : PathProblem → String
  | endsEarly => "file name contained an unexpected NUL byte"
  | tooLong => "File name too long (os error 36)"
  | notFound => "No such file or directory (os error 2)"
  | directory => "Is a directory (os error 21)"

def pathLimit : Nat := 4095

def nameLimit : Nat := 255

def isStep (part : String) : Bool :=
  part = "" || part = "." || part = ".."

def pathProblem (path : String) : PathProblem :=
  if '\x00' ∈ path.toList then .endsEarly
  else if path = "" then .notFound
  else if pathLimit < path.utf8ByteSize then .tooLong
  else
    match (path.splitOn "/").find? fun part => !isStep part with
    | none => .directory
    | some name => if nameLimit < name.utf8ByteSize then .tooLong else .notFound

def missingFile (path : String) : Fault :=
  .invalidConfig <|
    "failed to read config file " ++ path ++ ": " ++ (pathProblem path).explanation

example : pathProblem "" = .notFound := by
  decide

end TraitComposition.Config
