import TraitComposition.Config
import TraitComposition.Value

/-!
Conflicts between unrelated methods, and who is told about them.
-/
namespace TraitComposition

/-- Two unrelated sources supplied the same member and no later one overrode it. -/
structure Conflict where
  member : String
  /-- The definition that was there before. -/
  existing : ProcedureId
  /-- The definition that came later. -/
  incoming : ProcedureId
deriving DecidableEq, Inhabited

def Conflict.message (conflict : Conflict) : String :=
  conflictMessage conflict.member

/-- Who hears of conflicts: the error log, or a collector. Collectors of one name
are told apart by a serial number. -/
inductive Observer where
  | errorLog
  | collector (name : String) (serial : Nat)
deriving DecidableEq, Inhabited

/-- The settings under which sources are composed and the observer that is told
about conflicts. -/
structure Composer where
  config : Config := {}
  observer : Observer := .errorLog
deriving DecidableEq, Inhabited

/-- What was reported, in order: values noted by user code, and conflicts. -/
inductive Report where
  | note (value : Value)
  | conflict (observer : Observer) (conflict : Conflict)
deriving Inhabited

end TraitComposition
