import Std.Data.HashMap
import TraitComposition.Script.Basic
import TraitComposition.Text.Hexadecimal

/-!
Values as answers. Objects and procedures are numbered, each kind by itself, in the
order in which answers first mention them.
-/
namespace TraitComposition.Script

abbrev Numbers : Type :=
  Std.HashMap Nat Nat

/-- The number of a thing; one that was not mentioned before has the next number. -/
def Numbers.number (numbers : Numbers) (index : Nat) : Nat × Numbers :=
  match numbers[index]? with
  | some number => (number, numbers)
  | none => (numbers.size, numbers.insert index numbers.size)

structure Mentions where
  objects : Numbers := {}
  procedures : Numbers := {}
deriving Inhabited

def naturalData (amount : Nat) : Data :=
  .integer amount

namespace Mentions

def numberObject (reference : ObjectId) (mentions : Mentions) : Nat × Mentions :=
  let (number, objects) := mentions.objects.number reference.index
  (number, { mentions with objects := objects })

def numberProcedure (reference : ProcedureId) (mentions : Mentions) : Nat × Mentions :=
  let (number, procedures) := mentions.procedures.number reference.index
  (number, { mentions with procedures := procedures })

end Mentions

def wordDigits (bits : Nat) : String :=
  let digits := Text.hexDigits bits
  String.ofList (List.replicate (16 - digits.length) '0' ++ digits)

/-- A number is answered as itself where it is a whole number below two to the power
of fifty-three, and by its bits elsewhere. -/
def numberData (amount : Float) : Data :=
  if amount.isNaN then
    .record [("bits", .text "7ff8000000000000")]
  else if amount.floor == amount && amount.abs < 9007199254740992 &&
      !(amount == 0 && amount.toBits != 0) then
    .integer amount.toInt64.toInt
  else
    .record [("bits", .text (wordDigits amount.toBits.toNat))]

def procedureTags (store : Store) (reference : ProcedureId) : String :=
  (if store.isRequired reference then "r" else "") ++
    (if store.isDecorator reference then "d" else "") ++
    (match (store.procedure reference).body with
      | .composite _ | .constructible .. => "c"
      | _ => "")

def procedureData (store : Store) (reference : ProcedureId) (number : Nat) : Data :=
  .record [("f", naturalData number),
    ("name", match (store.procedure reference).label with
      | some label => .text label
      | none => .null),
    ("tags", .text (procedureTags store reference))]

mutual
def valueData (store : Store) : Value → Mentions → Data × Mentions
  | .undefined, mentions => (.record [("u", naturalData 1)], mentions)
  | .null, mentions => (.null, mentions)
  | .boolean flag, mentions => (.boolean flag, mentions)
  | .number amount, mentions => (numberData amount, mentions)
  | .text content, mentions => (.text content, mentions)
  | .list items, mentions =>
      let (data, mentions) := itemsData store items mentions
      (.list data, mentions)
  | .object reference, mentions =>
      let (number, mentions) := mentions.numberObject reference
      (.record [("o", naturalData number)], mentions)
  | .procedure reference, mentions =>
      let (number, mentions) := mentions.numberProcedure reference
      (procedureData store reference number, mentions)

def itemsData (store : Store) : List Value → Mentions → List Data × Mentions
  | [], mentions => ([], mentions)
  | item :: items, mentions =>
      let (data, mentions) := valueData store item mentions
      let (others, mentions) := itemsData store items mentions
      (data :: others, mentions)
end

end TraitComposition.Script
