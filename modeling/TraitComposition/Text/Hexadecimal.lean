/-!
Numbers and bytes in hexadecimal. Digits are read in either case and written in lower
case.
-/
namespace TraitComposition.Text

def hexDigit? (character : Char) : Option Nat :=
  if character.isDigit then some (character.toNat - '0'.toNat)
  else if 'a' ≤ character && character ≤ 'f' then some (character.toNat - 'a'.toNat + 10)
  else if 'A' ≤ character && character ≤ 'F' then some (character.toNat - 'A'.toNat + 10)
  else none

def isHexDigit (character : Char) : Bool :=
  (hexDigit? character).isSome

def hexNumber? (digits : List Char) : Option Nat := do
  some ((← digits.mapM hexDigit?).foldl (fun total digit => 16 * total + digit) 0)

def hexDigits (amount : Nat) : List Char :=
  Nat.toDigits 16 amount

def hexBytes? : List Char → Option (List UInt8)
  | [] => some []
  | high :: low :: rest => do
      let byte ← hexNumber? [high, low]
      some (.ofNat byte :: (← hexBytes? rest))
  | [_] => none

example : hexNumber? ['1', 'F'] = some 31 ∧ hexDigits 31 = ['1', 'f'] := by
  decide

example : hexBytes? ['f', 'f', '0', 'A'] = some [255, 10] := by
  decide

end TraitComposition.Text
