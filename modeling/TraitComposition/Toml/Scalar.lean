import TraitComposition.Toml.Lexeme

/-!
Numbers and dates of a TOML document. Only whether they are well formed matters
here, so their readers answer with nothing but the characters left over.
-/
namespace TraitComposition.Toml

abbrev Recognizer : Type :=
  List Char → Option (List Char)

/-! ### Digits -/

def moreDigits (isDigit : Char → Bool) : List Char → List Char × List Char
  | '_' :: digit :: rest =>
      if isDigit digit then
        let (digits, rest) := moreDigits isDigit rest
        (digit :: digits, rest)
      else
        ([], '_' :: digit :: rest)
  | digit :: rest =>
      if isDigit digit then
        let (digits, rest) := moreDigits isDigit rest
        (digit :: digits, rest)
      else
        ([], digit :: rest)
  | [] => ([], [])

def digits (isDigit : Char → Bool) : Reader (List Char)
  | [] => none
  | digit :: rest =>
      if isDigit digit then
        let (digits, rest) := moreDigits isDigit rest
        some (digit :: digits, rest)
      else
        none

def isBinaryDigit (character : Char) : Bool :=
  character = '0' || character = '1'

def isOctalDigit (character : Char) : Bool :=
  '0' ≤ character && character ≤ '7'

def digitsValue (base : Nat) (digits : List Char) : Nat :=
  digits.foldl (fun total digit => base * total + (Text.hexDigit? digit).getD 0) 0

def dropZeros (digits : List Char) : List Char :=
  digits.dropWhile (· = '0')

/-- The value of digits if it has at most sixty-four bits; more than sixty-four digits
beside leading zeros never do. -/
def wordValue? (base : Nat) (digits : List Char) : Option Nat :=
  let digits := dropZeros digits
  if (digits.drop 64).isEmpty then some (digitsValue base digits) else none

def fixedDigits (count : Nat) (input : List Char) : Option (Nat × List Char) :=
  let digits := input.take count
  if digits.length = count && digits.all Char.isDigit then
    some (digitsValue 10 digits, input.drop count)
  else
    none

def twoDigits (low high : Nat) : Recognizer := fun input => do
  let (value, rest) ← fixedDigits 2 input
  if low ≤ value && value ≤ high then some rest else none

def literal (character : Char) : Recognizer
  | [] => none
  | first :: rest => if first = character then some rest else none

/-! ### Dates and times -/

def isLeapYear (year : Nat) : Bool :=
  year % 4 = 0 && (year % 100 ≠ 0 || year % 400 = 0)

def daysInMonth (year month : Nat) : Nat :=
  if month = 2 then if isLeapYear year then 29 else 28
  else if month ∈ [4, 6, 9, 11] then 30
  else 31

def date : Recognizer := fun input => do
  let (year, rest) ← fixedDigits 4 input
  let (month, rest) ← fixedDigits 2 (← literal '-' rest)
  let (day, rest) ← fixedDigits 2 (← literal '-' rest)
  if 1 ≤ month && month ≤ 12 && 1 ≤ day && day ≤ daysInMonth year month then some rest
  else none

def fraction : Recognizer
  | '.' :: rest =>
      if (rest.takeWhile Char.isDigit).isEmpty then none
      else some (rest.dropWhile Char.isDigit)
  | input => some input

def time : Recognizer := fun input => do
  let rest ← literal ':' (← twoDigits 0 23 input)
  let rest ← literal ':' (← twoDigits 0 59 rest)
  fraction (← twoDigits 0 60 rest)

def offset : Recognizer
  | 'Z' :: rest | 'z' :: rest => some rest
  | '+' :: rest | '-' :: rest => do twoDigits 0 59 (← literal ':' (← twoDigits 0 23 rest))
  | input => some input

def startsTime : List Char → Bool
  | first :: second :: ':' :: _ => first.isDigit && second.isDigit
  | _ => false

def dateTime (input : List Char) : Option (List Char) :=
  if startsTime input then
    time input
  else do
    let rest ← date input
    match rest with
    | 'T' :: later | 't' :: later | ' ' :: later =>
        if startsTime later then offset (← time later) else some rest
    | _ => some rest

/-! ### Numbers -/

def skipSign : List Char → Bool × List Char
  | '-' :: rest => (true, rest)
  | '+' :: rest => (false, rest)
  | input => (false, input)

def wholeDigits : Reader (List Char)
  | '0' :: rest => some (['0'], rest)
  | input => digits Char.isDigit input

def decimals : Reader (List Char)
  | '.' :: rest => digits Char.isDigit rest
  | input => some ([], input)

/-- How large the digits make an exponent: those after the ones that bring it to two to
the power of sixteen no longer count. -/
def exponentSize (digits : List Char) : Nat :=
  digits.foldl (fun size digit =>
    if size < 65536 then 10 * size + (Text.hexDigit? digit).getD 0 else size) 0

def exponent : Reader Int
  | 'e' :: rest | 'E' :: rest => do
      let (negative, rest) := skipSign rest
      let (read, rest) ← digits Char.isDigit rest
      let size : Int := exponentSize read
      some (if negative then -size else size, rest)
  | input => some (0, input)

/-- Halfway from the largest double to where the next one would be. From here on
decimals round to infinity. -/
def overflowThreshold : Nat :=
  Nat.pow 2 1024 - Nat.pow 2 970

/-- Whether a decimal, its digits and a power of ten, rounds to infinity. The threshold
has 309 digits, so the first 309 digits before the point decide. -/
def overflows (digits : List Char) (power : Int) : Bool :=
  let digits := dropZeros digits
  let size : Int := digits.length + power
  if digits.isEmpty || size < 309 then false
  else if 309 < size then true
  else
    let leading := digits.take 309
    overflowThreshold ≤ digitsValue 10 leading * Nat.pow 10 (309 - leading.length)

/-- A number where a point or an exponent follows its first digits. A positive one must
not be too large. -/
def float (input : List Char) : Option (List Char) := do
  let (negative, rest) := skipSign input
  let (whole, rest) ← wholeDigits rest
  let (places, rest) ← decimals rest
  let (power, rest) ← exponent rest
  if !negative && overflows (whole ++ places) (power - places.length) then none
  else some rest

def specialFloat (input : List Char) : Option (List Char) :=
  match (skipSign input).2 with
  | 'i' :: 'n' :: 'f' :: rest | 'n' :: 'a' :: 'n' :: rest => some rest
  | _ => none

def basedInteger (base : Nat) (isDigit : Char → Bool) (input : List Char) :
    Option (List Char) := do
  let (read, rest) ← digits isDigit input
  if (← wordValue? base read) < Nat.pow 2 63 then some rest else none

def integer (input : List Char) : Option (List Char) :=
  match input with
  | '0' :: 'x' :: rest => basedInteger 16 Text.isHexDigit rest
  | '0' :: 'o' :: rest => basedInteger 8 isOctalDigit rest
  | '0' :: 'b' :: rest => basedInteger 2 isBinaryDigit rest
  | _ => do
      let (negative, rest) := skipSign input
      let (read, rest) ← wholeDigits rest
      let size ← wordValue? 10 read
      if size < Nat.pow 2 63 || (negative && size = Nat.pow 2 63) then some rest else none

def startsDate (input : List Char) : Bool :=
  (fixedDigits 4 input).any fun read => read.2.head? = some '-'

def scalar (input : List Char) : Option (List Char) :=
  if startsDate input || startsTime input then dateTime input
  else
    let unsigned := (skipSign input).2
    if unsigned.head? = some 'i' || unsigned.head? = some 'n' then specialFloat input
    else
      match (wholeDigits unsigned).map (·.2.head?) with
      | some (some '.') | some (some 'e') | some (some 'E') => float input
      | _ => integer input

example : (scalar ['1', '9', '7', '9', '-', '0', '2', '-', '2', '9', '\n']).isNone = true := by
  decide

end TraitComposition.Toml
