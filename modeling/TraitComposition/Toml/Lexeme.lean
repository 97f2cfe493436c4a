import TraitComposition.Text.Hexadecimal

/-!
The smallest parts of a TOML document: blanks, comments, line ends, keys and
strings. A reader takes characters from the front and answers with what it read
and the characters left over, or with nothing if they do not fit.
-/
namespace TraitComposition.Toml

abbrev Reader (α : Type) : Type :=
  List Char → Option (α × List Char)

/-! ### Blanks, comments and line ends -/

def isSpace (character : Char) : Bool :=
  character = ' ' || character = '\t'

def skipSpaces (input : List Char) : List Char :=
  input.dropWhile isSpace

def lineEnd? : List Char → Option (List Char)
  | '\n' :: rest | '\r' :: '\n' :: rest => some rest
  | _ => none

/-- A character that may stand in a comment or, but for what ends it, in a text: a
tab, or anything that is no control. -/
def isPlain (character : Char) : Bool :=
  character = '\t' || (' ' ≤ character && character ≠ '\x7f')

def skipComment : List Char → List Char
  | '#' :: rest => rest.dropWhile isPlain
  | input => input

/-- What may follow a complete entry: blanks, a comment, and the end of the line or of
the document. -/
def finishLine (input : List Char) : Option (List Char) :=
  match skipComment (skipSpaces input) with
  | [] => some []
  | rest => lineEnd? rest

/-- Skips blanks, comments and line ends; `inComment` says whether the input starts
inside a comment. -/
def skipFillerFrom : (inComment : Bool) → List Char → List Char
  | _, [] => []
  | inComment, character :: rest =>
      if inComment && isPlain character then skipFillerFrom true rest
      else if isSpace character then skipFillerFrom false rest
      else if character = '#' then skipFillerFrom true rest
      else if character = '\n' then skipFillerFrom false rest
      else
        match character, rest with
        | '\r', '\n' :: rest => skipFillerFrom false rest
        | _, _ => character :: rest

def skipFiller (input : List Char) : List Char :=
  skipFillerFrom false input

example : skipFiller ['#', 'a', ' ', '\r', '\n', '\t', '#', '\x00'] = ['\x00'] := by
  decide

/-! ### Strings -/

/-- The character with a number of hexadecimal digits; surrogates and numbers that are
too large have none. -/
def unicodeCharacter (digits : List Char) : Option Char := do
  let code ← Text.hexNumber? digits
  if code.isValidChar then some (.ofNat code) else none

def escapedLetter : Char → Option Char
  | 'b' => some '\x08'
  | 't' => some '\t'
  | 'n' => some '\n'
  | 'f' => some '\x0c'
  | 'r' => some '\r'
  | '"' => some '"'
  | '\\' => some '\\'
  | _ => none

/-- The rest of a text on one line, after its opening quote and the characters `read`,
last first. In a basic text a backslash starts an escape. -/
def lineText (quote : Char) (read : List Char) : Reader (List Char)
  | [] => none
  | character :: rest =>
      if character = quote then
        some (read.reverse, rest)
      else if character = '\\' && quote = '"' then
        match rest with
        | 'u' :: a :: b :: c :: d :: rest => do
            lineText quote ((← unicodeCharacter [a, b, c, d]) :: read) rest
        | 'U' :: a :: b :: c :: d :: e :: f :: g :: h :: rest => do
            lineText quote ((← unicodeCharacter [a, b, c, d, e, f, g, h]) :: read) rest
        | letter :: rest => do lineText quote ((← escapedLetter letter) :: read) rest
        | [] => none
      else if isPlain character then
        lineText quote (character :: read) rest
      else
        none

/-- Whether a line ends here, blanks aside. After a backslash this continues the line:
all blanks and line ends that follow are skipped. -/
def endsLine (input : List Char) : Bool :=
  (lineEnd? (skipSpaces input)).isSome

def quoteRun (quote : Char) (input : List Char) : Nat :=
  (input.takeWhile (· = quote)).length

/-- The rest of a text over several lines, after its three opening quotes and the
characters `read`, last first. Up to two quotes may stand before the three that close
it. `continuing` says whether a line is being continued. -/
def linesText (quote : Char) : (continuing : Bool) → (read : List Char) → Reader (List Char)
  | _, _, [] => none
  | continuing, read, character :: rest =>
      if continuing && isSpace character then
        linesText quote true read rest
      else if character = '\n' then
        linesText quote continuing (if continuing then read else '\n' :: read) rest
      else if character = quote then
        let run := quoteRun quote (character :: rest)
        if run < 3 then
          linesText quote false (quote :: read) rest
        else if run ≤ 5 then
          some (read.reverse ++ List.replicate (run - 3) quote, rest.drop (run - 1))
        else
          none
      else if character = '\\' && quote = '"' then
        if endsLine rest then linesText quote true read rest
        else
          match rest with
          | 'u' :: a :: b :: c :: d :: rest => do
              linesText quote false ((← unicodeCharacter [a, b, c, d]) :: read) rest
          | 'U' :: a :: b :: c :: d :: e :: f :: g :: h :: rest => do
              linesText quote false
                ((← unicodeCharacter [a, b, c, d, e, f, g, h]) :: read) rest
          | letter :: rest => do
              linesText quote false ((← escapedLetter letter) :: read) rest
          | [] => none
      else if isPlain character then
        linesText quote false (character :: read) rest
      else
        match character, rest with
        | '\r', '\n' :: rest =>
            linesText quote continuing (if continuing then read else '\n' :: read) rest
        | _, _ => none

def quotedText : Reader (List Char)
  | '"' :: rest => lineText '"' [] rest
  | '\'' :: rest => lineText '\'' [] rest
  | _ => none

/-- A text over several lines, after its three opening quotes. A line end right after
them is skipped. -/
def blockText (quote : Char) : Reader (List Char) := fun input =>
  linesText quote false [] ((lineEnd? input).getD input)

def text : Reader (List Char)
  | '"' :: '"' :: '"' :: rest => blockText '"' rest
  | '\'' :: '\'' :: '\'' :: rest => blockText '\'' rest
  | input => quotedText input

/-! ### Keys -/

def isBareKey (character : Char) : Bool :=
  character.isAlphanum || character = '_' || character = '-'

def simpleKey (input : List Char) : Option (String × List Char) :=
  match input with
  | '"' :: _ | '\'' :: _ => (quotedText input).map fun read => (.ofList read.1, read.2)
  | _ =>
      let key := input.takeWhile isBareKey
      if key.isEmpty then none else some (.ofList key, input.dropWhile isBareKey)

def keyLimit : Nat := 80

def dottedKey : (limit : Nat) → Reader (List String)
  | 0, _ => none
  | limit + 1, input => do
      let (key, rest) ← simpleKey (skipSpaces input)
      match skipSpaces rest with
      | '.' :: rest => do
          let (keys, rest) ← dottedKey limit rest
          some (key :: keys, rest)
      | rest => some ([key], rest)

def key : Reader (List String) :=
  dottedKey (keyLimit - 1)

example : key ['a', ' ', '.', '"', 'b', '"', '='] = some (["a", "b"], ['=']) := by
  decide

end TraitComposition.Toml
