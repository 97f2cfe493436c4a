import TraitComposition.Text.Escaped
import TraitComposition.Text.Hexadecimal

/-!
Texts in quotes, with everything that is not plainly visible spelt out.
-/
namespace TraitComposition.Text

def quoteCharacter (character : Char) : List Char :=
  if character = '\x00' then ['\\', '0']
  else if character = '\t' then ['\\', 't']
  else if character = '\n' then ['\\', 'n']
  else if character = '\r' then ['\\', 'r']
  else if character = '"' then ['\\', '"']
  else if character = '\\' then ['\\', '\\']
  else if isEscaped character then
    ['\\', 'u', '\x7b'] ++ hexDigits character.toNat ++ ['\x7d']
  else [character]

def quote (content : String) : String :=
  String.ofList ('"' :: content.toList.flatMap quoteCharacter ++ ['"'])

example : ['"', 'a', '\x1b'].flatMap quoteCharacter =
    ['\\', '"', 'a', '\\', 'u', '\x7b', '1', 'b', '\x7d'] := by
  decide

end TraitComposition.Text
