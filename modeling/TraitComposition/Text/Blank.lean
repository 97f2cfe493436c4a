/-!
Blank characters, and texts without the blanks around them.
-/
namespace TraitComposition.Text

def isBlank (character : Char) : Bool :=
  let code := character.toNat
  (9 ≤ code && code ≤ 13) || code == 0x20 || code == 0x85 || code == 0xA0 ||
    code == 0x1680 || (0x2000 ≤ code && code ≤ 0x200A) || code == 0x2028 ||
    code == 0x2029 || code == 0x202F || code == 0x205F || code == 0x3000

def trimCharacters (characters : List Char) : List Char :=
  ((characters.dropWhile isBlank).reverse.dropWhile isBlank).reverse

def trim (content : String) : String :=
  String.ofList (trimCharacters content.toList)

/-- Lower case of the twenty-six basic letters; every other character stays. -/
def lowerBasic (content : String) : String :=
  String.ofList (content.toList.map Char.toLower)

example : trimCharacters ['\t', 'o', ' ', 'n', '\u3000'] = ['o', ' ', 'n'] := by
  decide

end TraitComposition.Text
