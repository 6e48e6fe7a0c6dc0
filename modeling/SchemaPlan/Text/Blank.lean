/-!
# Blank characters

The characters with the Unicode property `White_Space`, and trimming by it.
-/

namespace SchemaPlan.Text

/-- The 25 characters of `White_Space`. The zero-width space and the byte order mark are not
among them. -/
def isBlank (c : Char) : Bool :=
  let n := c.toNat
  (0x9 ≤ n && n ≤ 0xD) || n == 0x20 || n == 0x85 || n == 0xA0 || n == 0x1680 ||
    (0x2000 ≤ n && n ≤ 0x200A) || n == 0x2028 || n == 0x2029 || n == 0x202F || n == 0x205F ||
    n == 0x3000

def trimStart (cs : List Char) : List Char := cs.dropWhile isBlank

def trimEnd (cs : List Char) : List Char := (cs.reverse.dropWhile isBlank).reverse

def trim (s : String) : String := .ofList (trimEnd (trimStart s.toList))

@[simp] theorem toList_trim (s : String) : (trim s).toList = trimEnd (trimStart s.toList) := by
  simp [trim]

/-- The text between an opening and a closing that do not overlap. -/
def between? (opening closing : String) (s : String) : Option String :=
  ((opening.toList.isPrefixOf? s.toList).bind closing.toList.isSuffixOf?).map String.ofList

end SchemaPlan.Text
