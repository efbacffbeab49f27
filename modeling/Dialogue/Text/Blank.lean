import Dialogue.Text.CharClass

/-! White space as Unicode defines it, trimming and splitting at it. -/
namespace Dialogue.Text

/-- The property White_Space of Unicode 17. -/
def blank : CharClass :=
  [(0x9, 0xD), (0x20, 0x20), (0x85, 0x85), (0xA0, 0xA0), (0x1680, 0x1680), (0x2000, 0x200A),
   (0x2028, 0x2029), (0x202F, 0x202F), (0x205F, 0x205F), (0x3000, 0x3000)]

example : blank.ascending = true ∧ blank.count = 25 := by decide

def isBlank (c : Char) : Bool := blank.contains c.toNat

def trimEnd (text : List Char) : List Char := (text.reverse.dropWhile isBlank).reverse

/-- The text without the white space at both of its ends. -/
def trim (text : List Char) : List Char := trimEnd (text.dropWhile isBlank)

/-- The maximal runs of characters between white space, with the run being read in front. -/
def wordsFrom (current : List Char) : List Char → List (List Char)
  | [] => if current.isEmpty then [] else [current.reverse]
  | c :: rest =>
      if isBlank c then
        if current.isEmpty then wordsFrom [] rest else current.reverse :: wordsFrom [] rest
      else wordsFrom (c :: current) rest

/-- The maximal runs of characters between white space. -/
def words (text : List Char) : List (List Char) := wordsFrom [] text

end Dialogue.Text
