import Dialogue.Text.Alphabetic
import Dialogue.Text.Numeric

/-! The characters of names: letters, numbers and the underscore. -/
namespace Dialogue.Text

def isAlphabetic (c : Char) : Bool := alphabetic.contains c.toNat

def isAlphanumeric (c : Char) : Bool := isAlphabetic c || numeric.contains c.toNat

/-- A character of a name: block, variable and placeholder names are made of these. -/
def isWord (c : Char) : Bool := isAlphanumeric c || c == '_'

/-- A character of a line id or tag, where points join words. -/
def isMarker (c : Char) : Bool := isWord c || c == '.'

theorem isMarker_of_isWord {c : Char} (h : isWord c = true) : isMarker c = true := by
  simp [isMarker, h]

end Dialogue.Text
