import Dialogue.Json
import Dialogue.Number.Layout
import Dialogue.Number.Reading
import Dialogue.Text.Blank

/-! The values that variables hold and expressions have. -/
namespace Dialogue

inductive Value where
  | null
  | bool (b : Bool)
  | number (x : Float)
  | string (s : String)

namespace Value

instance : Inhabited Value := ⟨null⟩

/-- Null, false, zero, NaN and the empty string do not hold. -/
def truthy : Value → Bool
  | null => false
  | bool b => b
  | number x => x != 0.0 && !x.isNaN
  | string s => !s.isEmpty

/-- Null is zero, truth is one, and text is read as a number: nothing but blanks as zero, what is
no number as NaN. -/
def toNumber : Value → Float
  | null => 0.0
  | bool b => if b then 1.0 else 0.0
  | number x => x
  | string s =>
      let trimmed := Text.trim s.toList
      if trimmed.isEmpty then 0.0 else (Number.read? trimmed).getD Number.nan

def text : Value → String
  | null => "null"
  | bool b => if b then "true" else "false"
  | number x => Number.Layout.shown.render x
  | string s => s

/-- Values of different kinds are never the same. -/
def same : Value → Value → Bool
  | null, null => true
  | bool a, bool b => a == b
  | number x, number y => x == y
  | string s, string t => s == t
  | _, _ => false

def compareNumbers (x y : Float) : Option Ordering :=
  if x < y then some .lt
  else if x == y then some .eq
  else if y < x then some .gt
  else none

/-- Two texts compare by their characters, all else by number. NaN compares with nothing. -/
def compare? : Value → Value → Option Ordering
  | string s, string t => some (compare s t)
  | a, b => compareNumbers a.toNumber b.toNumber

/-- Text absorbs what it is added to. -/
def add : Value → Value → Value
  | string s, b => string (s ++ b.text)
  | a, string t => string (a.text ++ t)
  | a, b => number (a.toNumber + b.toNumber)

def toJson : Value → Json
  | null => .null
  | bool b => .bool b
  | number x => .number x
  | string s => .str s

def ofJson? : Json → Option Value
  | .null => some null
  | .bool b => some (bool b)
  | .num n => some (number n.toFloat)
  | .str s => some (string s)
  | _ => none

@[simp] theorem ofJson?_toJson (v : Value) : ofJson? v.toJson = some v := by
  cases v <;> rfl

end Value
end Dialogue
