import Dialogue.Expr.Evaluation
import Dialogue.Random
import Dialogue.Script

/-! Which alternative of a variation comes next. What was shown before is kept in memory, as a
cursor or, where alternatives are drawn at random, as the list of positions visited. -/
namespace Dialogue.Variation

def cursorKey (index : UInt64) : String := toString index.toNat ++ ".cursor"

def visitedKey (index : UInt64) : String := toString index.toNat ++ ".visited"

/-- A cursor as a position in a list. -/
def position? (cursor : Int64) : Option Nat :=
  if 0 ≤ cursor then some cursor.toNatClampNeg else none

/-- A position that was not visited, drawn at random. Once all were visited it depends on the mode
whether nothing is left, the last one stays, or all are left again. -/
def shuffle (index : UInt64) (mode : VariationMode) (length : Nat) (m : Memory) (random : UInt32) :
    Option Nat × Memory × UInt32 :=
  let visited := m.positions (visitedKey index)
  let full := length ≤ visited.length
  if full && mode == .shuffleOnce then (none, m, random)
  else if full && mode == .shuffleSequence then
    (position? ((m.count? (cursorKey index)).getD (-1)), m, random)
  else
    let visited := if full then [] else visited
    let remaining := (List.range length).filter fun i => !visited.contains i.toUInt64
    let drawn := Random.draw remaining.length random
    match remaining[drawn.1]? with
    | none => (none, m, drawn.2)
    | some pick =>
        let m := m.note (visitedKey index) (.positions (visited ++ [pick.toUInt64]))
        (some pick, m.note (cursorKey index) (.count (Int64.ofNat pick)), drawn.2)

/-- The alternative to show next, if any is left, out of `length` many. -/
def next (index : UInt64) (mode : VariationMode) (length : Nat) (m : Memory) (random : UInt32) :
    Option Nat × Memory × UInt32 :=
  let cursor := (m.count? (cursorKey index)).getD (-1)
  let last := Int64.ofNat length - 1
  let moveTo (pick : Int64) : Option Nat × Memory × UInt32 :=
    (position? pick, m.note (cursorKey index) (.count pick), random)
  match mode with
  | .sequence => moveTo (min (cursor + 1) last)
  | .once => if last ≤ cursor then (none, m, random) else moveTo (cursor + 1)
  | .cycle => if last ≤ cursor then moveTo 0 else moveTo (cursor + 1)
  | _ => shuffle index mode length m random

/-- Whether an alternative is nothing but a condition that does not hold. -/
def isUnmet (m : Memory) (alternative : Cell) : Bool :=
  match alternative.children with
  | [.conditional _ condition _] => !condition.holds m
  | _ => false

/-- Tries alternatives until one is not an unmet condition, at most `tries` times. -/
def pick (index : UInt64) (mode : VariationMode) (alternatives : List Cell) :
    Nat → Memory → UInt32 → Option Cell × Memory × UInt32
  | 0, m, random => (none, m, random)
  | tries + 1, m, random =>
      let (position, m, random) := next index mode alternatives.length m random
      match position.bind (alternatives[·]?) with
      | none => (none, m, random)
      | some alternative =>
          if isUnmet m alternative then pick index mode alternatives tries m random
          else (some alternative, m, random)

end Dialogue.Variation
