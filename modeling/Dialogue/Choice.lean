import Dialogue.Expr.Evaluation
import Dialogue.Script

/-! The options of a list that a playthrough can still take, and those of them that it shows. -/
namespace Dialogue

/-- An option on offer, with the actions around it from the outermost on. -/
structure Choice where
  index : UInt64
  name : String
  mode : OptionMode
  marks : Marks
  content : List Cell
  actions : List Action := []

namespace Choice

/-- The option inside conditions and actions, if the conditions hold. -/
def find? (m : Memory) : Cell → Option Choice
  | .option index name mode marks content => some { index, name, mode, marks, content }
  | .conditional _ condition body => if condition.holds m then find? m body else none
  | .acting _ action body =>
      (find? m body).map fun choice => { choice with actions := action :: choice.actions }
  | _ => none

/-- An option other than a sticky one can be chosen once. -/
def available (m : Memory) (choice : Choice) : Bool :=
  choice.mode == .sticky || !m.accessed choice.index

/-- The options of a list that can be chosen. -/
def candidates (m : Memory) (items : List Cell) : List Choice :=
  (items.filterMap (find? m)).filter (available m)

/-- The options that are shown: fallbacks only when there is nothing else. -/
def visible (m : Memory) (items : List Cell) : List Choice :=
  let all := candidates m items
  let regular := all.filter fun choice => choice.mode != .fallback
  if regular.isEmpty then all.filter fun choice => choice.mode == .fallback else regular

/-- The options that are shown, and the memory afterwards. While conditions are looked at, the
number of options counts all items, and after that the visible ones. -/
def offer (m : Memory) (items : List Cell) : List Choice × Memory :=
  let counting := m.note Memory.optionsCount (.count (Int64.ofNat items.length))
  let shown := visible counting items
  (shown, counting.note Memory.optionsCount (.count (Int64.ofNat shown.length)))

end Choice

end Dialogue
