import Dialogue.Event
import Dialogue.Expr
import Dialogue.Memory

/-! The value of an expression, and what assignments and actions do. -/
namespace Dialogue

namespace Operator

/-- The operand at a position, null if it is missing. -/
def operand (values : List Value) (position : Nat) : Value := values.getD position .null

/-- What an operator other than a connective gives for its operands. -/
def apply (op : Operator) (values : List Value) : Value :=
  let left := operand values 0
  let right := operand values 1
  match op with
  | equal => .bool (left.same right)
  | notEqual => .bool (!left.same right)
  | greater => .bool (left.compare? right == some .gt)
  | greaterOrEqual =>
      .bool (left.compare? right == some .gt || left.compare? right == some .eq)
  | less => .bool (left.compare? right == some .lt)
  | lessOrEqual => .bool (left.compare? right == some .lt || left.compare? right == some .eq)
  | add => left.add right
  | subtract => .number (left.toNumber - right.toNumber)
  | multiply => .number (left.toNumber * right.toNumber)
  | divide => .number (left.toNumber / right.toNumber)
  | modulo => .number (Number.remainder left.toNumber right.toNumber)
  | power => .number (left.toNumber.pow right.toNumber)
  | and | or | not => .null

/-- The truth value that a connective gives, by whether the operand at a position holds. The second
one is asked for only if the first leaves the value open. None for the other operators. -/
def decide? (held : Nat → Bool) : Operator → Option Bool
  | and => some (if held 0 then held 1 else false)
  | or => some (if held 0 then true else held 1)
  | not => some !held 0
  | _ => none

end Operator

namespace Expr

mutual

/-- The value of an expression. That of a connective is its truth value as a condition. -/
def evaluate (m : Memory) : Expr → Value
  | .literal _ value => value
  | .variable name => m.get name .null
  | .operation op operands =>
      match op.decide? fun position => holdsAt m operands position with
      | some held => .bool held
      | none => op.apply (evaluateAll m operands)

/-- Whether an expression holds as a condition. -/
def holds (m : Memory) : Expr → Bool
  | .literal _ value => value.truthy
  | .variable name => (m.get name .null).truthy
  | .operation op operands =>
      match op.decide? fun position => holdsAt m operands position with
      | some held => held
      | none => (op.apply (evaluateAll m operands)).truthy

def evaluateAll (m : Memory) : List Expr → List Value
  | [] => []
  | e :: rest => e.evaluate m :: evaluateAll m rest

/-- Whether the operand at a position holds; a missing one does not. -/
def holdsAt (m : Memory) : List Expr → Nat → Bool
  | [], _ => false
  | e :: _, 0 => e.holds m
  | _ :: rest, position + 1 => holdsAt m rest position

end

end Expr

/-- Stores a value under a name and announces it. -/
def Memory.write (m : Memory) (name : String) (value : Value) : Memory × Event :=
  (m.set name value, .variableChanged name value (m.stored name))

namespace Update

/-- What is stored for an old and a new value. -/
def combine (update : Update) (current value : Value) : Value :=
  match update with
  | replace => value
  | add => current.add value
  | subtract => .number (current.toNumber - value.toNumber)
  | multiply => .number (current.toNumber * value.toNumber)
  | divide => .number (current.toNumber / value.toNumber)
  | power => .number (current.toNumber.pow value.toNumber)
  | modulo => .number (Number.remainder current.toNumber value.toNumber)

/-- What a variable without a value counts as: nothing, of the kind of what is stored. -/
def neutral : Value → Value
  | .string _ => .string ""
  | _ => .number 0.0

end Update

/-- What a statement leaves behind: a result, the memory, and what was announced, in order. -/
structure Effect (α : Type) where
  result : α
  memory : Memory
  events : List Event

namespace Assignment

/-- Combines a value with the one under a name and stores the result there. -/
def put (m : Memory) (name : String) (update : Update) (value : Value) : Value × Memory × Event :=
  let result := update.combine (m.get name (Update.neutral value)) value
  let (memory, event) := m.write name result
  (result, memory, event)

/-- Runs the assignments of a chain from the last to the first. The result is what was stored
last. -/
def run (m : Memory) : Assignment → Effect Value
  | store name update expr =>
      let (result, memory, event) := put m name update (expr.evaluate m)
      ⟨result, memory, [event]⟩
  | chain name update next =>
      let inner := run m next
      let (result, memory, event) := put inner.memory name update inner.result
      ⟨result, memory, inner.events ++ [event]⟩

def runAll (m : Memory) : List Assignment → Effect (List Value)
  | [] => ⟨[], m, []⟩
  | first :: rest =>
      let effect := run m first
      let others := runAll effect.memory rest
      ⟨effect.result :: others.result, others.memory, effect.events ++ others.events⟩

end Assignment

namespace Action

def run (m : Memory) : Action → Effect Unit
  | assign assignments =>
      let effect := Assignment.runAll m assignments
      ⟨(), effect.memory, effect.events⟩
  | trigger names => ⟨(), m, names.map .triggered⟩

def runAll (m : Memory) : List Action → Effect Unit
  | [] => ⟨(), m, []⟩
  | first :: rest =>
      let effect := run m first
      let others := runAll effect.memory rest
      ⟨(), others.memory, effect.events ++ others.events⟩

end Action
end Dialogue
