import Dialogue.Expr.Evaluation

/-! What expressions mean. The value of an expression and its truth as a condition are read in two
ways that call each other, one of which passes over operands that cannot matter. Both have one
meaning, by recursion on the expression, in which every operand has its value first; and it is told
by the variables that occur. -/
namespace Dialogue

namespace Operator

/-- What an operator gives for the values of its operands. -/
def onValues : Operator → Value → Value → Value
  | and, left, right => .bool (left.truthy && right.truthy)
  | or, left, right => .bool (left.truthy || right.truthy)
  | not, left, _ => .bool !left.truthy
  | equal, left, right => .bool (left.same right)
  | notEqual, left, right => .bool !left.same right
  | greater, left, right => .bool ((left.compare? right).any Ordering.isGT)
  | greaterOrEqual, left, right => .bool ((left.compare? right).any Ordering.isGE)
  | less, left, right => .bool ((left.compare? right).any Ordering.isLT)
  | lessOrEqual, left, right => .bool ((left.compare? right).any Ordering.isLE)
  | add, left, right => left.add right
  | subtract, left, right => .number (left.toNumber - right.toNumber)
  | multiply, left, right => .number (left.toNumber * right.toNumber)
  | divide, left, right => .number (left.toNumber / right.toNumber)
  | modulo, left, right => .number (Number.remainder left.toNumber right.toNumber)
  | power, left, right => .number (left.toNumber.pow right.toNumber)

theorem decide?_eq_some {op : Operator} {values : List Value} {held : Nat → Bool} {b : Bool}
    (truth : ∀ position, held position = (operand values position).truthy)
    (decided : op.decide? held = some b) :
    op.onValues (operand values 0) (operand values 1) = .bool b := by
  cases op with
  | and | or =>
      cases decided
      rw [truth 0, truth 1, onValues]
      cases (operand values 0).truthy <;> rfl
  | not =>
      cases decided
      rw [truth 0, onValues]
  | _ => cases decided

theorem decide?_eq_none {op : Operator} {held : Nat → Bool} (undecided : op.decide? held = none)
    (values : List Value) :
    op.onValues (operand values 0) (operand values 1) = op.apply values := by
  cases op with
  | and | or | not => cases undecided
  | greater | greaterOrEqual | less | lessOrEqual =>
      simp only [onValues, apply]
      cases (operand values 0).compare? (operand values 1) with
      | none => rfl
      | some order => cases order <;> rfl
  | _ => rfl

end Operator

namespace Expr

mutual

/-- The value of an expression, by the values of its operands; a missing one is null. -/
def meaning (m : Memory) : Expr → Value
  | .literal _ value => value
  | .variable name => m.get name .null
  | .operation op operands =>
      let values := meanings m operands
      op.onValues (Operator.operand values 0) (Operator.operand values 1)

def meanings (m : Memory) : List Expr → List Value
  | [] => []
  | e :: rest => e.meaning m :: meanings m rest

end

mutual

/-- The variables that occur in an expression. -/
def names : Expr → List String
  | .literal _ _ => []
  | .variable name => [name]
  | .operation _ operands => allNames operands

def allNames : List Expr → List String
  | [] => []
  | e :: rest => e.names ++ allNames rest

end

variable {m other : Memory}

theorem meanings_eq_map (m : Memory) (operands : List Expr) :
    meanings m operands = operands.map (meaning m) := by
  induction operands with
  | nil => rfl
  | cons e rest ih => rw [meanings, ih, List.map_cons]

theorem evaluateAll_eq_map (m : Memory) (operands : List Expr) :
    evaluateAll m operands = operands.map (evaluate m) := by
  induction operands with
  | nil => rfl
  | cons e rest ih => rw [evaluateAll, ih, List.map_cons]

theorem holdsAt_eq_getD (m : Memory) (operands : List Expr) (position : Nat) :
    holdsAt m operands position = (operands.map (holds m)).getD position false := by
  induction operands generalizing position with
  | nil => rfl
  | cons e rest ih =>
      cases position with
      | zero => rfl
      | succ position => exact ih position

theorem mem_allNames {operands : List Expr} {name : String} :
    name ∈ allNames operands ↔ ∃ e ∈ operands, name ∈ e.names := by
  induction operands with
  | nil => simp [allNames]
  | cons e rest ih => simp [allNames, ih]

/-- Where every operand holds as its value does, so does the operand at a position. -/
theorem holdsAt_eq_truthy {operands : List Expr}
    (each : ∀ e ∈ operands, e.holds m = (e.meaning m).truthy) (position : Nat) :
    holdsAt m operands position = (Operator.operand (meanings m operands) position).truthy := by
  have held : operands.map (holds m) = (meanings m operands).map Value.truthy := by
    rw [meanings_eq_map, List.map_map]
    exact List.map_congr_left each
  rw [holdsAt_eq_getD, held, Operator.operand, List.getD_eq_getElem?_getD, List.getElem?_map,
    List.getD_eq_getElem?_getD]
  exact Option.getD_map Value.truthy .null _

/-- The two ways of reading an expression agree with its meaning. -/
theorem reads_meaning (m : Memory) (e : Expr) :
    e.evaluate m = e.meaning m ∧ e.holds m = (e.meaning m).truthy := by
  induction e using Expr.induction with
  | literal kind value => exact ⟨rfl, rfl⟩
  | named name => exact ⟨rfl, rfl⟩
  | operation op operands ih =>
      have values : evaluateAll m operands = meanings m operands := by
        rw [evaluateAll_eq_map, meanings_eq_map]
        exact List.map_congr_left fun e member => (ih e member).1
      have truth := holdsAt_eq_truthy fun e member => (ih e member).2
      simp only [evaluate, holds, meaning, values]
      split
      · next held decided =>
          rw [Operator.decide?_eq_some truth decided]
          exact ⟨rfl, rfl⟩
      · next undecided =>
          rw [Operator.decide?_eq_none undecided]
          exact ⟨rfl, rfl⟩

theorem meaning_congr {e : Expr}
    (same : ∀ name ∈ e.names, other.get name .null = m.get name .null) :
    e.meaning other = e.meaning m := by
  induction e using Expr.induction with
  | literal kind value => rfl
  | named name => exact same name List.mem_cons_self
  | operation op operands ih =>
      have values : meanings other operands = meanings m operands := by
        rw [meanings_eq_map, meanings_eq_map]
        refine List.map_congr_left fun e member => ih e member fun name occurs => ?_
        exact same name (mem_allNames.2 ⟨e, member, occurs⟩)
      simp only [meaning, values]

theorem evaluate_congr {e : Expr}
    (same : ∀ name ∈ e.names, other.get name .null = m.get name .null) :
    e.evaluate other = e.evaluate m := by
  rw [(reads_meaning other e).1, (reads_meaning m e).1, meaning_congr same]

theorem holds_congr {e : Expr}
    (same : ∀ name ∈ e.names, other.get name .null = m.get name .null) :
    e.holds other = e.holds m := by
  rw [(reads_meaning other e).2, (reads_meaning m e).2, meaning_congr same]

/-- Every expression, whatever the number of its operands, has its meaning as its value and holds
as its meaning does. Operands that were passed over would have changed nothing, and neither does a
variable that does not occur. -/
theorem evaluate_eq_meaning (m : Memory) (e : Expr) :
    e.evaluate m = e.meaning m ∧ e.holds m = (e.meaning m).truthy ∧
      e.holds m = (e.evaluate m).truthy ∧
      ∀ other : Memory, (∀ name ∈ e.names, other.get name .null = m.get name .null) →
        e.evaluate other = e.evaluate m ∧ e.holds other = e.holds m := by
  obtain ⟨value, truth⟩ := reads_meaning m e
  refine ⟨value, truth, ?_, fun other same => ⟨evaluate_congr same, holds_congr same⟩⟩
  rw [value]
  exact truth

end Expr
end Dialogue
