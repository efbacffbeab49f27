import Dialogue.Expr
import Dialogue.Token.Parser

/-! Reading expressions, assignments and events from tokens, by precedence. -/
namespace Dialogue

namespace Operator

/-- A binary operator's precedence and whether it groups to the right. -/
def binary? : Token.Kind → Option (Operator × Nat × Bool)
  | .or => some (.or, 1, false)
  | .and => some (.and, 1, false)
  | .equal => some (.equal, 2, false)
  | .notEqual => some (.notEqual, 2, false)
  | .greater => some (.greater, 2, false)
  | .greaterOrEqual => some (.greaterOrEqual, 2, false)
  | .less => some (.less, 2, false)
  | .lessOrEqual => some (.lessOrEqual, 2, false)
  | .plus => some (.add, 3, false)
  | .minus => some (.subtract, 3, false)
  | .modulo => some (.modulo, 4, false)
  | .times => some (.multiply, 5, false)
  | .divide => some (.divide, 5, false)
  | .power => some (.power, 7, true)
  | _ => none

end Operator

namespace Update

def ofKind : Token.Kind → Update
  | .assignSum => .add
  | .assignDifference => .subtract
  | .assignProduct => .multiply
  | .assignQuotient => .divide
  | .assignPower => .power
  | .assignModulo => .modulo
  | _ => .replace

/-- The tokens of assignment. -/
def kinds : List Token.Kind :=
  [.assign, .assignSum, .assignDifference, .assignProduct, .assignQuotient, .assignPower,
   .assignModulo]

end Update

namespace Parser

def operandKinds : List Token.Kind :=
  [.not, .minus, .bracketOpen, .number, .string, .boolean, .null, .identifier]

/-- The number that a number token writes. -/
def number (token : Token) : Parser Float :=
  match Number.read? token.value.toList with
  | some x => return x
  | none => throw (.fault (.located (.unreadableNumber token.value) token.line token.column))

mutual

/-- An expression whose binary operators have at least the given precedence. -/
def expression : Nat → Nat → Parser Expr
  | 0, _ => exhausted
  | fuel + 1, least => do
      let left ← operand fuel
      operators fuel least left

/-- The binary operators after an operand, and their right operands. -/
def operators : Nat → Nat → Expr → Parser Expr
  | 0, _, _ => exhausted
  | fuel + 1, least, left => do
      let kind ← kind
      match Operator.binary? kind with
      | none => return left
      | some (op, precedence, groupsRight) =>
          if precedence < least then return left
          let _ ← expect [kind]
          let right ← expression fuel (if groupsRight then precedence else precedence + 1)
          operators fuel least (.binary op left right)

def operand : Nat → Parser Expr
  | 0 => exhausted
  | fuel + 1 => do
      let token ← expect operandKinds
      match token.kind with
      | .not => return .unary .not (← operand fuel)
      | .minus =>
          let digits ← expect [.number]
          return .constant (.number (-(← number digits)))
      | .bracketOpen =>
          let inner ← expression fuel 0
          let _ ← expect [.bracketClose]
          return inner
      | .number => return .constant (.number (← number token))
      | .string => return .constant (.string token.value)
      | .boolean => return .constant (.bool (token.value == "true"))
      | .null => return .constant .null
      | _ => return .variable token.value

end

/-- What stands right of an assignment to `name`. A bare variable with an assignment after it
starts a further assignment. -/
def assigned : Nat → String → Update → Parser Assignment
  | 0, _, _ => exhausted
  | fuel + 1, name, update => do
      let value ← expression fuel 0
      match value with
      | .variable inner =>
          if ← next Update.kinds then
            let sign ← expect Update.kinds
            return .chain name update (← assigned fuel inner (.ofKind sign.kind))
          else return .store name update value
      | _ => return .store name update value

def assignment (fuel : Nat) : Parser Assignment := do
  let name ← expect [.identifier]
  let sign ← expect Update.kinds
  assigned fuel name.value (.ofKind sign.kind)

/-- What a list of items with commas before all but the first has after its first. -/
def commaList {α : Type} (item : Parser α) : Nat → Parser (List α)
  | 0 => exhausted
  | fuel + 1 => do
      if ← next [.comma] then
        let _ ← expect [.comma]
        let first ← item
        return first :: (← commaList item fuel)
      else return []

def assignments (fuel : Nat) : Parser (List Assignment) := do
  let _ ← expect [.set]
  let first ← assignment fuel
  return first :: (← commaList (assignment fuel) fuel)

def eventName : Parser String := do return (← expect [.identifier]).value

def events (fuel : Nat) : Parser (List String) := do
  let _ ← expect [.trigger]
  let first ← eventName
  return first :: (← commaList eventName fuel)

end Parser
end Dialogue
