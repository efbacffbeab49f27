import Dialogue.Value

/-! Expressions, assignments and the actions that stand in braces. -/
namespace Dialogue

inductive Operator where
  | and
  | or
  | not
  | equal
  | notEqual
  | greater
  | greaterOrEqual
  | less
  | lessOrEqual
  | add
  | subtract
  | multiply
  | divide
  | modulo
  | power
deriving DecidableEq

namespace Operator

def all : List Operator :=
  [and, or, not, equal, notEqual, greater, greaterOrEqual, less, lessOrEqual, add, subtract,
   multiply, divide, modulo, power]

def name : Operator → String
  | and => "and"
  | or => "or"
  | not => "not"
  | equal => "equal"
  | notEqual => "not_equal"
  | greater => "greater_than"
  | greaterOrEqual => "greater_or_equal"
  | less => "less_than"
  | lessOrEqual => "less_or_equal"
  | add => "add"
  | subtract => "sub"
  | multiply => "mult"
  | divide => "div"
  | modulo => "mod"
  | power => "power"

def ofName? (text : String) : Option Operator := all.find? fun op => op.name == text

@[simp] theorem ofName?_name (op : Operator) : ofName? op.name = some op := by
  cases op <;> decide

end Operator

/-- The written kind of a literal. -/
inductive LiteralKind where
  | number
  | boolean
  | string
  | null
deriving DecidableEq

namespace LiteralKind

def all : List LiteralKind := [number, boolean, string, null]

def name : LiteralKind → String
  | number => "number"
  | boolean => "boolean"
  | string => "string"
  | null => "null"

def ofName? (text : String) : Option LiteralKind := all.find? fun kind => kind.name == text

@[simp] theorem ofName?_name (kind : LiteralKind) : ofName? kind.name = some kind := by
  cases kind <;> decide

end LiteralKind

def Value.kind : Value → LiteralKind
  | .null => .null
  | .bool _ => .boolean
  | .number _ => .number
  | .string _ => .string

inductive Expr where
  | literal (kind : LiteralKind) (value : Value)
  | variable (name : String)
  | operation (op : Operator) (operands : List Expr)

namespace Expr

instance : Inhabited Expr := ⟨literal .null .null⟩

@[elab_as_elim]
theorem induction {P : Expr → Prop} (literal : ∀ kind value, P (.literal kind value))
    (named : ∀ name, P (.variable name))
    (operation : ∀ op operands, (∀ e ∈ operands, P e) → P (.operation op operands)) (e : Expr) :
    P e :=
  @Expr.rec P (fun operands => ∀ e ∈ operands, P e) literal named operation nofun
    (fun _ _ first rest => List.forall_mem_cons.2 ⟨first, rest⟩) e

def constant (value : Value) : Expr := literal value.kind value

def unary (op : Operator) (operand : Expr) : Expr := operation op [operand]

def binary (op : Operator) (left right : Expr) : Expr := operation op [left, right]

end Expr

/-- How an assignment combines the old value with the new one. -/
inductive Update where
  | replace
  | add
  | subtract
  | multiply
  | divide
  | power
  | modulo
deriving DecidableEq

namespace Update

def all : List Update := [replace, add, subtract, multiply, divide, power, modulo]

def name : Update → String
  | replace => "assign"
  | add => "add_assign"
  | subtract => "sub_assign"
  | multiply => "mult_assign"
  | divide => "div_assign"
  | power => "pow_assign"
  | modulo => "mod_assign"

def ofName? (text : String) : Option Update := all.find? fun op => op.name == text

@[simp] theorem ofName?_name (op : Update) : ofName? op.name = some op := by
  cases op <;> decide

end Update

/-- Stores the value of an expression, or what a further assignment stored. -/
inductive Assignment where
  | store (name : String) (update : Update) (value : Expr)
  | chain (name : String) (update : Update) (next : Assignment)

inductive Action where
  | assign (assignments : List Assignment)
  | trigger (events : List String)

instance : Inhabited Action := ⟨.trigger []⟩

end Dialogue
