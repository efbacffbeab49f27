import Dialogue.Expr
import Dialogue.Json.Fields
import Dialogue.Json.Reader

/-! Expressions, assignments and actions as JSON. Decoding goes down one level of the tree with
each call, so its fuel is a bound on the depth of the tree. -/
namespace Dialogue

open Json (record fields? required? listOf? named? innerNamed? innerKind? tagged? string?)

namespace Expr

mutual

def toJson : Expr → Json
  | .literal kind value => record "literal" [("name", .str kind.name), ("value", value.toJson)]
  | .variable name => record "variable" [("name", .str name)]
  | .operation op operands =>
      record "expression" [("name", .str op.name), ("elements", .arr (toJsonList operands))]

def toJsonList : List Expr → List Json
  | [] => []
  | e :: rest => e.toJson :: toJsonList rest

end

def kinds : List String := ["expression", "variable", "literal"]

def decode? : Nat → (Json → Option String) → Json → Option Expr
  | 0, _, _ => none
  | fuel + 1, kind?, j => do
      let (kind, rest) ← tagged? kind? j
      match kind with
      | "literal" =>
          let [name, value] ← fields? ["name", "value"] rest | none
          return .literal (← required? (innerNamed? LiteralKind.ofName?) name)
            (← required? Value.ofJson? value)
      | "variable" =>
          let [name] ← fields? ["name"] rest | none
          return .variable (← required? string? name)
      | "expression" =>
          let [name, elements] ← fields? ["name", "elements"] rest | none
          return .operation (← required? (innerNamed? Operator.ofName?) name)
            (← required? (listOf? (decode? fuel (innerKind? kinds))) elements)
      | _ => none

def ofJson? (j : Json) : Option Expr := decode? (j.depth + 1) string? j

/-- An expression inside another record. -/
def ofInner? (j : Json) : Option Expr := decode? (j.depth + 1) (innerKind? kinds) j

end Expr

/-- A variable's name inside an assignment. -/
def Assignment.targetName? (j : Json) : Option String := do
  let [name] ← fields? ["name"] j | none
  required? string? name

namespace Assignment

/-- An assignment and the value it stores. -/
def entry (name : String) (update : Update) (value : Json) : Json :=
  record "assignment" [("variable", record "variable" [("name", .str name)]),
    ("operation", .str update.name), ("value", value)]

def toJson : Assignment → Json
  | store name update value => entry name update value.toJson
  | chain name update next => entry name update next.toJson

/-- What is stored reads as a further assignment wherever it can. -/
def decode? : Nat → (Json → Option Update) → Json → Option Assignment
  | 0, _, _ => none
  | fuel + 1, update?, j => do
      let [target, operation, value] ← fields? ["variable", "operation", "value"] j | none
      let name ← required? targetName? target
      let update ← required? update? operation
      let value ← value
      match decode? fuel (named? Update.ofName?) value with
      | some next => return chain name update next
      | none => return store name update (← Expr.decode? fuel (innerKind? Expr.kinds) value)

def ofJson? (j : Json) : Option Assignment := decode? (j.depth + 1) (named? Update.ofName?) j

/-- An assignment inside a record that has a kind. -/
def ofInner? (j : Json) : Option Assignment := decode? (j.depth + 1) (innerNamed? Update.ofName?) j

/-- The fields of a list of assignments that are looked at in a text. -/
def listShape : Json.Shape :=
  .record [("assignments", .list (.record
    [("variable", .record [("name", .whole)]), ("operation", .whole), ("value", .whole)]))]

/-- Reads a list of assignments from a text. -/
def readList? (text : String) : Option (List Assignment) := do
  let [assignments] ← fields? ["assignments"] (← Json.readAs? listShape text) | none
  required? (listOf? ofJson?) assignments

end Assignment

namespace Action

def eventName? (j : Json) : Option String := do
  let [name] ← fields? ["name"] j | none
  required? string? name

def eventJson (name : String) : Json := record "event" [("name", .str name)]

def toJson : Action → Json
  | assign assignments =>
      record "assignments" [("assignments", .arr (assignments.map Assignment.toJson))]
  | trigger events => record "events" [("events", .arr (events.map eventJson))]

def assignments? (j : Json) : Option (List Assignment) := do
  let [assignments] ← fields? ["assignments"] j | none
  required? (listOf? Assignment.ofInner?) assignments

def events? (j : Json) : Option (List String) := do
  let [events] ← fields? ["events"] j | none
  required? (listOf? eventName?) events

def kinds : List String := ["assignments", "events"]

def decode? (kind? : Json → Option String) (j : Json) : Option Action := do
  let (kind, rest) ← tagged? kind? j
  match kind with
  | "assignments" => assign <$> assignments? rest
  | "events" => trigger <$> events? rest
  | _ => none

def ofJson? (j : Json) : Option Action := decode? string? j

/-- An action inside another record. -/
def ofInner? (j : Json) : Option Action := decode? (innerKind? kinds) j

end Action
end Dialogue
