import Dialogue.Json.Fields
import Dialogue.Json.Printer
import Dialogue.Json.Reader
import Dialogue.Memory
import Dialogue.Number.Reading

/-! Memory as JSON: three objects with their keys in order. -/
namespace Dialogue

open Json (fields? withDefault?)

namespace Datum

def toJson : Datum → Json
  | count n => .integer n.toInt
  | positions list => .arr (list.map fun p => .integer p.toNat)

def position? : Json → Option UInt64
  | .num (.int n) => if 0 ≤ n ∧ n < UInt64.size then some n.toNat.toUInt64 else none
  | _ => none

/-- A whole number of 64 bits with sign, or a list of such numbers without. -/
def ofJson? : Json → Option Datum
  | .num (.int n) =>
      if Int64.minValue.toInt ≤ n ∧ n ≤ Int64.maxValue.toInt then some (count (Int64.ofInt n))
      else none
  | .arr items => positions <$> items.mapM position?
  | _ => none

end Datum

namespace Memory

/-- An index as a key: decimal digits without leading zeros, within 64 bits. -/
def index? (key : String) : Option UInt64 :=
  let digits := key.toList
  let n := Number.natOfDigits digits
  if !digits.isEmpty && digits.all Char.isDigit && (digits.length == 1 || digits.head? != some '0')
      && n < UInt64.size then
    some n.toUInt64
  else none

def mapJson {α β : Type} [Ord α] [Std.TransOrd α] (key : α → String) (value : β → Json)
    (map : Std.ExtTreeMap α β) : Json :=
  .obj (map.toList.map fun (k, v) => (key k, value v))

/-- Reads the entries of an object one after the other, so that the last of a key counts. -/
def readMap? {α β : Type} [Ord α] [Std.TransOrd α] (key? : String → Option α)
    (value? : Json → Option β) (j : Json) : Option (Std.ExtTreeMap α β) := do
  let entries ← j.entries?
  entries.foldlM (fun map (k, v) => return map.insert (← key? k) (← value? v)) ∅

def toJson (m : Memory) : Json :=
  .obj [("access", mapJson (fun index => toString index.toNat) .bool m.access),
    ("variables", mapJson id Value.toJson m.values),
    ("internal", mapJson id Datum.toJson m.internal)]

def ofJson? (j : Json) : Option Memory := do
  let [access, values, internal] ← fields? ["access", "variables", "internal"] j | none
  return {
    access := ← withDefault? ∅ (readMap? index? Json.boolean?) access
    values := ← withDefault? ∅ (readMap? some Value.ofJson?) values
    internal := ← withDefault? ∅ (readMap? some Datum.ofJson?) internal }

/-- What is looked at in a text. -/
def shape : Json.Shape :=
  .record [("access", .plainKeys), ("variables", .whole), ("internal", .whole)]

def compact (m : Memory) : String := m.toJson.compact

def read? (text : String) : Option Memory := (Json.readAs? shape text).bind ofJson?

end Memory
end Dialogue
