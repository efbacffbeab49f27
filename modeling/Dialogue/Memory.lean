import Dialogue.Value
import Std.Data.ExtTreeMap

/-! What a dialogue remembers: options that were chosen, variables, and bookkeeping. -/
namespace Dialogue

/-- A bookkeeping entry: a count, or positions in the order in which they were visited. -/
inductive Datum where
  | count (n : Int64)
  | positions (list : List UInt64)
deriving DecidableEq

structure Memory where
  /-- by structural index, whether an option was chosen -/
  access : Std.ExtTreeMap UInt64 Bool := ∅
  values : Std.ExtTreeMap String Value := ∅
  internal : Std.ExtTreeMap String Datum := ∅

namespace Memory

instance : EmptyCollection Memory := ⟨{}⟩

/-- The name under which the number of options on offer is kept and read. -/
def optionsCount : String := "OPTIONS_COUNT"

def count? (m : Memory) (key : String) : Option Int64 :=
  match m.internal[key]? with
  | some (.count n) => some n
  | _ => none

def positions (m : Memory) (key : String) : List UInt64 :=
  match m.internal[key]? with
  | some (.positions list) => list
  | _ => []

def note (m : Memory) (key : String) (datum : Datum) : Memory :=
  { m with internal := m.internal.insert key datum }

/-- A variable's value, or the default if it has none. The number of options on offer is read from
the bookkeeping, whatever was stored under its name. -/
def get (m : Memory) (name : String) (default : Value) : Value :=
  if name == optionsCount then
    match m.count? optionsCount with
    | some n => .number (Float.ofInt n.toInt)
    | none => default
  else m.values[name]?.getD default

def set (m : Memory) (name : String) (value : Value) : Memory :=
  { m with values := m.values.insert name value }

/-- The value that storing under a name replaces. -/
def stored (m : Memory) (name : String) : Value := m.values[name]?.getD .null

def accessed (m : Memory) (index : UInt64) : Bool := m.access[index]?.getD false

def visit (m : Memory) (index : UInt64) : Memory :=
  { m with access := m.access.insert index true }

@[simp] theorem values_note (m : Memory) (key : String) (datum : Datum) :
    (m.note key datum).values = m.values := rfl

@[simp] theorem access_note (m : Memory) (key : String) (datum : Datum) :
    (m.note key datum).access = m.access := rfl

@[simp] theorem internal_set (m : Memory) (name : String) (value : Value) :
    (m.set name value).internal = m.internal := rfl

@[simp] theorem access_set (m : Memory) (name : String) (value : Value) :
    (m.set name value).access = m.access := rfl

@[simp] theorem values_visit (m : Memory) (index : UInt64) :
    (m.visit index).values = m.values := rfl

@[simp] theorem internal_visit (m : Memory) (index : UInt64) :
    (m.visit index).internal = m.internal := rfl

end Memory
end Dialogue
