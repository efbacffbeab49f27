import Dialogue.Json

/-! Taking JSON values apart. A record is an object, in which unknown fields are ignored and a
known one stands at most once, or an array of the first of its fields in order. Where there are
several kinds of record, an object names its kind in the field `type` and an array in its first
item. -/
namespace Dialogue.Json

def string? : Json → Option String
  | str s => some s
  | _ => none

def boolean? : Json → Option Bool
  | bool b => some b
  | _ => none

def items? : Json → Option (List Json)
  | arr items => some items
  | _ => none

def entries? : Json → Option (List (String × Json))
  | obj entries => some entries
  | _ => none

/-- The value of a field that may be absent; refused if the field is written twice. -/
def unique? (entries : List (String × Json)) (name : String) : Option (Option Json) :=
  match entries.filter fun entry => entry.1 == name with
  | [] => some none
  | [entry] => some (some entry.2)
  | _ => none

/-- The fields of a record, each absent or present. -/
def fields? (names : List String) : Json → Option (List (Option Json))
  | obj entries => names.mapM (unique? entries)
  | arr items =>
      if items.length ≤ names.length then
        some (items.map some ++ List.replicate (names.length - items.length) none)
      else none
  | _ => none

/-- The kind of a record inside another: its name, or its position among the kinds. -/
def innerKind? (kinds : List String) : Json → Option String
  | str s => some s
  | num (.int n) => if 0 ≤ n then kinds[n.toNat]? else none
  | _ => none

/-- The kind of a record, and what is left of it without the kind. -/
def tagged? (kind? : Json → Option String) : Json → Option (String × Json)
  | obj entries => do
      let tag ← (← unique? entries "type")
      return (← kind? tag, obj (entries.filter fun entry => entry.1 != "type"))
  | arr (tag :: rest) => do return (← kind? tag, arr rest)
  | _ => none

/-- A field that may be null or absent. -/
def optional? {α : Type} (read : Json → Option α) : Option Json → Option (Option α)
  | none => some none
  | some null => some none
  | some j => (read j).map some

/-- A field that stands for a value when it is absent. -/
def withDefault? {α : Type} (value : α) (read : Json → Option α) : Option Json → Option α
  | none => some value
  | some j => read j

/-- A field that must be there. -/
def required? {α : Type} (read : Json → Option α) (j : Option Json) : Option α := j.bind read

def listOf? {α : Type} (read : Json → Option α) (j : Json) : Option (List α) := do
  (← j.items?).mapM read

def strings? (j : Json) : Option (List String) := listOf? string? j

/-- A name: a string, or the only key of an object, with null under it. -/
def named? {α : Type} (ofName? : String → Option α) : Json → Option α
  | str name => ofName? name
  | obj [(name, null)] => ofName? name
  | _ => none

/-- A name inside a record that has a kind. Under the only key of an object there may also be an
empty object. -/
def innerNamed? {α : Type} (ofName? : String → Option α) : Json → Option α
  | obj [(name, obj [])] => ofName? name
  | j => named? ofName? j

/-- An entry that is written only when there is something to write. -/
def optionalEntry (name : String) (value : Option String) : List (String × Json) :=
  (value.map fun s => (name, str s)).toList

def ofStrings (strings : List String) : Json := arr (strings.map str)

/-- An entry that is written only when the list is not empty. -/
def listEntry (name : String) (strings : List String) : List (String × Json) :=
  if strings.isEmpty then [] else [(name, ofStrings strings)]

/-- A record with its kind in front. -/
def record (type : String) (entries : List (String × Json)) : Json :=
  obj (("type", str type) :: entries)

end Dialogue.Json
