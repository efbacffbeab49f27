import Dialogue.Json.Fields
import Dialogue.Value

/-! What a dialogue announces, and who listens. -/
namespace Dialogue

inductive Event where
  | variableChanged (name : String) (value previous : Value)
  | triggered (name : String)

namespace Event

inductive Kind where
  | variableChanged
  | triggered
deriving DecidableEq

def kind : Event → Kind
  | .variableChanged .. => .variableChanged
  | .triggered _ => .triggered

def Kind.name : Kind → String
  | variableChanged => "variable_changed"
  | triggered => "event_triggered"

def Kind.ofName? (text : String) : Option Kind :=
  [variableChanged, triggered].find? fun kind => kind.name == text

def toJson (event : Event) : Json :=
  Json.record event.kind.name (match event with
    | variableChanged name value previous =>
        [("name", .str name), ("value", value.toJson), ("previous", previous.toJson)]
    | triggered name => [("name", .str name)])

end Event

structure Listener where
  id : Nat
  kind : Event.Kind
deriving DecidableEq

/-- Listeners in the order of their registration. -/
structure Listeners where
  registered : List Listener := []
  nextId : Nat := 0

namespace Listeners

/-- Registers a listener under a new id. -/
def on (all : Listeners) (kind : Event.Kind) : Nat × Listeners :=
  (all.nextId, ⟨all.registered ++ [⟨all.nextId, kind⟩], all.nextId + 1⟩)

/-- Removes a listener, unless there is none of that id. -/
def off? (all : Listeners) (id : Nat) : Option Listeners :=
  if all.registered.any fun listener => listener.id == id then
    some { all with registered := all.registered.eraseP fun listener => listener.id == id }
  else none

/-- Who receives an event, in order. -/
def receivers (all : Listeners) (event : Event) : List Nat :=
  (all.registered.filter fun listener => listener.kind == event.kind).map Listener.id

/-- Who receives what, event by event. -/
def deliver (all : Listeners) (events : List Event) : List (Nat × Event) :=
  events.flatMap fun event => (all.receivers event).map fun id => (id, event)

def summary (all : Listeners) : String :=
  "EventBus \x7b listeners: " ++ toString all.registered.length ++ " \x7d"

end Listeners
end Dialogue
