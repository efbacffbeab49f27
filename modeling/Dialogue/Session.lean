import Dialogue.Beat
import Dialogue.Choice
import Dialogue.Template
import Dialogue.Variation

/-! Playing a script. A session stands at a stack of places; each step enters the next cell of the
topmost place, and a beat is what the steps up to the next line or list of options yield. -/
namespace Dialogue

/-- What a session can refuse. -/
inductive Fault where
  | invalidOption (index : Nat)
  | nothingToSelect
  | unknownBlock (name : String)
  | listenerNotFound
deriving DecidableEq

namespace Fault

def message : Fault → String
  | invalidOption index => "Index " ++ toString index ++ " not available."
  | nothingToSelect => "Nothing to select."
  | unknownBlock name => "Block '" ++ name ++ "' not found."
  | listenerNotFound => "Listener not registered."

end Fault

/-- What a frame of the stack walks through. -/
inductive Place where
  | document (cells : List Cell)
  | block (name : String) (cells : List Cell)
  | content (cells : List Cell)
  | options (name : Option String) (marks : Marks) (items : List Cell)

namespace Place

def cells : Place → List Cell
  | document cells | block _ cells | content cells => cells
  | options .. => []

/-- The places that a divert to the parent leaves. -/
def isAnchor : Place → Bool
  | content _ => false
  | _ => true

end Place

/-- A place, and how many of its cells have been entered: one more than there are once the
dialogue is over. -/
structure Frame where
  place : Place
  cursor : Nat := 0

structure Session where
  script : Script
  stack : List Frame
  memory : Memory
  dictionary : Std.ExtTreeMap String String
  listeners : Listeners
  random : UInt32

namespace Session

/-- What one step comes to. -/
inductive Flow where
  | beat (beat : Beat)
  | proceed
  | finished
  | failed (fault : Fault)

structure Step where
  flow : Flow
  session : Session
  events : List Event := []

/-- What an operation of a session comes to. -/
structure Outcome (α : Type) where
  result : α
  session : Session
  events : List Event := []

def proceed (s : Session) (events : List Event := []) : Step := ⟨.proceed, s, events⟩

def push (s : Session) (place : Place) : Session := { s with stack := ⟨place, 0⟩ :: s.stack }

/-- A text as it is shown: the dictionary's text for its id if there is one, with its placeholders
filled in. -/
def render (s : Session) (id : Option String) (text : String) : String :=
  Template.fill (fun name => s.memory.get name .null)
    ((id.bind (s.dictionary[·]?)).getD text)

def label (s : Session) (choice : Choice) : Beat.Label :=
  ⟨s.render choice.marks.id choice.name, choice.marks⟩

/-- Takes an option: it counts as chosen, its actions are done, and its content is entered. -/
def select (s : Session) (choice : Choice) : Session × List Event :=
  let chosen := s.memory.visit choice.index
  let counted :=
    if choice.mode == .sticky then chosen
    else
      let count := (chosen.count? Memory.optionsCount).getD 0
      chosen.note Memory.optionsCount (.count (max (count - 1) 0))
  let effect := Action.runAll counted choice.actions
  ({ s with memory := effect.memory }.push (.content choice.content), effect.events)

/-- The list of options on top of the stack: it is left if it is empty, a lone fallback is taken,
and anything else is a beat. -/
def present (s : Session) (name : Option String) (marks : Marks) (items : List Cell) : Step :=
  let (visible, memory) := Choice.offer s.memory items
  let s := { s with memory := memory }
  let shown : Step :=
    ⟨.beat (.options (name.map (s.render marks.id)) marks (visible.map s.label)), s, []⟩
  match visible with
  | [] => proceed { s with stack := s.stack.tail }
  | [only] =>
      if only.mode == .fallback then
        let (s, events) := s.select only
        proceed s events
      else shown
  | _ => shown

/-- Leaves the places up to and with the innermost anchor, but never the lowest place. -/
def leave : List Frame → List Frame
  | [] => []
  | [frame] => [frame]
  | frame :: below => if frame.place.isAnchor then below else leave below

def divert (s : Session) (target : String) : Step :=
  match Target.ofName target with
  | .parent => proceed { s with stack := leave s.stack }
  | .finish =>
      proceed { s with stack := [⟨.document s.script.content, s.script.content.length + 1⟩] }
  | .block name =>
      match s.script.block? name with
      | some block => proceed (s.push (.block name block.cells))
      | none => ⟨.failed (.unknownBlock name), s, []⟩

def enter (s : Session) : Cell → Step
  | .line _ text marks => ⟨.beat (.line (s.render marks.id text) marks), s, []⟩
  | .content _ cells => proceed (s.push (.content cells))
  | .options _ name marks items => (s.push (.options name marks items)).present name marks items
  | .option .. => proceed s
  | .divert _ target => s.divert target
  | .variations index mode alternatives =>
      let (picked, memory, random) :=
        Variation.pick index mode alternatives alternatives.length s.memory s.random
      let s := { s with memory := memory, random := random }
      proceed (match picked with
        | some alternative => s.push (.content alternative.children)
        | none => s)
  | .conditional _ condition body => if condition.holds s.memory then s.enter body else proceed s
  | .acting _ action body =>
      let effect := action.run s.memory
      let step := { s with memory := effect.memory }.enter body
      { step with events := effect.events ++ step.events }
  | .act _ action =>
      let effect := action.run s.memory
      proceed { s with memory := effect.memory } effect.events

/-- One step. A place with nothing left is left, but the lowest one stays. -/
def step (s : Session) : Step :=
  match s.stack with
  | [] => ⟨.finished, s, []⟩
  | frame :: below =>
      match frame.place with
      | .options name marks items => s.present name marks items
      | place =>
          match place.cells[frame.cursor]? with
          | some cell =>
              { s with stack := { frame with cursor := frame.cursor + 1 } :: below }.enter cell
          | none =>
              if below.isEmpty then
                let ended := { frame with cursor := place.cells.length + 1 }
                ⟨.finished, { s with stack := [ended] }, []⟩
              else proceed { s with stack := below }

/-- What asking for the next beat gives. -/
inductive Reply where
  | beat (beat : Beat)
  | finished
  | failed (fault : Fault)
  /-- The allowance of steps is used up. -/
  | exhausted

/-- Goes on to the next beat, in at most `fuel` steps. Diverts can form a circle without a beat,
so no allowance suffices for all scripts. -/
def next : Nat → Session → Outcome Reply
  | 0, s => ⟨.exhausted, s, []⟩
  | fuel + 1, s =>
      let step := s.step
      match step.flow with
      | .beat beat => ⟨.beat beat, step.session, step.events⟩
      | .finished => ⟨.finished, step.session, step.events⟩
      | .failed fault => ⟨.failed fault, step.session, step.events⟩
      | .proceed =>
          let rest := next fuel step.session
          { rest with events := step.events ++ rest.events }

/-- Chooses an option of the list that was shown last. -/
def choose (s : Session) (index : Nat) : Outcome (Except Fault Unit) :=
  match s.stack with
  | ⟨.options _ _ items, _⟩ :: _ =>
      let (visible, memory) := Choice.offer s.memory items
      let s := { s with memory := memory }
      match visible[index]? with
      | some choice =>
          let (s, events) := s.select choice
          ⟨.ok (), s, events⟩
      | none => ⟨.error (.invalidOption index), s, []⟩
  | _ => ⟨.error .nothingToSelect, s, []⟩

/-- Starts again, at the beginning or at a block. -/
def start (s : Session) : Option String → Except Fault Session
  | none => .ok { s with stack := [⟨.document s.script.content, 0⟩] }
  | some name =>
      match s.script.block? name with
      | some block => .ok { s with stack := [⟨.block name block.cells, 0⟩] }
      | none => .error (.unknownBlock name)

def set (s : Session) (name : String) (value : Value) : Outcome Value :=
  let (memory, event) := s.memory.write name value
  ⟨value, { s with memory := memory }, [event]⟩

def get (s : Session) (name : String) : Value := s.memory.get name .null

/-- The bookkeeping name under which the random state is saved. -/
def randomState : String := "RANDOM_STATE"

/-- All that a session remembers, with its random state. -/
def data (s : Session) : Memory :=
  s.memory.note randomState (.count (Int64.ofNat s.random.toNat))

/-- Remembers what was saved. The random state is taken over if it is one. -/
def load (s : Session) (data : Memory) : Session :=
  let random := match data.count? randomState with
    | some n => if 0 ≤ n ∧ n.toInt < UInt32.size then n.toNatClampNeg.toUInt32 else s.random
    | none => s.random
  { s with memory := data, random := random }

/-- Forgets everything but the random state. -/
def clear (s : Session) : Session := { s with memory := ∅ }

def on (s : Session) (kind : Event.Kind) : Nat × Session :=
  let (id, listeners) := s.listeners.on kind
  (id, { s with listeners := listeners })

def off (s : Session) (id : Nat) : Except Fault Session :=
  match s.listeners.off? id with
  | some listeners => .ok { s with listeners := listeners }
  | none => .error .listenerNotFound

/-- A session at the beginning of a script. -/
def ofScript (script : Script) (random : UInt32) (dictionary : Std.ExtTreeMap String String := ∅)
    (data : Option Memory := none) : Session :=
  let s : Session := {
    script := script
    stack := [⟨.document script.content, 0⟩]
    memory := ∅
    dictionary := dictionary
    listeners := {}
    random := random }
  match data with
  | some saved => s.load saved
  | none => s

end Session
end Dialogue
