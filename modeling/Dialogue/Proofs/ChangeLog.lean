import Dialogue.Proofs.Delivery
import Dialogue.Proofs.SingleUse

/-! The log of changes. Every assignment that is done and every variable that is set announces one
change, with the value that the variable had before it, and nothing else touches a variable. So
whoever listens to the changes of a run can tell from them what the variables are at its end. -/
namespace Dialogue

namespace Event

/-- The variables after an event. -/
def apply (values : Std.ExtTreeMap String Value) : Event → Std.ExtTreeMap String Value
  | variableChanged name value _ => values.insert name value
  | triggered _ => values

/-- The variable that an event announces a change of. -/
def changed? : Event → Option String
  | variableChanged name _ _ => some name
  | triggered _ => none

end Event

/-! The names under which values are stored, one for each assignment that is done, in order. -/

namespace Assignment

def names : Assignment → List String
  | store name _ _ => [name]
  | chain name _ next => next.names ++ [name]

end Assignment

def Action.names : Action → List String
  | assign assignments => assignments.flatMap Assignment.names
  | trigger _ => []

def Turn.names : Turn → List String
  | shown _ => []
  | taken choice => choice.actions.flatMap Action.names

/-- The names that entering a cell stores under. -/
def Cell.names (m : Memory) : Cell → List String
  | .options _ _ _ items => (Turn.ofItems? m items).toList.flatMap Turn.names
  | .conditional _ condition body => if condition.holds m then names m body else []
  | .acting _ action body => action.names ++ names (action.run m).memory body
  | .act _ action => action.names
  | _ => []

/-- Whether events tell what was stored under some names: one change for each, with the value that
it replaced, from some variables to others. -/
inductive Tells : Std.ExtTreeMap String Value → List String → List Event →
    Std.ExtTreeMap String Value → Prop
  | nothing (values : Std.ExtTreeMap String Value) : Tells values [] [] values
  | changed {values after : Std.ExtTreeMap String Value} {names : List String}
      {events : List Event} (name : String) (value : Value)
      (rest : Tells (values.insert name value) names events after) :
      Tells values (name :: names)
        (.variableChanged name value (values[name]?.getD .null) :: events) after
  | triggered {values after : Std.ExtTreeMap String Value} {names : List String}
      {events : List Event} (name : String) (rest : Tells values names events after) :
      Tells values names (.triggered name :: events) after

namespace Tells

variable {before middle after : Std.ExtTreeMap String Value} {names : List String}
  {events : List Event}

theorem append {more : List String} {later : List Event} (first : Tells before names events middle)
    (second : Tells middle more later after) :
    Tells before (names ++ more) (events ++ later) after := by
  induction first with
  | nothing values => exact second
  | changed name value rest ih => exact .changed name value (ih second)
  | triggered name rest ih => exact .triggered name (ih second)

theorem variables_eq (tells : Tells before names events after) :
    after = events.foldl Event.apply before := by
  induction tells with
  | nothing values => rfl
  | changed name value rest ih => exact ih
  | triggered name rest ih => exact ih

theorem filterMap_eq (tells : Tells before names events after) :
    events.filterMap Event.changed? = names := by
  induction tells with
  | nothing values => rfl
  | changed name value rest ih => exact congrArg (name :: ·) ih
  | triggered name rest ih => exact ih

/-- A change tells the value that the changes before it give. -/
theorem previous_eq (tells : Tells before names events after) {first rest : List Event}
    {name : String} {value previous : Value}
    (split : events = first ++ .variableChanged name value previous :: rest) :
    previous = (first.foldl Event.apply before)[name]?.getD .null := by
  induction tells generalizing first with
  | nothing values => simp at split
  | changed key stored others ih =>
      cases first with
      | nil =>
          obtain ⟨rfl, rfl, rfl⟩ := Event.variableChanged.inj (List.cons.inj split).1
          rfl
      | cons event earlier =>
          obtain ⟨rfl, later⟩ := List.cons.inj split
          exact ih later
  | triggered other others ih =>
      cases first with
      | nil => cases (List.cons.inj split).1
      | cons event earlier =>
          obtain ⟨rfl, later⟩ := List.cons.inj split
          have previously := ih later
          exact previously

/-- What is triggered besides is no part of the log. -/
theorem changes (tells : Tells before names events after) :
    Tells before names (events.filter fun event => Event.Kind.variableChanged == event.kind)
      after := by
  induction tells with
  | nothing values => exact .nothing values
  | changed name value rest ih => exact .changed name value ih
  | triggered name rest ih => exact ih

end Tells

theorem Memory.tells_write (m : Memory) (name : String) (value : Value) :
    Tells m.values [name] [(m.write name value).2] (m.write name value).1.values :=
  .changed name value (.nothing _)

theorem Assignment.tells_run (m : Memory) (assignment : Assignment) :
    Tells m.values assignment.names (assignment.run m).events
      (assignment.run m).memory.values := by
  induction assignment with
  | store name update value => exact m.tells_write name _
  | chain name update next ih => exact ih.append ((next.run m).memory.tells_write name _)

theorem Assignment.tells_runAll (m : Memory) (assignments : List Assignment) :
    Tells m.values (assignments.flatMap Assignment.names) (runAll m assignments).events
      (runAll m assignments).memory.values := by
  induction assignments generalizing m with
  | nil => exact .nothing _
  | cons first rest ih => exact (first.tells_run m).append (ih (first.run m).memory)

theorem Action.tells_run (m : Memory) (action : Action) :
    Tells m.values action.names (action.run m).events (action.run m).memory.values := by
  cases action with
  | assign assignments => exact Assignment.tells_runAll m assignments
  | trigger events =>
      simp only [run, names]
      induction events with
      | nil => exact .nothing _
      | cons name rest ih => exact .triggered name ih

theorem Action.tells_runAll (m : Memory) (actions : List Action) :
    Tells m.values (actions.flatMap Action.names) (runAll m actions).events
      (runAll m actions).memory.values := by
  induction actions generalizing m with
  | nil => exact .nothing _
  | cons first rest ih => exact (first.tells_run m).append (ih (first.run m).memory)

namespace Session

theorem tells_select (s : Session) (choice : Choice) :
    Tells s.memory.values (choice.actions.flatMap Action.names) (s.select choice).2
      (s.select choice).1.memory.values := by
  unfold select
  split
  · exact Action.tells_runAll (s.memory.visit choice.index) choice.actions
  · exact Action.tells_runAll (Memory.note (s.memory.visit choice.index) _ _) choice.actions

theorem tells_present (s : Session) (header : Option String) (marks : Marks) (items : List Cell) :
    let step := s.present header marks items
    Tells s.memory.values ((Turn.ofItems? s.memory items).toList.flatMap Turn.names) step.events
      step.session.memory.values := by
  have kept : (Choice.offer s.memory items).2.values = s.memory.values := rfl
  unfold present Turn.ofItems?
  generalize Choice.offer s.memory items = offered at kept ⊢
  obtain ⟨visible, memory⟩ := offered
  rw [← kept]
  match visible with
  | [] => exact .nothing _
  | [only] =>
      by_cases fallback : (only.mode == .fallback) = true
      · simp only [Turn.of?, fallback, if_true, Option.toList_some, List.flatMap_singleton]
        exact tells_select { s with memory := memory } only
      · simp only [Turn.of?, fallback]
        exact .nothing _
  | first :: second :: rest => exact .nothing _

theorem tells_divert (s : Session) (target : String) :
    Tells s.memory.values [] (s.divert target).events (s.divert target).session.memory.values := by
  unfold divert
  split
  · exact .nothing _
  · exact .nothing _
  · split <;> exact .nothing _

theorem tells_enter (s : Session) (cell : Cell) :
    Tells s.memory.values (cell.names s.memory) (s.enter cell).events
      (s.enter cell).session.memory.values := by
  fun_induction enter s cell with
  | case1 s index text marks => exact .nothing _
  | case2 s index cells => exact .nothing _
  | case3 s index name marks items =>
      exact tells_present (s.push (.options name marks items)) name marks items
  | case4 s => exact .nothing _
  | case5 s index target => exact tells_divert s target
  | case6 s index mode alternatives picked memory random found =>
      obtain ⟨-, kept⟩ :=
        Variation.kept_pick index mode alternatives alternatives.length s.memory s.random
      rw [found] at kept
      rw [← kept]
      cases picked with
      | none => exact .nothing _
      | some alternative => exact .nothing _
  | case7 s index condition body held ih => simpa [Cell.names, held] using ih
  | case8 s index condition body failed =>
      simp only [Cell.names, failed]
      exact .nothing _
  | case9 s index action body effect step ih => exact (action.tells_run s.memory).append ih
  | case10 s index action effect => exact action.tells_run s.memory

/-- The names that the next step stores under. -/
def names (s : Session) : List String :=
  match s.stack with
  | [] => []
  | ⟨.options _ _ items, _⟩ :: _ => (Turn.ofItems? s.memory items).toList.flatMap Turn.names
  | frame :: _ => frame.place.cells[frame.cursor]?.toList.flatMap (Cell.names s.memory)

theorem tells_step_of_walked {s : Session} {frame : Frame} {below : List Frame}
    (stack : s.stack = frame :: below) (walked : frame.place.isList = false) :
    Tells s.memory.values (frame.place.cells[frame.cursor]?.toList.flatMap (Cell.names s.memory))
      s.step.events s.step.session.memory.values := by
  cases entered : frame.place.cells[frame.cursor]? with
  | some cell =>
      rw [step_of_cell stack entered, Option.toList_some, List.flatMap_singleton]
      exact tells_enter { s with stack := { frame with cursor := frame.cursor + 1 } :: below } cell
  | none =>
      cases below with
      | nil =>
          rw [step_of_last stack walked entered]
          exact .nothing _
      | cons next below =>
          rw [step_of_end stack walked entered]
          exact .nothing _

theorem tells_step (s : Session) :
    Tells s.memory.values s.names s.step.events s.step.session.memory.values := by
  unfold names
  match stack : s.stack with
  | [] =>
      simp only [step, stack]
      exact .nothing _
  | ⟨.options header marks items, cursor⟩ :: below =>
      rw [step_of_list stack]
      exact tells_present s header marks items
  | ⟨.document cells, cursor⟩ :: below
  | ⟨.block name cells, cursor⟩ :: below
  | ⟨.content cells, cursor⟩ :: below => exact tells_step_of_walked stack rfl

/-- The names that a request for the next beat stores under. -/
def nextNames : Nat → Session → List String
  | 0, _ => []
  | allowance + 1, s =>
      s.names ++ match s.step.flow with
        | .proceed => nextNames allowance s.step.session
        | _ => []

theorem tells_next (allowance : Nat) (s : Session) :
    Tells s.memory.values (s.nextNames allowance) (s.next allowance).events
      (s.next allowance).session.memory.values := by
  induction allowance generalizing s with
  | zero => exact .nothing _
  | succ allowance ih =>
      have first := tells_step s
      cases flow : s.step.flow with
      | proceed =>
          simp only [nextNames, next, flow]
          exact first.append (ih s.step.session)
      | beat beat | finished | failed fault =>
          simpa only [nextNames, next, flow, List.append_nil] using first

/-- The names that a request stores under. -/
def stores (s : Session) : Operation → List String
  | .next allowance => s.nextNames allowance
  | .choose index => s.offered[index]?.toList.flatMap fun choice =>
      choice.actions.flatMap Action.names
  | .set name _ => [name]
  | _ => []

theorem tells_choose_of_list {s : Session} {header : Option String} {marks : Marks}
    {items : List Cell} {cursor : Nat} {below : List Frame}
    (stack : s.stack = ⟨.options header marks items, cursor⟩ :: below) (index : Nat) :
    Tells s.memory.values (s.stores (.choose index)) (s.choose index).events
      (s.choose index).session.memory.values := by
  have chosen := choose_of_offer stack (Prod.eta (Choice.offer s.memory items)).symm index
  rw [chosen, stores, offered_of_list stack]
  cases found : (Choice.offer s.memory items).1[index]? with
  | none => exact .nothing _
  | some choice =>
      rw [Option.toList_some, List.flatMap_singleton]
      exact tells_select { s with memory := (Choice.offer s.memory items).2 } choice

theorem tells_choose (s : Session) (index : Nat) :
    Tells s.memory.values (s.stores (.choose index)) (s.choose index).events
      (s.choose index).session.memory.values := by
  match stack : s.stack with
  | ⟨.options header marks items, cursor⟩ :: below => exact tells_choose_of_list stack index
  | []
  | ⟨.document cells, cursor⟩ :: below
  | ⟨.block name cells, cursor⟩ :: below
  | ⟨.content cells, cursor⟩ :: below =>
      simp only [stores, offered, choose, stack]
      exact .nothing _

theorem events_orRefuse (s : Session) (asked : Except Fault Session) :
    (s.orRefuse asked).events = [] := by
  cases asked <;> rfl

theorem tells_perform (s : Session) {op : Operation} (keeps : op.overwrites = false) :
    Tells s.memory.values (s.stores op) (s.perform op).events
      (s.perform op).session.memory.values := by
  cases op with
  | next allowance => exact tells_next allowance s
  | choose index => exact tells_choose s index
  | set name value => exact s.memory.tells_write name value
  | load data | read text | clear => cases keeps
  | get name | data | translate dictionary | on kind => exact .nothing _
  | start block =>
      rw [memory_start, perform, events_orRefuse]
      exact .nothing _
  | off id =>
      rw [memory_off, perform, events_orRefuse]
      exact .nothing _

/-- The names that a run stores under. -/
def stored : Session → List Operation → List String
  | _, [] => []
  | s, op :: rest => s.stores op ++ (s.perform op).session.stored rest

theorem tells_run (s : Session) {ops : List Operation}
    (keeps : ∀ op ∈ ops, op.overwrites = false) :
    Tells s.memory.values (s.stored ops) ((s.run ops).1.flatMap Report.events)
      (s.run ops).2.memory.values := by
  induction ops generalizing s with
  | nil => exact .nothing _
  | cons op rest ih =>
      obtain ⟨here, others⟩ := List.forall_mem_cons.1 keeps
      exact (tells_perform s here).append (ih (s.perform op).session others)

/-- The changes that a listener receives are a complete log, as long as it stays and the memory is
not overwritten. Done one after another on the variables at the start they give those at the end,
each tells the value that the ones before it give, and there is one for every assignment that the
run does and for every variable that it sets, and no other. -/
theorem variables_of_received (script : Script) (random : UInt32)
    (dictionary : Std.ExtTreeMap String String) (data : Option Memory)
    (earlier ops : List Operation) (listener : Listener) :
    let s := ((ofScript script random dictionary data).run earlier).2
    let received := (s.run ops).1.flatMap (Report.received listener.id)
    listener ∈ s.listeners.registered → listener.kind = .variableChanged →
    (∀ op ∈ ops, op.overwrites = false) → (∀ op ∈ ops, op ≠ .off listener.id) →
    (s.run ops).2.data.values = received.foldl Event.apply s.data.values ∧
      (∀ first event rest, received = first ++ event :: rest → ∃ name value,
        event = .variableChanged name value
          ((first.foldl Event.apply s.data.values)[name]?.getD .null)) ∧
      received.filterMap Event.changed? = s.stored ops := by
  intro s received member kind keeps stays
  have lawful : s.listeners.Lawful := lawful_run (lawful_ofScript ..) earlier
  have heard : received = ((s.run ops).1.flatMap Report.events).filter
      fun event => Event.Kind.variableChanged == event.kind := by
    rw [← kind]
    exact received_run lawful member stays
  have tells : Tells s.data.values (s.stored ops) received (s.run ops).2.data.values := by
    rw [heard]
    exact (tells_run s keeps).changes
  refine ⟨tells.variables_eq, ?_, tells.filterMap_eq⟩
  intro first event rest split
  have inside : event ∈ received := by simp [split]
  rw [heard] at inside
  have same := (List.mem_filter.1 inside).2
  cases event with
  | triggered name => cases same
  | variableChanged name value previous =>
      have told := tells.previous_eq split
      exact ⟨name, value, by rw [told]⟩

/-- A find that is stored twice, and a price to pay. -/
def cellar : Document where
  content := [
    .acting (.assign [.chain "purse" .replace
      (.store "chest" .replace (.constant (.string "gold")))]) (.line "Found" {}),
    .options none {} [
      .acting (.assign [.store "purse" .replace (.constant .null)]) (.option "Pay" .once {} [])],
    .act (.trigger ["paid"]),
    .act (.assign [.store "left" .replace (.variable "chest")])]

theorem variables_of_received_cellar :
    let s := ((ofScript (Script.ofDocument cellar) 1).run [.on .triggered, .on .variableChanged]).2
    let ops : List Operation :=
      [.next 1, .next 1, .choose 0, .set "chest" (.bool false), .off 0, .next 9]
    let received := (s.run ops).1.flatMap (Report.received 1)
    ⟨1, .variableChanged⟩ ∈ s.listeners.registered ∧ (∀ op ∈ ops, op.overwrites = false) ∧
      (∀ op ∈ ops, op ≠ .off 1) ∧
      received.filterMap Event.changed? = ["chest", "purse", "purse", "chest", "left"] ∧
      (s.run ops).2.data.values = received.foldl Event.apply ∅ := by
  intro s ops received
  have member : ⟨1, .variableChanged⟩ ∈ s.listeners.registered := by decide
  have keeps : ∀ op ∈ ops, op.overwrites = false := by simp [ops, Operation.overwrites]
  have stays : ∀ op ∈ ops, op ≠ .off 1 := by simp [ops]
  have stored : s.stored ops = ["chest", "purse", "purse", "chest", "left"] := by decide +kernel
  obtain ⟨values, -, names⟩ := variables_of_received (Script.ofDocument cellar) 1 ∅ none
    [.on .triggered, .on .variableChanged] ops ⟨1, .variableChanged⟩ member rfl keeps stays
  exact ⟨member, keeps, stays, names.trans stored, values⟩

end Session
end Dialogue
