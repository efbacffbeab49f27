import Dialogue.Memory.Json
import Dialogue.Session

/-! What can be asked of a session, and what a sequence of requests comes to. A request for the next
beat carries its own allowance of steps, so that a run may also break off inside one. -/
namespace Dialogue

def Place.isList : Place → Bool
  | options .. => true
  | _ => false

namespace Session

inductive Operation where
  | next (allowance : Nat)
  | choose (index : Nat)
  | start (block : Option String)
  | set (name : String) (value : Value)
  | get (name : String)
  | data
  | load (data : Memory)
  | read (text : String)
  | clear
  | translate (dictionary : Std.ExtTreeMap String String)
  | on (kind : Event.Kind)
  | off (id : Nat)

inductive Answer where
  | reply (reply : Reply)
  | done
  | refused (fault : Fault)
  | malformed
  | value (value : Value)
  | memory (data : Memory)
  | listener (id : Nat)

namespace Operation

/-- The requests that put other contents in the place of what is remembered. -/
def overwrites : Operation → Bool
  | load _ | read _ | clear => true
  | _ => false

/-- The requests that change who listens. -/
def registers : Operation → Bool
  | on _ | off _ => true
  | _ => false

/-- The requests that start again. -/
def starts : Operation → Bool
  | start _ => true
  | _ => false

end Operation

def Answer.ofExcept : Except Fault Unit → Answer
  | .ok () => .done
  | .error fault => .refused fault

/-- A session that was asked for, or the one at hand and why not. -/
def orRefuse (s : Session) : Except Fault Session → Outcome Answer
  | .ok after => ⟨.done, after, []⟩
  | .error fault => ⟨.refused fault, s, []⟩

def perform (s : Session) : Operation → Outcome Answer
  | .next allowance =>
      let out := s.next allowance
      ⟨.reply out.result, out.session, out.events⟩
  | .choose index =>
      let out := s.choose index
      ⟨.ofExcept out.result, out.session, out.events⟩
  | .start block => s.orRefuse (s.start block)
  | .set name value =>
      let out := s.set name value
      ⟨.value out.result, out.session, out.events⟩
  | .get name => ⟨.value (s.get name), s, []⟩
  | .data => ⟨.memory s.data, s, []⟩
  | .load data => ⟨.done, s.load data, []⟩
  | .read text =>
      match Memory.read? text with
      | some data => ⟨.done, s.load data, []⟩
      | none => ⟨.malformed, s, []⟩
  | .clear => ⟨.done, s.clear, []⟩
  | .translate dictionary => ⟨.done, { s with dictionary := dictionary }, []⟩
  | .on kind => ⟨.listener (s.on kind).1, (s.on kind).2, []⟩
  | .off id => s.orRefuse (s.off id)

/-- What the caller and the listeners see of one request. -/
structure Report where
  answer : Answer
  events : List Event
  deliveries : List (Nat × Event)

def Outcome.report (out : Outcome Answer) (listeners : Listeners) : Report :=
  ⟨out.result, out.events, listeners.deliver out.events⟩

/-- What a sequence of requests shows, and the session it leaves. -/
def run : Session → List Operation → List Report × Session
  | s, [] => ([], s)
  | s, op :: rest =>
      let out := s.perform op
      let later := run out.session rest
      (out.report s.listeners :: later.1, later.2)

@[simp] theorem run_nil (s : Session) : s.run [] = ([], s) := rfl

theorem run_cons (s : Session) (op : Operation) (rest : List Operation) :
    s.run (op :: rest) =
      ((s.perform op).report s.listeners :: ((s.perform op).session.run rest).1,
        ((s.perform op).session.run rest).2) := rfl

/-! One step, by what the topmost frame stands at. -/

theorem step_of_list {s : Session} {header : Option String} {marks : Marks} {items : List Cell}
    {cursor : Nat} {below : List Frame}
    (stack : s.stack = ⟨.options header marks items, cursor⟩ :: below) :
    s.step = s.present header marks items := by
  simp only [step, stack]

theorem step_of_cell {s : Session} {frame : Frame} {below : List Frame} {cell : Cell}
    (stack : s.stack = frame :: below) (entered : frame.place.cells[frame.cursor]? = some cell) :
    s.step = { s with stack := { frame with cursor := frame.cursor + 1 } :: below }.enter cell := by
  obtain ⟨place, cursor⟩ := frame
  cases place with
  | options header marks items => simp [Place.cells] at entered
  | document cells | block name cells | content cells => simp only [step, stack, entered]

theorem step_of_last {s : Session} {frame : Frame} (stack : s.stack = [frame])
    (walked : frame.place.isList = false) (ended : frame.place.cells[frame.cursor]? = none) :
    s.step = ⟨.finished,
      { s with stack := [{ frame with cursor := frame.place.cells.length + 1 }] }, []⟩ := by
  obtain ⟨place, cursor⟩ := frame
  cases place with
  | options header marks items => cases walked
  | document cells | block name cells | content cells =>
      simp only [step, stack, ended, List.isEmpty_nil, if_true]

theorem step_of_end {s : Session} {frame next : Frame} {below : List Frame}
    (stack : s.stack = frame :: next :: below) (walked : frame.place.isList = false)
    (ended : frame.place.cells[frame.cursor]? = none) :
    s.step = proceed { s with stack := next :: below } := by
  obtain ⟨place, cursor⟩ := frame
  cases place with
  | options header marks items => cases walked
  | document cells | block name cells | content cells =>
      simp only [step, stack, ended, List.isEmpty_cons, Bool.false_eq_true, if_false]

/-- A beat that a request gives is that of a single step, and the session is left as that step
leaves it. -/
theorem next_beat {s : Session} {allowance : Nat} {beat : Beat}
    (shown : (s.next allowance).result = .beat beat) :
    ∃ before : Session, before.step.flow = .beat beat ∧
      (s.next allowance).session = before.step.session := by
  induction allowance generalizing s with
  | zero => simp [next] at shown
  | succ allowance ih =>
      cases flow : s.step.flow with
      | beat first =>
          simp only [next, flow, Reply.beat.injEq] at shown ⊢
          exact ⟨s, by rw [flow, shown], rfl⟩
      | proceed =>
          simp only [next, flow] at shown ⊢
          exact ih shown
      | finished => simp [next, flow] at shown
      | failed fault => simp [next, flow] at shown

end Session
end Dialogue
