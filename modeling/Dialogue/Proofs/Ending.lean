import Dialogue.Proofs.Diverts
import Dialogue.Proofs.Refusal
import Dialogue.Proofs.Stack

/-! The end of a dialogue. A session comes to it where it has walked through its only frame, or
where it diverts there, and it stays at it, whatever is asked of it, until it is started again. -/
namespace Dialogue.Session

variable {s : Session}

/-- Whether the only frame has been walked through. -/
def IsOver (s : Session) : Prop :=
  ∃ place : Place, place.isList = false ∧ s.stack = [⟨place, place.cells.length + 1⟩]

/-- Whether a session has nothing more to give: until it is started again, requests for beats are
answered with the end and change nothing, and there is nothing to choose. -/
def StaysOver (s : Session) : Prop :=
  ∀ ops : List Operation, (∀ op ∈ ops, op.starts = false) →
    let t := (s.run ops).2
    (∀ allowance, t.next (allowance + 1) = ⟨.finished, t, []⟩) ∧
      ∀ index, t.choose index = ⟨.error .nothingToSelect, t, []⟩

namespace IsOver

theorem step (ended : s.IsOver) : s.step = ⟨.finished, s, []⟩ := by
  obtain ⟨place, walked, stack⟩ := ended
  have past : place.cells[place.cells.length + 1]? = none := by simp
  rw [step_of_last stack walked past, ← stack]

theorem next (ended : s.IsOver) (allowance : Nat) :
    s.next (allowance + 1) = ⟨.finished, s, []⟩ := by
  simp only [Session.next, ended.step]

theorem choose (ended : s.IsOver) (index : Nat) :
    s.choose index = ⟨.error .nothingToSelect, s, []⟩ := by
  obtain ⟨place, walked, stack⟩ := ended
  exact choose_of_walked (by simp [stack, walked]) index

/-- Only a start touches the stack. -/
theorem perform (ended : s.IsOver) {op : Operation} (goesOn : op.starts = false) :
    (s.perform op).session.IsOver := by
  cases op with
  | next allowance =>
      cases allowance with
      | zero => exact ended
      | succ allowance =>
          simp only [Session.perform, ended.next]
          exact ended
  | choose index =>
      simp only [Session.perform, ended.choose]
      exact ended
  | start block => cases goesOn
  | set name value | get name | data | load data | clear | translate dictionary | on kind =>
      exact ended
  | read text =>
      simp only [Session.perform]
      cases Memory.read? text <;> exact ended
  | off id =>
      simp only [Session.perform, Session.off]
      cases s.listeners.off? id <;> exact ended

theorem run (ended : s.IsOver) {ops : List Operation} (goesOn : ∀ op ∈ ops, op.starts = false) :
    (s.run ops).2.IsOver := by
  induction ops generalizing s with
  | nil => exact ended
  | cons op rest ih =>
      obtain ⟨first, others⟩ := List.forall_mem_cons.1 goesOn
      exact ih (ended.perform first) others

theorem staysOver (ended : s.IsOver) : s.StaysOver :=
  fun _ goesOn => ⟨(ended.run goesOn).next, (ended.run goesOn).choose⟩

end IsOver

/-! How a session comes to the end. -/

theorem flow_present_ne_finished (s : Session) (header : Option String) (marks : Marks)
    (items : List Cell) : (s.present header marks items).flow ≠ .finished := by
  unfold present
  generalize Choice.offer s.memory items = offered
  obtain ⟨visible, memory⟩ := offered
  match visible with
  | [] => nofun
  | [only] =>
      dsimp only
      split <;> nofun
  | first :: second :: rest => nofun

theorem flow_enter_ne_finished (s : Session) (cell : Cell) : (s.enter cell).flow ≠ .finished := by
  fun_induction Session.enter s cell with
  | case3 s index name marks items => exact flow_present_ne_finished _ name marks items
  | case5 s index target =>
      unfold divert
      repeat' split
      all_goals rintro ⟨⟩
  | case7 s index condition body held ih => exact ih
  | case9 s index action body effect step ih => exact ih
  | _ => rintro ⟨⟩

theorem step_ne_finished_of_cell {frame : Frame} {below : List Frame} {cell : Cell}
    (stack : s.stack = frame :: below) (entered : frame.place.cells[frame.cursor]? = some cell) :
    s.step.flow ≠ .finished := by
  rw [step_of_cell stack entered]
  exact flow_enter_ne_finished _ cell

/-- A step that finds the end has walked through the only frame. -/
theorem isOver_of_step_of_walked {frame : Frame} {below : List Frame}
    (stack : s.stack = frame :: below) (walked : frame.place.isList = false)
    (finished : s.step.flow = .finished) : s.step.session.IsOver := by
  cases entered : frame.place.cells[frame.cursor]? with
  | some cell => exact absurd finished (step_ne_finished_of_cell stack entered)
  | none =>
      cases below with
      | nil =>
          rw [step_of_last stack walked entered]
          exact ⟨frame.place, walked, rfl⟩
      | cons next below =>
          rw [step_of_end stack walked entered] at finished
          cases finished

theorem isOver_of_step (standing : s.stack ≠ []) (finished : s.step.flow = .finished) :
    s.step.session.IsOver := by
  match stack : s.stack with
  | [] => exact absurd stack standing
  | ⟨.options header marks items, cursor⟩ :: below =>
      rw [step_of_list stack] at finished
      exact absurd finished (flow_present_ne_finished s header marks items)
  | ⟨.document cells, cursor⟩ :: below
  | ⟨.block name cells, cursor⟩ :: below
  | ⟨.content cells, cursor⟩ :: below => exact isOver_of_step_of_walked stack rfl finished

theorem Plays.stack_ne_nil {script : Script} (plays : s.Plays script) : s.stack ≠ [] := by
  intro empty
  have stacked := plays.stacked
  rw [empty] at stacked
  cases stacked

theorem Plays.isOver_of_next {script : Script} (plays : s.Plays script) {allowance : Nat}
    (finished : (s.next allowance).result = .finished) :
    (s.next allowance).session.IsOver := by
  induction allowance generalizing s with
  | zero => cases finished
  | succ allowance ih =>
      cases flow : s.step.flow with
      | proceed =>
          simp only [Session.next, flow] at finished ⊢
          exact ih plays.step finished
      | finished =>
          simp only [Session.next, flow]
          exact isOver_of_step plays.stack_ne_nil flow
      | beat beat | failed fault => simp [Session.next, flow] at finished

theorem isOver_of_finish (diverts : s.target? = some .finish) :
    s.step.flow = .proceed ∧ s.step.session.IsOver := by
  obtain ⟨frame, below, -, moved⟩ := moves_of_target? diverts
  cases moved with
  | finish ended goes => exact ⟨goes, _, rfl, ended⟩

/-- The end lasts until a start. Once a request for a beat has been answered with the end, in a
session over a document that was made and asked in any way, every later one is and changes nothing,
and there is nothing to choose, whatever else is asked of the session without starting it again. The
same holds, whatever is on the stack, from the step on that diverts to the end: the request that
makes it is answered with the end, too. -/
theorem staysOver_of_finished (d : Document) (random : UInt32)
    (dictionary : Std.ExtTreeMap String String) (data : Option Memory) (before : List Operation) :
    let s := ((ofScript (Script.ofDocument d) random dictionary data).run before).2
    (∀ allowance, (s.next allowance).result = .finished →
      (s.next allowance).session.StaysOver) ∧
    ∀ t : Session, t.target? = some .finish →
      t.step.session.StaysOver ∧
        ∀ allowance, t.next (allowance + 2) = ⟨.finished, t.step.session, t.step.events⟩ := by
  intro s
  have plays : s.Plays (Script.ofDocument d) :=
    (plays_ofScript _ random dictionary data).run before
  refine ⟨fun allowance finished => (plays.isOver_of_next finished).staysOver, ?_⟩
  intro t diverts
  obtain ⟨flow, ended⟩ := isOver_of_finish diverts
  refine ⟨ended.staysOver, fun allowance => ?_⟩
  rw [Session.next]
  simp only [flow, ended.next, List.append_nil]

/-- A block that ends the dialogue from inside a list of options. -/
def farewell : Document where
  content := [.line "Hello" {}]
  blocks := [⟨"door", [
    .options none {} [
      .option "Leave" .sticky {} [
        .acting (.trigger ["bell"]) (.divert "<end>"),
        .line "Never told" {}]],
    .line "Never told" {}]⟩]

/-- The dialogue was started in the block, so that the end is not that of the place it was started
at. -/
theorem staysOver_of_finished_farewell :
    let s := ((ofScript (Script.ofDocument farewell) 1).run
      [.start (some "door"), .next 2, .choose 0]).2
    s.stack.length = 3 ∧ s.target? = some .finish ∧
      (s.next 2).result = .finished ∧ (s.next 2).events = [.triggered "bell"] ∧
      s.step.session.StaysOver ∧ (s.next 2).session.StaysOver := by
  intro s
  have diverts : s.target? = some .finish := rfl
  have finished : (s.next 2).result = .finished := rfl
  obtain ⟨lasting, ending⟩ := staysOver_of_finished farewell 1 ∅ none
    [.start (some "door"), .next 2, .choose 0]
  exact ⟨rfl, diverts, finished, rfl, (ending s diverts).1, lasting 2 finished⟩

end Dialogue.Session
