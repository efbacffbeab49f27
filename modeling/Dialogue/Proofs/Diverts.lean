import Dialogue.Proofs.Options

/-! Diverts. A step makes at most one divert. Without one it leaves what is below the topmost frame
where it is, and it fails only by a divert to a block of a name that no block has. -/
namespace Dialogue

/-- Where entering a cell diverts to. -/
def Cell.target? (m : Memory) : Cell → Option Target
  | .divert _ target => some (.ofName target)
  | .conditional _ condition body => if condition.holds m then target? m body else none
  | .acting _ action body => target? (action.run m).memory body
  | _ => none

theorem Cell.core_of_target? {m : Memory} {cell : Cell} {target : Target}
    (diverts : cell.target? m = some target) :
    ∃ index name, cell.core = .divert index name ∧ Target.ofName name = target := by
  fun_induction Cell.target? m cell with
  | case1 m index name => exact ⟨index, name, rfl, Option.some.inj diverts⟩
  | case2 m index condition body held ih => exact ih diverts
  | case3 => cases diverts
  | case4 m index action body ih => exact ih diverts
  | case5 => cases diverts

namespace Session

/-- Where the next step diverts to. -/
def target? (s : Session) : Option Target :=
  s.stack.head?.bind fun frame =>
    frame.place.cells[frame.cursor]?.bind (Cell.target? s.memory)

theorem cell_of_target? {s : Session} {target : Target} (diverts : s.target? = some target) :
    ∃ frame below cell, s.stack = frame :: below ∧
      frame.place.cells[frame.cursor]? = some cell ∧ cell.target? s.memory = some target := by
  obtain ⟨frame, top, diverts⟩ := Option.bind_eq_some_iff.1 diverts
  obtain ⟨cell, entered, diverts⟩ := Option.bind_eq_some_iff.1 diverts
  obtain ⟨below, stack⟩ := List.head?_eq_some_iff.1 top
  exact ⟨frame, below, cell, stack, entered, diverts⟩

theorem target?_of_cell {s : Session} {frame : Frame} {below : List Frame} {cell : Cell}
    (stack : s.stack = frame :: below) (entered : frame.place.cells[frame.cursor]? = some cell) :
    s.target? = cell.target? s.memory := by
  simp [target?, stack, entered]

theorem Flow.proceed_ne_failed (fault : Fault) : Flow.proceed ≠ .failed fault := nofun

theorem Flow.beat_ne_failed (beat : Beat) (fault : Fault) : Flow.beat beat ≠ .failed fault := nofun

/-- How a step that enters a cell goes on, and with what stack, by where it diverts to. -/
inductive Moves (script : Script) (before : List Frame) (flow : Flow) (after : List Frame) :
    Option Target → Prop
  | onwards (upper : List Frame) (grown : after = upper ++ before)
      (fine : ∀ fault, flow ≠ .failed fault) : Moves script before flow after none
  | parent (left : after = leave before) (goes : flow = .proceed) :
      Moves script before flow after (some .parent)
  | finish (ended : after = [⟨.document script.content, script.content.length + 1⟩])
      (goes : flow = .proceed) : Moves script before flow after (some .finish)
  | block {name : String} {block : Script.Block} (found : script.block? name = some block)
      (entered : after = ⟨.block name block.cells, 0⟩ :: before) (goes : flow = .proceed) :
      Moves script before flow after (some (.block name))
  | unknown {name : String} (missing : script.block? name = none) (kept : after = before)
      (failed : flow = .failed (.unknownBlock name)) :
      Moves script before flow after (some (.block name))

/-- A list of options is left, stays, or gets the content of an option on top of it. -/
theorem present_cases (s : Session) (header : Option String) (marks : Marks) (items : List Cell) :
    let step := s.present header marks items
    (∀ fault, step.flow ≠ .failed fault) ∧
      (step.session.stack = s.stack.tail ∨
        ∃ upper : List Frame, step.session.stack = upper ++ s.stack) := by
  unfold present
  generalize Choice.offer s.memory items = offered
  obtain ⟨visible, memory⟩ := offered
  match visible with
  | [] => exact ⟨Flow.proceed_ne_failed, .inl rfl⟩
  | [only] =>
      cases fallback : only.mode == .fallback with
      | true =>
          simp only [fallback, if_true]
          exact ⟨Flow.proceed_ne_failed, .inr ⟨[_], rfl⟩⟩
      | false =>
          simp only [fallback, Bool.false_eq_true, if_false]
          exact ⟨Flow.beat_ne_failed _, .inr ⟨[], rfl⟩⟩
  | first :: second :: rest => exact ⟨Flow.beat_ne_failed _, .inr ⟨[], rfl⟩⟩

theorem moves_divert (s : Session) (target : String) :
    Moves s.script s.stack (s.divert target).flow (s.divert target).session.stack
      (some (.ofName target)) := by
  unfold divert
  split
  · next parent =>
      rw [parent]
      exact .parent rfl rfl
  · next finish =>
      rw [finish]
      exact .finish rfl rfl
  · next name named =>
      rw [named]
      split
      · next block found => exact .block found rfl rfl
      · next missing => exact .unknown missing rfl rfl

theorem moves_enter (s : Session) (cell : Cell) :
    Moves s.script s.stack (s.enter cell).flow (s.enter cell).session.stack
      (cell.target? s.memory) := by
  fun_induction enter s cell with
  | case1 s index text marks => exact .onwards [] rfl (Flow.beat_ne_failed _)
  | case2 s index cells => exact .onwards [_] rfl Flow.proceed_ne_failed
  | case3 s index name marks items =>
      obtain ⟨fine, left | ⟨upper, grown⟩⟩ :=
        present_cases (s.push (.options name marks items)) name marks items
      · exact .onwards [] left fine
      · exact .onwards (upper ++ [_]) (by rw [grown, List.append_assoc]; rfl) fine
  | case4 s => exact .onwards [] rfl Flow.proceed_ne_failed
  | case5 s index target => exact moves_divert s target
  | case6 s index mode alternatives picked memory random found =>
      cases picked with
      | none => exact .onwards [] rfl Flow.proceed_ne_failed
      | some alternative => exact .onwards [_] rfl Flow.proceed_ne_failed
  | case7 s index condition body held ih => simpa [Cell.target?, held] using ih
  | case8 s index condition body failed =>
      simp only [Cell.target?, failed]
      exact .onwards [] rfl Flow.proceed_ne_failed
  | case9 s index action body effect step ih => exact ih
  | case10 s index action effect => exact .onwards [] rfl Flow.proceed_ne_failed

/-- A step that diverts has read the divert: the topmost frame is past it. -/
theorem moves_of_target? {s : Session} {target : Target} (diverts : s.target? = some target) :
    ∃ frame below, s.stack = frame :: below ∧
      Moves s.script ({ frame with cursor := frame.cursor + 1 } :: below) s.step.flow
        s.step.session.stack (some target) := by
  obtain ⟨frame, below, cell, stack, entered, diverts⟩ := cell_of_target? diverts
  refine ⟨frame, below, stack, ?_⟩
  rw [step_of_cell stack entered, ← diverts]
  exact moves_enter { s with stack := { frame with cursor := frame.cursor + 1 } :: below } cell

theorem step_of_undiverted_of_walked {s : Session} {frame : Frame} {below : List Frame}
    (stack : s.stack = frame :: below) (walked : frame.place.isList = false)
    (straight : s.target? = none) :
    (∀ fault, s.step.flow ≠ .failed fault) ∧
      (s.step.session.stack = below ∨
        ∃ upper cursor, s.step.session.stack = upper ++ { frame with cursor } :: below) := by
  cases entered : frame.place.cells[frame.cursor]? with
  | some cell =>
      rw [target?_of_cell stack entered] at straight
      have moved :=
        moves_enter { s with stack := { frame with cursor := frame.cursor + 1 } :: below } cell
      rw [← step_of_cell stack entered, straight] at moved
      cases moved with
      | onwards upper grown fine => exact ⟨fine, .inr ⟨upper, _, grown⟩⟩
  | none =>
      cases below with
      | nil =>
          rw [step_of_last stack walked entered]
          exact ⟨nofun, .inr ⟨[], _, rfl⟩⟩
      | cons next below =>
          rw [step_of_end stack walked entered]
          exact ⟨Flow.proceed_ne_failed, .inl rfl⟩

/-- Without a divert the topmost frame is left, or it stays and what is below it with it. -/
theorem step_of_undiverted {s : Session} {frame : Frame} {below : List Frame}
    (stack : s.stack = frame :: below) (straight : s.target? = none) :
    (∀ fault, s.step.flow ≠ .failed fault) ∧
      (s.step.session.stack = below ∨
        ∃ upper cursor, s.step.session.stack = upper ++ { frame with cursor } :: below) := by
  cases list : frame.place.isList with
  | false => exact step_of_undiverted_of_walked stack list straight
  | true =>
      obtain ⟨place, cursor⟩ := frame
      cases place with
      | options header marks items =>
          obtain ⟨fine, left | ⟨upper, grown⟩⟩ := present_cases s header marks items
          · rw [step_of_list stack, left, stack]
            exact ⟨fine, .inl rfl⟩
          · rw [step_of_list stack, grown, stack]
            exact ⟨fine, .inr ⟨upper, cursor, rfl⟩⟩
      | document cells | block name cells | content cells => cases list

/-- A step fails exactly if it diverts to a block of a name that no block has. -/
theorem step_failed_iff {s : Session} {fault : Fault} :
    s.step.flow = .failed fault ↔
      ∃ name, s.target? = some (.block name) ∧ s.script.block? name = none ∧
        fault = .unknownBlock name := by
  constructor
  · intro failing
    cases diverts : s.target? with
    | none =>
        cases stack : s.stack with
        | nil => simp [step, stack] at failing
        | cons frame below => exact absurd failing ((step_of_undiverted stack diverts).1 fault)
    | some target =>
        obtain ⟨frame, below, -, moved⟩ := moves_of_target? diverts
        rw [failing] at moved
        cases moved with
        | @unknown name missing kept failed => exact ⟨name, rfl, missing, Flow.failed.inj failed⟩
        | parent left goes | finish ended goes | block found entered goes => cases goes
  · rintro ⟨name, diverts, missing, rfl⟩
    obtain ⟨frame, below, -, moved⟩ := moves_of_target? diverts
    cases moved with
    | block found entered goes =>
        rw [missing] at found
        cases found
    | unknown missing kept failed => exact failed

end Session
end Dialogue
