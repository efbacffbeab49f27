import Dialogue.Proofs.Stack
import Mathlib.Data.FinEnum
import Mathlib.Data.Prod.Lex
import Mathlib.Data.Set.Card

/-! Requests that return. A step that goes on either diverts to a block of some name, or takes an
option that was not taken before, or leaves less to be entered. The second can happen only
finitely often in between, so a request for the next beat goes on for ever only by diverting to
blocks again and again. -/
namespace Dialogue

namespace Target

def name? : Target → Option String
  | block name => some name
  | parent | finish => none

theorem name?_eq_some_iff {target : Target} {name : String} :
    target.name? = some name ↔ target = .block name := by
  cases target <;> simp [name?]

end Target

/-- The block that entering a cell diverts to. -/
def Cell.jump? (m : Memory) : Cell → Option String
  | .divert _ target => (Target.ofName target).name?
  | .conditional _ condition body => if condition.holds m then jump? m body else none
  | .acting _ action body => jump? (action.run m).memory body
  | _ => none

/-- How much of a place is not entered yet. -/
noncomputable def Frame.left (frame : Frame) : Nat := sizeOf (frame.place.cells.drop frame.cursor)

/-- How much of the places of a stack is not entered yet. -/
noncomputable def work (frames : List Frame) : Nat := (frames.map Frame.left).sum

@[simp] theorem work_nil : work [] = 0 := rfl

namespace Session

/-- The block that the next step diverts to. -/
def jump? (s : Session) : Option String :=
  s.stack.head?.bind fun frame =>
    frame.place.cells[frame.cursor]?.bind (Cell.jump? s.memory)

end Session

namespace Session

/-- The session after so many steps. -/
def after (n : Nat) (s : Session) : Session := (fun t => t.step.session)^[n] s

theorem after_succ (s : Session) (n : Nat) : s.after (n + 1) = (s.after n).step.session :=
  Function.iterate_succ_apply' _ n s

theorem Plays.after {script : Script} {s : Session} (plays : s.Plays script) (n : Nat) :
    (s.after n).Plays script := by
  induction n with
  | zero => exact plays
  | succ n ih =>
      rw [after_succ]
      exact ih.step

end Session
end Dialogue
