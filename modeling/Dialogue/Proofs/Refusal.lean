import Dialogue.Proofs.Options

/-! Choices that are refused. Looking for the chosen option notes how many there are, and a session
that stands at a list does not look at that number again before it notes another one. -/
namespace Dialogue.Session

/-- The session with another entry for the number of options. -/
def recount (s : Session) (datum : Datum) : Session :=
  { s with memory := s.memory.note Memory.optionsCount datum }

/-- Whether two sessions are the same but for the number of options that is noted, and that only
where they stand at a list. -/
inductive Recounted (s : Session) : Session → Prop
  | refl : Recounted s s
  | atList {header : Option String} {marks : Marks} {items : List Cell} {cursor : Nat}
      {below : List Frame} (stack : s.stack = ⟨.options header marks items, cursor⟩ :: below)
      (datum : Datum) : Recounted s (s.recount datum)

section
variable {s : Session} {header : Option String} {marks : Marks} {items : List Cell} {cursor : Nat}
  {below : List Frame} (stack : s.stack = ⟨.options header marks items, cursor⟩ :: below)
  (datum : Datum)
include stack

theorem step_recount : (s.recount datum).step = s.step := by
  have again : (s.recount datum).stack = ⟨.options header marks items, cursor⟩ :: below := stack
  have offered : Choice.offer (s.recount datum).memory items = Choice.offer s.memory items :=
    Choice.offer_note ..
  rw [step_of_list stack, step_of_list again]
  simp only [present, offered]
  rfl

theorem choose_recount (index : Nat) : (s.recount datum).choose index = s.choose index := by
  have again : (s.recount datum).stack = ⟨.options header marks items, cursor⟩ :: below := stack
  have offered : Choice.offer (s.recount datum).memory items = Choice.offer s.memory items :=
    Choice.offer_note ..
  rw [choose_of_offer stack (Prod.eta _).symm, choose_of_offer again (Prod.eta _).symm, offered]
  rfl

/-- A list refuses a position past its last option, and has noted how many there are. -/
theorem choose_of_list_refused {index : Nat} {fault : Fault}
    (refused : (s.choose index).result = .error fault) :
    ∃ datum, s.choose index = ⟨.error fault, s.recount datum, []⟩ := by
  have choosing := choose_of_offer stack (Prod.eta (Choice.offer s.memory items)).symm index
  cases found : (Choice.offer s.memory items).1[index]? with
  | some choice =>
      rw [choosing, found] at refused
      cases refused
  | none =>
      rw [found] at choosing
      rw [choosing] at refused
      obtain rfl := Except.error.inj refused
      exact ⟨_, choosing.trans (by rw [Choice.offer, Memory.note_note, recount])⟩

end

theorem choose_of_walked {s : Session}
    (walked : ∀ frame ∈ s.stack.head?, frame.place.isList = false) (index : Nat) :
    s.choose index = ⟨.error .nothingToSelect, s, []⟩ := by
  unfold choose
  split
  · next stack =>
      rw [stack] at walked
      cases walked _ rfl
  · rfl

theorem recounted_of_refused {s : Session} {index : Nat} {fault : Fault}
    (refused : (s.choose index).result = .error fault) :
    Recounted s (s.choose index).session ∧ (s.choose index).events = [] := by
  match stack : s.stack with
  | ⟨.options header marks items, cursor⟩ :: below =>
      obtain ⟨datum, choosing⟩ := choose_of_list_refused stack refused
      rw [choosing]
      exact ⟨.atList stack datum, rfl⟩
  | []
  | ⟨.document cells, cursor⟩ :: below
  | ⟨.block name cells, cursor⟩ :: below
  | ⟨.content cells, cursor⟩ :: below =>
      rw [choose_of_walked (by simp [stack, Place.isList])]
      exact ⟨.refl, rfl⟩

namespace Recounted

variable {s t : Session}

theorem next (recounted : Recounted s t) (allowance : Nat) :
    t.next (allowance + 1) = s.next (allowance + 1) := by
  cases recounted with
  | refl => rfl
  | atList stack datum => simp only [Session.next, step_recount stack datum]

/-- Every request but a start keeps two sessions apart by no more than the number of options. -/
theorem perform (recounted : Recounted s t) {op : Operation} (goesOn : op.starts = false) :
    Recounted (s.perform op).session (t.perform op).session := by
  cases recounted with
  | refl => exact .refl
  | atList stack datum =>
      cases op with
      | next allowance =>
          cases allowance with
          | zero => exact .atList stack datum
          | succ allowance =>
              simp only [Session.perform, (atList stack datum).next]
              exact .refl
      | choose index =>
          simp only [Session.perform, choose_recount stack datum]
          exact .refl
      | start block => cases goesOn
      | load data | clear => exact .refl
      | get name | data => exact .atList stack datum
      | set name value => exact .atList (s := (s.set name value).session) stack datum
      | translate dictionary => exact .atList (s := { s with dictionary := dictionary }) stack datum
      | on kind => exact .atList (s := (s.on kind).2) stack datum
      | read text =>
          simp only [Session.perform]
          cases Memory.read? text with
          | none => exact .atList stack datum
          | some data => exact .refl
      | off id =>
          have listening : (s.recount datum).listeners = s.listeners := rfl
          simp only [Session.perform, Session.off, listening]
          cases s.listeners.off? id with
          | none => exact .atList stack datum
          | some listeners =>
              exact .atList (s := { s with listeners := listeners }) stack datum

theorem run (recounted : Recounted s t) {ops : List Operation}
    (goesOn : ∀ op ∈ ops, op.starts = false) : Recounted (s.run ops).2 (t.run ops).2 := by
  induction ops generalizing s t with
  | nil => exact recounted
  | cons op rest ih =>
      obtain ⟨first, others⟩ := List.forall_mem_cons.1 goesOn
      exact ih (recounted.perform first) others

end Recounted

/-- A refused choice is not seen. It announces nothing, and of what a session stands at and
remembers it changes nothing but the number of options that is noted. Whatever is asked of the
session afterwards without starting it again, the next request for a beat gives the same, announces
the same and leaves the same session as it would have without the refused choice. -/
theorem choose_refused (s : Session) (index : Nat) {fault : Fault}
    (refused : (s.choose index).result = .error fault) :
    let t := (s.choose index).session
    t.script = s.script ∧ t.stack = s.stack ∧ t.dictionary = s.dictionary ∧
      t.listeners = s.listeners ∧ t.random = s.random ∧
      t.memory.values = s.memory.values ∧ t.memory.access = s.memory.access ∧
      (∀ key, key ≠ Memory.optionsCount →
        t.memory.internal[key]? = s.memory.internal[key]?) ∧
      (s.choose index).events = [] ∧
      ∀ ops : List Operation, (∀ op ∈ ops, op.starts = false) → ∀ allowance,
        (t.run ops).2.next (allowance + 1) = (s.run ops).2.next (allowance + 1) := by
  intro t
  obtain ⟨recounted, quiet⟩ : Recounted s t ∧ _ := recounted_of_refused refused
  have later : ∀ ops : List Operation, (∀ op ∈ ops, op.starts = false) → ∀ allowance,
      (t.run ops).2.next (allowance + 1) = (s.run ops).2.next (allowance + 1) :=
    fun ops goesOn allowance => (recounted.run goesOn).next allowance
  clear_value t
  cases recounted with
  | refl => exact ⟨rfl, rfl, rfl, rfl, rfl, rfl, rfl, fun _ _ => rfl, quiet, later⟩
  | atList stack datum =>
      refine ⟨rfl, rfl, rfl, rfl, rfl, rfl, rfl, fun key other => ?_, quiet, later⟩
      exact Memory.internal_note_of_ne s.memory datum (Ne.symm other)

/-- A list whose title tells how many options it shows, one of them locked. -/
def gate : Document where
  content := [.options (some "%OPTIONS_COUNT% ways") {} [
    .conditional (.variable "key") (.option "Open" .once {} []),
    .option "Leave" .sticky {} []]]

/-- The lock was opened after the list was shown, so the refused choice counts one option more. -/
theorem choose_refused_gate :
    let s := ((ofScript (Script.ofDocument gate) 1).run [.next 1, .set "key" (.bool true)]).2
    (s.choose 2).result = .error (.invalidOption 2) ∧
      s.memory.count? Memory.optionsCount = some 1 ∧
      (s.choose 2).session.memory.count? Memory.optionsCount = some 2 ∧
      (s.choose 2).session.stack = s.stack ∧ (s.choose 2).events = [] ∧
      ((s.choose 2).session.run [.set "key" .null, .choose 1]).2.next 1 =
        (s.run [.set "key" .null, .choose 1]).2.next 1 := by
  intro s
  have refused : (s.choose 2).result = .error (.invalidOption 2) := rfl
  obtain ⟨-, stack, -, -, -, -, -, -, quiet, later⟩ := choose_refused s 2 refused
  exact ⟨refused, rfl, rfl, stack, quiet, later [.set "key" .null, .choose 1] (by decide) 0⟩

end Dialogue.Session
