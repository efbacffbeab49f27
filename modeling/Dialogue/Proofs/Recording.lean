import Dialogue.Proofs.Operation

/-! Sessions up to their end, with the beats and events on the way. A session comes to its end in
finitely many steps exactly if requests for beats, with some allowance each, are answered up to
it. -/
namespace Dialogue.Session

/-- Whether a session goes on after a step. -/
def Flow.goesOn : Flow → Bool
  | .beat _ | .proceed => true
  | .finished | .failed _ => false

def Flow.beats : Flow → List Beat
  | .beat shown => [shown]
  | _ => []

/-- A session with the beats and events so far. -/
structure Recording where
  session : Session
  beats : List Beat
  events : List Event

namespace Recording

def add (r : Recording) (step : Step) : Recording :=
  ⟨step.session, r.beats ++ step.flow.beats, r.events ++ step.events⟩

def step (r : Recording) : Recording := r.add r.session.step

/-- A recording that comes to its end in finitely many steps. -/
inductive Ends : Recording → Recording → Prop
  | now {r : Recording} (flow : r.session.step.flow = .finished) : Ends r r.step
  | later {r t : Recording} (flow : r.session.step.flow.goesOn = true) (rest : Ends r.step t) :
      Ends r t

end Recording

open Recording

def toEnd (beats : List Beat) : List Answer :=
  beats.map (fun beat => .reply (.beat beat)) ++ [.reply .finished]

theorem step_of_silent {s : Session} (silent : s.step.flow.beats = []) (beats : List Beat)
    (events : List Event) :
    (Recording.mk s beats events).step = ⟨s.step.session, beats, events ++ s.step.events⟩ := by
  rw [Recording.step, add, silent, List.append_nil]

theorem step_of_beat {s : Session} {beat : Beat} (shown : s.step.flow = .beat beat)
    (beats : List Beat) (events : List Event) :
    (Recording.mk s beats events).step =
      ⟨s.step.session, beats ++ [beat], events ++ s.step.events⟩ := by
  rw [Recording.step, add, shown]
  rfl

theorem run_next (s : Session) (allowance : Nat) (rest : List Operation) :
    s.run (.next allowance :: rest) =
      (⟨.reply (s.next allowance).result, (s.next allowance).events,
          s.listeners.deliver (s.next allowance).events⟩ ::
          ((s.next allowance).session.run rest).1,
        ((s.next allowance).session.run rest).2) := rfl

/-- Every request is answered within some allowance, as long as it ends. -/
theorem run_of_ends {r t : Recording} (ends : Ends r t) :
    ∃ enough more, t.beats = r.beats ++ more ∧
      ∀ allowances : List Nat, allowances.length = more.length + 1 →
        (∀ allowance ∈ allowances, enough ≤ allowance) →
        let out := r.session.run (allowances.map .next)
        out.1.map Report.answer = toEnd more ∧ r.events ++ out.1.flatMap Report.events = t.events ∧
          out.2 = t.session := by
  induction ends with
  | @now r flow =>
      have step := step_of_silent (by rw [flow]; rfl) r.beats r.events
      refine ⟨1, [], by rw [step, List.append_nil], ?_⟩
      intro allowances length bound
      obtain ⟨allowance, rfl⟩ := List.length_eq_one_iff.1 length
      obtain ⟨less, rfl⟩ := Nat.exists_eq_add_of_le' (bound allowance List.mem_cons_self)
      simp [run_next, next, flow, step, toEnd]
  | @later r t flow rest ih =>
      obtain ⟨enough, more, beats, runs⟩ := ih
      cases shown : r.session.step.flow with
      | finished | failed fault => simp [shown, Flow.goesOn] at flow
      | proceed =>
          have step := step_of_silent (by rw [shown]; rfl) r.beats r.events
          rw [step] at beats runs
          refine ⟨enough + 1, more, beats, ?_⟩
          intro allowances length bound
          obtain ⟨allowance, others, rfl⟩ := List.exists_cons_of_length_eq_add_one length
          obtain ⟨first, later⟩ := List.forall_mem_cons.1 bound
          obtain ⟨less, rfl⟩ := Nat.exists_eq_add_of_le' (Nat.le_of_add_left_le first)
          have again := runs (less :: others) length (List.forall_mem_cons.2
            ⟨by omega, fun other member => Nat.le_of_succ_le (later other member)⟩)
          simpa [run_next, next, shown] using again
      | beat beat =>
          have step := step_of_beat shown r.beats r.events
          rw [step] at beats runs
          refine ⟨enough + 1, beat :: more, by rw [beats, List.append_assoc]; rfl, ?_⟩
          intro allowances length bound
          obtain ⟨allowance, others, rfl⟩ := List.exists_cons_of_length_eq_add_one length
          obtain ⟨first, later⟩ := List.forall_mem_cons.1 bound
          obtain ⟨less, rfl⟩ := Nat.exists_eq_add_of_le' (Nat.le_of_add_left_le first)
          have again := runs others (Nat.succ.inj length)
            (fun other member => Nat.le_of_succ_le (later other member))
          simpa [run_next, next, shown, toEnd] using again

theorem ends_of_next_finished {s : Session} {allowance : Nat}
    (finished : (s.next allowance).result = .finished) (beats : List Beat) (events : List Event) :
    Ends ⟨s, beats, events⟩
      ⟨(s.next allowance).session, beats, events ++ (s.next allowance).events⟩ := by
  induction allowance generalizing s events with
  | zero => cases finished
  | succ allowance ih =>
      cases flow : s.step.flow with
      | proceed =>
          have step := step_of_silent (by rw [flow]; rfl) beats events
          simp only [next, flow] at finished ⊢
          have later := ih finished (events ++ s.step.events)
          rw [List.append_assoc, ← step] at later
          exact .later (by rw [flow]; rfl) later
      | finished =>
          have step := step_of_silent (by rw [flow]; rfl) beats events
          simp only [next, flow, ← step]
          exact .now flow
      | beat beat | failed fault => simp [next, flow] at finished

theorem ends_of_next_beat {s : Session} {allowance : Nat} {beat : Beat} {beats : List Beat}
    {events : List Event} {t : Recording} (shown : (s.next allowance).result = .beat beat)
    (rest : Ends ⟨(s.next allowance).session, beats ++ [beat],
      events ++ (s.next allowance).events⟩ t) :
    Ends ⟨s, beats, events⟩ t := by
  induction allowance generalizing s events with
  | zero => cases shown
  | succ allowance ih =>
      cases flow : s.step.flow with
      | proceed =>
          have step := step_of_silent (by rw [flow]; rfl) beats events
          simp only [next, flow] at shown rest
          rw [← List.append_assoc] at rest
          have later := ih shown rest
          rw [← step] at later
          exact .later (by rw [flow]; rfl) later
      | beat first =>
          have step := step_of_beat flow beats events
          simp only [next, flow, Reply.beat.injEq] at shown rest
          subst shown
          rw [← step] at rest
          exact .later (by rw [flow]; rfl) rest
      | finished | failed fault => simp [next, flow] at shown

theorem ends_of_run {s : Session} {allowances : List Nat} {more : List Beat}
    (answers : (s.run (allowances.map .next)).1.map Report.answer = toEnd more)
    (beats : List Beat) (events : List Event) :
    Ends ⟨s, beats, events⟩
      ⟨(s.run (allowances.map .next)).2, beats ++ more,
        events ++ (s.run (allowances.map .next)).1.flatMap Report.events⟩ := by
  induction allowances generalizing s more beats events with
  | nil => simp [toEnd] at answers
  | cons allowance rest ih =>
      simp only [List.map_cons, run_next, List.flatMap_cons] at answers ⊢
      cases more with
      | nil =>
          obtain ⟨finished, nothing⟩ := List.cons.inj answers
          cases rest with
          | nil => 
              simpa using ends_of_next_finished (Answer.reply.inj finished) beats events
          | cons other rest => cases nothing
      | cons beat more =>
          obtain ⟨shown, later⟩ := List.cons.inj answers
          refine ends_of_next_beat (Answer.reply.inj shown) ?_
          have further := ih later (beats ++ [beat]) (events ++ (s.next allowance).events)
          simpa using further

end Dialogue.Session
