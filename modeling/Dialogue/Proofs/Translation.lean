import Dialogue.Proofs.Options

/-! Dictionaries. A dictionary is looked at only where a text is shown, so a session with another
one takes the same turns. Two sessions that differ in their dictionaries answer whatever is asked of
them alike but for the words of lines, labels and titles, announce the same events, and stay the
same but for their dictionaries. -/
namespace Dialogue

namespace Beat

/-- A beat without its words: its kind, whether it has a title, how many options it shows, and what
is written beside the texts. -/
def wordless : Beat → Beat
  | line _ marks => line "" marks
  | options name marks labels =>
      options (name.map fun _ => "") marks (labels.map fun label => ⟨"", label.marks⟩)

/-- Neither the words of a title nor those of labels are left. -/
theorem wordless_options {α : Type} (name : Option String) (marks : Marks) (choices : List α)
    (title other : String → String) (label tag : α → Label)
    (same : ∀ choice, (label choice).marks = (tag choice).marks) :
    (options (name.map title) marks (choices.map label)).wordless =
      (options (name.map other) marks (choices.map tag)).wordless := by
  simp [wordless, Function.comp_def, same]

end Beat

namespace Session

def Flow.wordless : Flow → Flow
  | .beat shown => .beat shown.wordless
  | flow => flow

def Reply.wordless : Reply → Reply
  | .beat shown => .beat shown.wordless
  | reply => reply

def Answer.wordless : Answer → Answer
  | .reply given => .reply given.wordless
  | answer => answer

/-- A report without the words of what was shown. -/
def Report.wordless (report : Report) : Report := { report with answer := report.answer.wordless }

def Operation.translates : Operation → Bool
  | translate _ => true
  | _ => false

/-- A session with another dictionary. -/
def translated (s : Session) (dictionary : Std.ExtTreeMap String String) : Session :=
  { s with dictionary := dictionary }

namespace Step

def wordless (step : Step) : Step := { step with flow := step.flow.wordless }

def translated (step : Step) (dictionary : Std.ExtTreeMap String String) : Step :=
  { step with session := step.session.translated dictionary }

/-- What a request for the next beat gives that makes this step first, and goes on if the step
does. -/
def before (step : Step) (rest : Outcome Reply) : Outcome Reply :=
  match step.flow with
  | .beat beat => ⟨.beat beat, step.session, step.events⟩
  | .finished => ⟨.finished, step.session, step.events⟩
  | .failed fault => ⟨.failed fault, step.session, step.events⟩
  | .proceed => { rest with events := step.events ++ rest.events }

end Step

namespace Outcome

def map {α β : Type} (f : α → β) (out : Outcome α) : Outcome β :=
  ⟨f out.result, out.session, out.events⟩

def translated {α : Type} (out : Outcome α) (dictionary : Std.ExtTreeMap String String) :
    Outcome α :=
  { out with session := out.session.translated dictionary }

end Outcome

theorem next_succ (s : Session) (allowance : Nat) :
    s.next (allowance + 1) = s.step.before (s.step.session.next allowance) := rfl

theorem Step.map_wordless_before (step : Step) (rest : Outcome Reply) :
    (step.before rest).map Reply.wordless = step.wordless.before (rest.map Reply.wordless) := by
  obtain ⟨flow, session, events⟩ := step
  cases flow <;> rfl

theorem Step.translated_before (step : Step) (rest : Outcome Reply)
    (dictionary : Std.ExtTreeMap String String) :
    (step.before rest).translated dictionary =
      (step.translated dictionary).before (rest.translated dictionary) := by
  obtain ⟨flow, session, events⟩ := step
  cases flow <;> rfl

section
variable (s : Session) (dictionary : Std.ExtTreeMap String String)

theorem present_translated (header : Option String) (marks : Marks) (items : List Cell) :
    ((s.translated dictionary).present header marks items).wordless =
      (s.present header marks items).wordless.translated dictionary := by
  have kept : (s.translated dictionary).memory = s.memory := rfl
  unfold present
  rw [kept]
  generalize Choice.offer s.memory items = offered
  obtain ⟨visible, memory⟩ := offered
  let t : Session := { s with memory := memory }
  have shown : Step.wordless ⟨.beat (.options
        (header.map ((t.translated dictionary).render marks.id)) marks
        (visible.map (t.translated dictionary).label)), t.translated dictionary, []⟩ =
      (Step.wordless ⟨.beat (.options (header.map (t.render marks.id)) marks
        (visible.map t.label)), t, []⟩).translated dictionary := by
    have words := Beat.wordless_options header marks visible
      ((t.translated dictionary).render marks.id) (t.render marks.id)
      (t.translated dictionary).label t.label fun _ => rfl
    simp only [Step.wordless, Step.translated, Flow.wordless, words]
  match visible with
  | [] => rfl
  | [only] =>
      by_cases fallback : (only.mode == .fallback) = true
      · simp only [fallback, if_true]
        rfl
      · simp only [fallback]
        exact shown
  | first :: second :: rest => exact shown

theorem divert_translated (target : String) :
    ((s.translated dictionary).divert target).wordless =
      (s.divert target).wordless.translated dictionary := by
  unfold divert
  split
  · rfl
  · rfl
  · simp only [translated]
    split <;> rfl

theorem enter_translated (cell : Cell) :
    ((s.translated dictionary).enter cell).wordless =
      (s.enter cell).wordless.translated dictionary := by
  fun_induction enter s cell with
  | case1 s index text marks => rfl
  | case2 s index cells => rfl
  | case3 s index name marks items =>
      exact present_translated (s.push (.options name marks items)) dictionary name marks items
  | case4 s => rfl
  | case5 s index target => exact divert_translated s dictionary target
  | case6 s index mode alternatives picked memory random found =>
      simp only [enter, translated, found]
      cases picked <;> rfl
  | case7 s index condition body held ih =>
      have met : condition.holds (s.translated dictionary).memory = true := held
      rw [enter, if_pos met, ih]
  | case8 s index condition body failed =>
      have unmet : ¬condition.holds (s.translated dictionary).memory = true := failed
      rw [enter, if_neg unmet]
      rfl
  | case9 s index action body effect step ih =>
      exact congrArg (fun step : Step => { step with events := effect.events ++ step.events }) ih
  | case10 s index action effect => rfl

theorem step_translated :
    (s.translated dictionary).step.wordless = s.step.wordless.translated dictionary := by
  match stack : s.stack with
  | [] => simp only [step, translated, Step.wordless, Step.translated, stack]
  | ⟨.options header marks items, cursor⟩ :: below =>
      rw [step_of_list stack, step_of_list (s := s.translated dictionary) stack,
        present_translated]
  | ⟨.document cells, cursor⟩ :: below
  | ⟨.block name cells, cursor⟩ :: below
  | ⟨.content cells, cursor⟩ :: below =>
      simp only [step, translated, stack, Place.cells]
      cases cells[cursor]? with
      | some cell => exact enter_translated { s with stack := _ :: below } dictionary cell
      | none => cases below <;> rfl

theorem next_translated (allowance : Nat) :
    ((s.translated dictionary).next allowance).map Reply.wordless =
      ((s.next allowance).map Reply.wordless).translated dictionary := by
  induction allowance generalizing s with
  | zero => rfl
  | succ allowance ih =>
      have first := step_translated s dictionary
      have session : (s.translated dictionary).step.session =
          s.step.session.translated dictionary := congrArg Step.session first
      rw [next_succ, next_succ, Step.map_wordless_before, Step.map_wordless_before, first, session,
        ih, Step.translated_before]

theorem choose_translated (index : Nat) :
    (s.translated dictionary).choose index = (s.choose index).translated dictionary := by
  match stack : s.stack with
  | ⟨.options header marks items, cursor⟩ :: below =>
      have offer := (Prod.eta (Choice.offer s.memory items)).symm
      rw [choose_of_offer stack offer, choose_of_offer (s := s.translated dictionary) stack offer]
      cases (Choice.offer s.memory items).1[index]? <;> rfl
  | []
  | ⟨.document cells, cursor⟩ :: below
  | ⟨.block name cells, cursor⟩ :: below
  | ⟨.content cells, cursor⟩ :: below =>
      simp only [choose, translated, Outcome.translated, stack]

theorem perform_translated {op : Operation} (keeps : op.translates = false) :
    ((s.translated dictionary).perform op).map Answer.wordless =
      ((s.perform op).map Answer.wordless).translated dictionary := by
  cases op with
  | next allowance => exact congrArg (Outcome.map Answer.reply) (next_translated s dictionary _)
  | choose index =>
      simp only [perform, choose_translated]
      rfl
  | start block =>
      cases block with
      | none => rfl
      | some name =>
          simp only [perform, start, translated]
          cases s.script.block? name <;> rfl
  | set name value | get name | data | load data | clear | on kind => rfl
  | read text =>
      simp only [perform]
      cases Memory.read? text <;> rfl
  | translate other => cases keeps
  | off id =>
      simp only [perform, off, translated]
      cases s.listeners.off? id <;> rfl

end

/-- Another dictionary changes words only. Whatever is asked of a session, unless it is given yet
another dictionary, the answers are the same but for the words of lines, labels and titles, the
events and who receives them are the same, and so is the session afterwards with all that it
saves, but for the dictionary. -/
theorem run_translated (s : Session) (dictionary : Std.ExtTreeMap String String)
    (ops : List Operation) (keeps : ∀ op ∈ ops, op.translates = false) :
    let t := s.translated dictionary
    (t.run ops).1.map Report.wordless = (s.run ops).1.map Report.wordless ∧
      (t.run ops).2 = (s.run ops).2.translated dictionary ∧
      (t.run ops).2.data = (s.run ops).2.data := by
  intro t
  suffices alike : (t.run ops).1.map Report.wordless = (s.run ops).1.map Report.wordless ∧
      (t.run ops).2 = (s.run ops).2.translated dictionary by
    obtain ⟨reports, left⟩ := alike
    refine ⟨reports, left, ?_⟩
    rw [left]
    rfl
  induction ops generalizing s with
  | nil => exact ⟨rfl, rfl⟩
  | cons op rest ih =>
      have performed := perform_translated s dictionary (keeps op List.mem_cons_self)
      have session : (t.perform op).session = (s.perform op).session.translated dictionary :=
        congrArg Outcome.session performed
      have report : ((t.perform op).report s.listeners).wordless =
          ((s.perform op).report s.listeners).wordless :=
        congrArg (fun out : Outcome Answer => out.report s.listeners) performed
      obtain ⟨reports, left⟩ := ih (s.perform op).session
        fun other member => keeps other (List.mem_cons_of_mem op member)
      simp only [run_cons, session, List.map_cons]
      exact ⟨List.cons_eq_cons.2 ⟨report, reports⟩, left⟩

/-- A greeting and a list of options, with ids. -/
def inn : Document where
  content := [
    .acting (.assign [.store "met" .replace (.constant (.bool true))])
      (.line "Hello" { id := some "greet" }),
    .options none { id := some "ask" } [
      .option "Yes" .once { id := some "yes" } [],
      .option "No" .sticky {} []]]

theorem run_translated_inn :
    let s := ofScript (Script.ofDocument inn) 1
    let t := s.translated ((∅ : Std.ExtTreeMap String String).insert "greet" "Welcome")
    let ops : List Operation := [.next 1, .next 1, .choose 0, .set "nights" (.number 2), .next 2]
    (∀ op ∈ ops, op.translates = false) ∧
      (s.next 1).result = .beat (.line "Hello" { id := some "greet" }) ∧
      (t.next 1).result = .beat (.line "Welcome" { id := some "greet" }) ∧
      (t.run ops).1.map Report.wordless = (s.run ops).1.map Report.wordless ∧
      (t.run ops).2.data = (s.run ops).2.data := by
  intro s t ops
  have hello : ∀ lookup, Template.fill lookup "Hello" = "Hello" := by
    intro lookup
    cbv
  have welcome : ∀ lookup, Template.fill lookup "Welcome" = "Welcome" := by
    intro lookup
    cbv
  have keeps : ∀ op ∈ ops, op.translates = false := by simp [ops, Operation.translates]
  obtain ⟨reports, -, data⟩ := run_translated s _ ops keeps
  refine ⟨keeps, ?_, ?_, reports, data⟩
  · change Reply.beat (.line (Template.fill _ (s.dictionary["greet"]?.getD "Hello")) _) = _
    rw [show s.dictionary["greet"]? = none from Std.ExtTreeMap.getElem?_empty, Option.getD_none,
      hello]
  · change Reply.beat (.line (Template.fill _ (t.dictionary["greet"]?.getD "Hello")) _) = _
    rw [show t.dictionary["greet"]? = some "Welcome" from Std.ExtTreeMap.getElem?_insert_self,
      Option.getD_some, welcome]

end Session
end Dialogue
