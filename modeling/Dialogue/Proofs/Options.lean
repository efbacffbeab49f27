import Dialogue.Proofs.Memory
import Dialogue.Proofs.Operation

/-! Lists of options. What a list offers does not depend on the number of options that was noted
before, so asking again and choosing find the options that were shown. A turn is what a session
does with a list that it gets to: it shows options, or takes one by itself. -/
namespace Dialogue

namespace Cell

/-- What stands inside conditions and actions. -/
def core : Cell → Cell
  | .conditional _ _ body | .acting _ _ body => body.core
  | cell => cell

/-- The conditions around what stands inside conditions and actions. -/
def conditions : Cell → List Expr
  | .conditional _ condition body => condition :: body.conditions
  | .acting _ _ body => body.conditions
  | _ => []

/-- The actions around what stands inside conditions and actions, from the outermost on. -/
def actions : Cell → List Action
  | .conditional _ _ body => body.actions
  | .acting _ action body => action :: body.actions
  | _ => []

end Cell

namespace Choice

/-- The option that a choice stands for. -/
def cell (choice : Choice) : Cell :=
  .option choice.index choice.name choice.mode choice.marks choice.content

theorem cell_of_find? {m : Memory} {item : Cell} {choice : Choice}
    (found : find? m item = some choice) : choice.cell = item.core := by
  fun_induction find? m item generalizing choice with
  | case1 index name mode marks content =>
      obtain rfl := Option.some.inj found
      rfl
  | case2 _ condition body _ ih => exact ih found
  | case3 => cases found
  | case4 _ action body ih =>
      obtain ⟨inner, located, rfl⟩ := Option.map_eq_some_iff.1 found
      have inside : inner.cell = body.core := ih located
      exact inside
  | case5 => cases found

theorem map_cell_filterMap_find? (m : Memory) (items : List Cell) :
    ((items.filterMap (find? m)).map cell).Sublist (items.map Cell.core) := by
  induction items with
  | nil => exact List.Sublist.slnil
  | cons item rest ih =>
      cases found : find? m item with
      | none =>
          rw [List.filterMap_cons_none found, List.map_cons]
          exact ih.cons _
      | some choice =>
          rw [List.filterMap_cons_some found, List.map_cons, List.map_cons, cell_of_find? found]
          exact ih.cons_cons _

theorem visible_sublist_candidates (m : Memory) (items : List Cell) :
    (visible m items).Sublist (candidates m items) := by
  simp only [visible]
  split <;> exact List.filter_sublist

theorem map_cell_visible (m : Memory) (items : List Cell) :
    ((visible m items).map cell).Sublist (items.map Cell.core) :=
  ((visible_sublist_candidates m items).map cell).trans
    ((List.filter_sublist.map cell).trans (map_cell_filterMap_find? m items))

theorem available_of_mem_visible {m : Memory} {items : List Cell} {choice : Choice}
    (member : choice ∈ visible m items) : available m choice := by
  have candidate := (visible_sublist_candidates m items).subset member
  exact (List.mem_filter.1 candidate).2

@[simp] theorem access_offer (m : Memory) (items : List Cell) :
    (offer m items).2.access = m.access := rfl

theorem map_cell_offer (m : Memory) (items : List Cell) :
    ((offer m items).1.map cell).Sublist (items.map Cell.core) :=
  map_cell_visible _ items

theorem not_accessed_of_mem_offer {m : Memory} {items : List Cell} {choice : Choice}
    (member : choice ∈ (offer m items).1) (single : choice.mode ≠ .sticky) :
    m.accessed choice.index = false := by
  have free := available_of_mem_visible member
  simpa [available, single] using free

theorem offer_note (m : Memory) (datum : Datum) (items : List Cell) :
    offer (m.note Memory.optionsCount datum) items = offer m items := by
  simp only [offer, Memory.note_note]

theorem offer_offer (m : Memory) (items : List Cell) :
    offer (offer m items).2 items = offer m items := by
  have noted : (offer m items).2 =
      m.note Memory.optionsCount (.count (Int64.ofNat (offer m items).1.length)) :=
    Memory.note_note m _ _ _
  rw [noted, offer_note]

end Choice

inductive Turn where
  | shown (choices : List Choice)
  | taken (choice : Choice)

namespace Turn

def choices : Turn → List Choice
  | shown choices => choices
  | taken choice => [choice]

def takes (index : UInt64) : Turn → Bool
  | shown _ => false
  | taken choice => choice.index == index

/-- A list with nothing to offer is left, and a lone fallback is taken. -/
def of? : List Choice → Option Turn
  | [] => none
  | [only] => some (if only.mode == .fallback then taken only else shown [only])
  | many => some (shown many)

/-- The turn of a list in a memory. -/
def ofItems? (m : Memory) (items : List Cell) : Option Turn := of? (Choice.offer m items).1

/-- The turn that entering a cell makes. -/
def ofCell? (m : Memory) : Cell → Option Turn
  | .options _ _ _ items => ofItems? m items
  | .conditional _ condition body => if condition.holds m then ofCell? m body else none
  | .acting _ action body => ofCell? (action.run m).memory body
  | _ => none

end Turn

namespace Assignment

@[simp] theorem access_run (m : Memory) (assignment : Assignment) :
    (run m assignment).memory.access = m.access := by
  induction assignment with
  | store name update value => rfl
  | chain name update next ih => exact ih

@[simp] theorem access_runAll (m : Memory) (assignments : List Assignment) :
    (runAll m assignments).memory.access = m.access := by
  induction assignments generalizing m with
  | nil => rfl
  | cons first rest ih =>
      rw [runAll]
      exact (ih _).trans (access_run m first)

end Assignment

namespace Action

@[simp] theorem access_run (m : Memory) (action : Action) :
    (run m action).memory.access = m.access := by
  cases action with
  | assign assignments => exact Assignment.access_runAll m assignments
  | trigger names => rfl

@[simp] theorem access_runAll (m : Memory) (actions : List Action) :
    (runAll m actions).memory.access = m.access := by
  induction actions generalizing m with
  | nil => rfl
  | cons first rest ih =>
      rw [runAll]
      exact (ih _).trans (access_run m first)

end Action

namespace Variation

/-! Drawing an alternative changes the bookkeeping and nothing else. -/

theorem kept_shuffle (index : UInt64) (mode : VariationMode) (length : Nat) (m : Memory)
    (random : UInt32) :
    (shuffle index mode length m random).2.1.access = m.access ∧
      (shuffle index mode length m random).2.1.values = m.values := by
  simp only [shuffle]
  repeat' split
  all_goals exact ⟨rfl, rfl⟩

theorem kept_next (index : UInt64) (mode : VariationMode) (length : Nat) (m : Memory)
    (random : UInt32) :
    (next index mode length m random).2.1.access = m.access ∧
      (next index mode length m random).2.1.values = m.values := by
  cases mode
  case sequence => exact ⟨rfl, rfl⟩
  case once =>
    simp only [next]
    split <;> exact ⟨rfl, rfl⟩
  case cycle =>
    simp only [next]
    split <;> exact ⟨rfl, rfl⟩
  all_goals exact kept_shuffle ..

theorem kept_pick (index : UInt64) (mode : VariationMode) (alternatives : List Cell)
    (tries : Nat) (m : Memory) (random : UInt32) :
    (pick index mode alternatives tries m random).2.1.access = m.access ∧
      (pick index mode alternatives tries m random).2.1.values = m.values := by
  induction tries generalizing m random with
  | zero => exact ⟨rfl, rfl⟩
  | succ tries ih =>
      have kept := kept_next index mode alternatives.length m random
      simp only [pick]
      split
      · exact kept
      · split
        · obtain ⟨access, values⟩ := ih _ _
          exact ⟨access.trans kept.1, values.trans kept.2⟩
        · exact kept

end Variation

namespace Session

@[simp] theorem access_select (s : Session) (choice : Choice) :
    (s.select choice).1.memory.access = s.memory.access.insert choice.index true := by
  simp only [select, push, Action.access_runAll]
  split <;> rfl

def Flow.isOptions : Flow → Bool
  | .beat (.options ..) => true
  | _ => false

/-- What a step that makes a turn does: it takes an option by setting its flag and entering its
content, or shows options by standing at their list, and otherwise it touches no flag. Of the
options of a turn, those that can be chosen once had no flag before. -/
inductive Step.Makes (before : Memory) (step : Step) : Option Turn → Prop
  | nothing (access : step.session.memory.access = before.access)
      (flow : step.flow.isOptions = false) : Makes before step none
  | taken (choice : Choice) (below : List Frame) (flow : step.flow = .proceed)
      (free : choice.mode ≠ .sticky → before.accessed choice.index = false)
      (access : step.session.memory.access = before.access.insert choice.index true)
      (stack : step.session.stack = ⟨.content choice.content, 0⟩ :: below) :
      Makes before step (some (.taken choice))
  | shown (choices : List Choice) (header : Option String) (marks : Marks) (items : List Cell)
      (cursor : Nat) (below : List Frame)
      (free : ∀ choice ∈ choices, choice.mode ≠ .sticky → before.accessed choice.index = false)
      (access : step.session.memory.access = before.access)
      (stack : step.session.stack = ⟨.options header marks items, cursor⟩ :: below)
      (offer : Choice.offer step.session.memory items = (choices, step.session.memory))
      (turn : Turn.of? choices = some (.shown choices))
      (flow : step.flow = .beat (.options (header.map (step.session.render marks.id)) marks
        (choices.map step.session.label))) :
      Makes before step (some (.shown choices))

theorem makes_present {s : Session} {header : Option String} {marks : Marks} {items : List Cell}
    {cursor : Nat} {below : List Frame}
    (stack : s.stack = ⟨.options header marks items, cursor⟩ :: below) :
    (s.present header marks items).Makes s.memory (Turn.ofItems? s.memory items) := by
  have again := Choice.offer_offer s.memory items
  have kept := Choice.access_offer s.memory items
  have free : ∀ choice ∈ (Choice.offer s.memory items).1, choice.mode ≠ .sticky →
      s.memory.accessed choice.index = false :=
    fun choice member single => Choice.not_accessed_of_mem_offer member single
  unfold present Turn.ofItems?
  generalize Choice.offer s.memory items = offered at again kept free ⊢
  obtain ⟨visible, memory⟩ := offered
  match visible with
  | [] => exact .nothing kept rfl
  | [only] =>
      by_cases fallback : (only.mode == .fallback) = true
      · simp only [Turn.of?, fallback, if_true]
        have flagged := access_select { s with memory := memory } only
        rw [kept] at flagged
        exact .taken only _ rfl (free only List.mem_cons_self) flagged rfl
      · have turn : Turn.of? [only] = some (.shown [only]) := by simp [Turn.of?, fallback]
        simp only [turn, fallback]
        exact .shown _ header marks items cursor below free kept stack again turn rfl
  | first :: second :: rest =>
      exact .shown _ header marks items cursor below free kept stack again rfl rfl

/-- Actions around a cell touch no flag, and what they announce is no part of a turn. -/
theorem Step.Makes.around {before after : Memory} {step : Step} {turn : Option Turn}
    (made : step.Makes after turn) (kept : after.access = before.access) (events : List Event) :
    Step.Makes before { step with events := events } turn := by
  have flags : ∀ index, after.accessed index = before.accessed index := by
    intro index
    rw [Memory.accessed, kept, Memory.accessed]
  cases made with
  | nothing access flow => exact .nothing (access.trans kept) flow
  | taken choice below flow free access stack =>
      rw [flags] at free
      rw [kept] at access
      exact .taken choice below flow free access stack
  | shown choices header marks items cursor below free access stack offer turn flow =>
      simp only [flags] at free
      rw [kept] at access
      exact .shown choices header marks items cursor below free access stack offer turn flow

theorem makes_divert (s : Session) (target : String) : (s.divert target).Makes s.memory none := by
  unfold divert
  split
  · exact .nothing rfl rfl
  · exact .nothing rfl rfl
  · split <;> exact .nothing rfl rfl

theorem makes_enter (s : Session) (cell : Cell) :
    (s.enter cell).Makes s.memory (Turn.ofCell? s.memory cell) := by
  fun_induction enter s cell with
  | case1 s index text marks => exact .nothing rfl rfl
  | case2 s index cells => exact .nothing rfl rfl
  | case3 s index name marks items =>
      exact makes_present (s := s.push (.options name marks items)) rfl
  | case4 s => exact .nothing rfl rfl
  | case5 s index target => exact makes_divert s target
  | case6 s index mode alternatives picked memory random found =>
      obtain ⟨kept, -⟩ :=
        Variation.kept_pick index mode alternatives alternatives.length s.memory s.random
      rw [found] at kept
      cases picked with
      | none => exact .nothing kept rfl
      | some alternative => exact .nothing kept rfl
  | case7 s index condition body held ih => simpa [Turn.ofCell?, held] using ih
  | case8 s index condition body failed =>
      simp only [Turn.ofCell?, failed]
      exact .nothing rfl rfl
  | case9 s index action body effect step ih =>
      exact ih.around (Action.access_run s.memory action) _
  | case10 s index action effect => exact .nothing (Action.access_run s.memory action) rfl

/-- The options of the list that a session stands at. -/
def offered (s : Session) : List Choice :=
  match s.stack with
  | ⟨.options _ _ items, _⟩ :: _ => (Choice.offer s.memory items).1
  | _ => []

theorem offered_of_list {s : Session} {header : Option String} {marks : Marks} {items : List Cell}
    {cursor : Nat} {below : List Frame}
    (stack : s.stack = ⟨.options header marks items, cursor⟩ :: below) :
    s.offered = (Choice.offer s.memory items).1 := by
  simp only [offered, stack]

/-- The turn that the next step makes. -/
def turn? (s : Session) : Option Turn :=
  match s.stack with
  | [] => none
  | ⟨.options _ _ items, _⟩ :: _ => Turn.ofItems? s.memory items
  | frame :: _ => frame.place.cells[frame.cursor]?.bind (Turn.ofCell? s.memory)

theorem turn?_of_walked {s : Session} {frame : Frame} {below : List Frame}
    (stack : s.stack = frame :: below) (walked : frame.place.isList = false) :
    s.turn? = frame.place.cells[frame.cursor]?.bind (Turn.ofCell? s.memory) := by
  obtain ⟨place, cursor⟩ := frame
  cases place with
  | options header marks items => cases walked
  | document cells | block name cells | content cells => simp only [turn?, stack]

theorem makes_step_of_walked {s : Session} {frame : Frame} {below : List Frame}
    (stack : s.stack = frame :: below) (walked : frame.place.isList = false) :
    s.step.Makes s.memory s.turn? := by
  rw [turn?_of_walked stack walked]
  cases entered : frame.place.cells[frame.cursor]? with
  | some cell =>
      rw [step_of_cell stack entered]
      exact makes_enter { s with stack := { frame with cursor := frame.cursor + 1 } :: below } cell
  | none =>
      cases below with
      | nil =>
          rw [step_of_last stack walked entered]
          exact .nothing rfl rfl
      | cons next below =>
          rw [step_of_end stack walked entered]
          exact .nothing rfl rfl

theorem makes_step (s : Session) : s.step.Makes s.memory s.turn? := by
  match stack : s.stack with
  | [] =>
      simp only [step, turn?, stack]
      exact .nothing rfl rfl
  | ⟨.options header marks items, cursor⟩ :: below =>
      rw [step_of_list stack]
      simp only [turn?, stack]
      exact makes_present stack
  | ⟨.document cells, cursor⟩ :: below
  | ⟨.block name cells, cursor⟩ :: below
  | ⟨.content cells, cursor⟩ :: below => exact makes_step_of_walked stack rfl

theorem stands_of_shown {s : Session} {title : Option String} {marks : Marks}
    {labels : List Beat.Label} (flow : s.step.flow = .beat (.options title marks labels)) :
    let t := s.step.session
    s.turn? = some (.shown t.offered) ∧ labels = t.offered.map t.label ∧
      Turn.of? t.offered = some (.shown t.offered) ∧
      ∃ header items cursor below, t.stack = ⟨.options header marks items, cursor⟩ :: below ∧
        Choice.offer t.memory items = (t.offered, t.memory) ∧
        title = header.map (t.render marks.id) := by
  have made := makes_step s
  generalize s.turn? = turn at made ⊢
  cases made with
  | nothing access quiet =>
      rw [flow] at quiet
      cases quiet
  | taken choice below proceeds =>
      rw [flow] at proceeds
      cases proceeds
  | shown choices header marks items cursor below free access stack offer turn beat =>
      have same : choices = s.step.session.offered := by rw [offered_of_list stack, offer]
      rw [flow] at beat
      cases beat
      subst same
      exact ⟨rfl, rfl, turn, header, items, cursor, below, stack, offer, rfl⟩

theorem present_of_shown {t : Session} {items : List Cell} {choices : List Choice}
    (header : Option String) (marks : Marks)
    (offer : Choice.offer t.memory items = (choices, t.memory))
    (turn : Turn.of? choices = some (.shown choices)) :
    t.present header marks items =
      ⟨.beat (.options (header.map (t.render marks.id)) marks (choices.map t.label)), t, []⟩ := by
  unfold present
  rw [offer]
  match choices with
  | [] => cases turn
  | [only] =>
      cases fallback : only.mode == .fallback with
      | true => simp [Turn.of?, fallback] at turn
      | false => simp only [fallback, Bool.false_eq_true, if_false]
  | first :: second :: rest => rfl

theorem choose_of_offer {s : Session} {header : Option String} {marks : Marks} {items : List Cell}
    {cursor : Nat} {below : List Frame} {choices : List Choice} {memory : Memory}
    (stack : s.stack = ⟨.options header marks items, cursor⟩ :: below)
    (offer : Choice.offer s.memory items = (choices, memory)) (i : Nat) :
    s.choose i = match choices[i]? with
      | some choice =>
          ⟨.ok (), ({ s with memory := memory }.select choice).1,
            ({ s with memory := memory }.select choice).2⟩
      | none => ⟨.error (.invalidOption i), { s with memory := memory }, []⟩ := by
  obtain ⟨script, frames, before, dictionary, listeners, random⟩ := s
  cases stack
  simp only at offer
  cases found : choices[i]? with
  | none => simp only [choose, offer, found]
  | some choice => simp only [choose, offer, found]

/-- What is shown is what can be chosen. When a request for the next beat shows options, the session
stands at their list, each label is that of an option inside an item of its own, choosing a position
takes the option of that position and is refused only past the last one, and asking again shows the
same and changes nothing. -/
theorem choose_of_shown (s : Session) (allowance : Nat) {title : Option String} {marks : Marks}
    {labels : List Beat.Label}
    (shown : (s.next allowance).result = .beat (.options title marks labels)) :
    let t := (s.next allowance).session
    labels = t.offered.map t.label ∧
      (∃ header items cursor below, t.stack = ⟨.options header marks items, cursor⟩ :: below ∧
        (t.offered.map Choice.cell).Sublist (items.map Cell.core)) ∧
      (∀ i, (t.choose i).result =
        if i < labels.length then .ok () else .error (.invalidOption i)) ∧
      (∀ i choice, t.offered[i]? = some choice →
        (t.choose i).session.stack = ⟨.content choice.content, 0⟩ :: t.stack ∧
        (t.choose i).session.memory.access = t.memory.access.insert choice.index true) ∧
      ∀ more, t.next (more + 1) = ⟨.beat (.options title marks labels), t, []⟩ := by
  obtain ⟨before, flow, left⟩ := next_beat shown
  obtain ⟨-, labelled, turn, header, items, cursor, below, stack, offer, named⟩ :=
    stands_of_shown flow
  intro t
  have same : before.step.session = t := left.symm
  clear_value t
  rw [same] at labelled turn stack offer named
  have chosen := choose_of_offer stack offer
  refine ⟨labelled, ⟨header, items, cursor, below, stack, ?_⟩, ?_, ?_, ?_⟩
  · have visible := Choice.map_cell_offer t.memory items
    rwa [offer] at visible
  · intro i
    rw [chosen, labelled, List.length_map]
    by_cases inside : i < t.offered.length <;> simp [inside]
  · intro i choice found
    rw [chosen, found]
    exact ⟨rfl, access_select t choice⟩
  · intro more
    have again := step_of_list stack
    rw [present_of_shown header marks offer turn] at again
    simp only [next, again, ← named, ← labelled]

/-- A list of three items with a condition on the number of options, which is three while it is
looked at and two afterwards. -/
def teaList : Document where
  content := [.options none {} [
    .conditional (.binary .equal (.variable Memory.optionsCount) (.constant (.number 3)))
      (.option "Tea" .once {} []),
    .option "Leave" .sticky {} [],
    .option "Wait" .fallback {} []]]

theorem choose_of_shown_teaList :
    let s := ofScript (Script.ofDocument teaList) 1
    let t := (s.next 1).session
    (s.next 1).result = .beat (.options none {} [⟨"Tea", {}⟩, ⟨"Leave", {}⟩]) ∧
      (∀ i, (t.choose i).result = if i < 2 then .ok () else .error (.invalidOption i)) ∧
      ∀ more,
        t.next (more + 1) = ⟨.beat (.options none {} [⟨"Tea", {}⟩, ⟨"Leave", {}⟩]), t, []⟩ := by
  have shown : ((ofScript (Script.ofDocument teaList) 1).next 1).result =
      .beat (.options none {} [⟨"Tea", {}⟩, ⟨"Leave", {}⟩]) := by
    have tea : ∀ lookup, Template.fill lookup "Tea" = "Tea" := by
      intro lookup
      cbv
    have leave : ∀ lookup, Template.fill lookup "Leave" = "Leave" := by
      intro lookup
      cbv
    change Reply.beat (.options none {}
      [⟨Template.fill _ "Tea", {}⟩, ⟨Template.fill _ "Leave", {}⟩]) = _
    rw [tea, leave]
  obtain ⟨_, _, chosen, _, again⟩ := choose_of_shown _ 1 shown
  exact ⟨shown, chosen, again⟩

end Session
end Dialogue
