import Dialogue.Proofs.Plain
import Dialogue.Proofs.Recording

/-! Scripts without options as a walk through the tree. A walk goes through cells one after the
other and, inside them, through what they hold, and carries along the memory, the random state, and
the beats and events so far. A session does the same in steps: what is left of a walk is what its
stack has not entered yet. -/
namespace Dialogue

@[ext]
structure Stage where
  memory : Memory
  random : UInt32
  beats : List Beat := []
  events : List Event := []

namespace Stage

def say (a : Stage) (beat : Beat) : Stage := { a with beats := a.beats ++ [beat] }

def act (a : Stage) (action : Action) : Stage :=
  let effect := action.run a.memory
  { a with memory := effect.memory, events := a.events ++ effect.events }

def pick (a : Stage) (index : UInt64) (mode : VariationMode) (alternatives : List Cell) :
    Option Cell × Stage :=
  let (picked, memory, random) :=
    Variation.pick index mode alternatives alternatives.length a.memory a.random
  (picked, { a with memory := memory, random := random })

def render (a : Stage) (dictionary : Std.ExtTreeMap String String) (id : Option String)
    (text : String) : String :=
  Template.fill (fun name => a.memory.get name .null) ((id.bind (dictionary[·]?)).getD text)

end Stage

mutual

/-- The walk through a cell, from one stage to another. There is none through options, through a
divert that names no block, or where diverts lead around in a circle. -/
inductive Walk (script : Script) (dictionary : Std.ExtTreeMap String String) :
    Cell → Stage → Stage → Prop
  | line (index : UInt64) (text : String) (marks : Marks) (a : Stage) :
      Walk script dictionary (.line index text marks) a
        (a.say (.line (a.render dictionary marks.id text) marks))
  | content {cells : List Cell} {a b : Stage} (index : UInt64)
      (inside : WalkAll script dictionary cells a b) :
      Walk script dictionary (.content index cells) a b
  | held {condition : Expr} {body : Cell} {a b : Stage} (index : UInt64)
      (met : condition.holds a.memory = true) (inside : Walk script dictionary body a b) :
      Walk script dictionary (.conditional index condition body) a b
  | unmet {condition : Expr} {a : Stage} (index : UInt64) (body : Cell)
      (failed : condition.holds a.memory = false) :
      Walk script dictionary (.conditional index condition body) a a
  | acting {action : Action} {body : Cell} {a b : Stage} (index : UInt64)
      (inside : Walk script dictionary body (a.act action) b) :
      Walk script dictionary (.acting index action body) a b
  | act (index : UInt64) (action : Action) (a : Stage) :
      Walk script dictionary (.act index action) a (a.act action)
  | picked {index : UInt64} {mode : VariationMode} {alternatives : List Cell} {alternative : Cell}
      {a middle b : Stage} (drawn : a.pick index mode alternatives = (some alternative, middle))
      (inside : WalkAll script dictionary alternative.children middle b) :
      Walk script dictionary (.variations index mode alternatives) a b
  | spent {index : UInt64} {mode : VariationMode} {alternatives : List Cell} {a b : Stage}
      (drawn : a.pick index mode alternatives = (none, b)) :
      Walk script dictionary (.variations index mode alternatives) a b
  | divert {target name : String} {block : Script.Block} {a b : Stage} (index : UInt64)
      (named : Target.ofName target = .block name) (found : script.block? name = some block)
      (inside : WalkAll script dictionary block.cells a b) :
      Walk script dictionary (.divert index target) a b

inductive WalkAll (script : Script) (dictionary : Std.ExtTreeMap String String) :
    List Cell → Stage → Stage → Prop
  | nil (a : Stage) : WalkAll script dictionary [] a a
  | cons {cell : Cell} {rest : List Cell} {a middle b : Stage}
      (first : Walk script dictionary cell a middle)
      (later : WalkAll script dictionary rest middle b) :
      WalkAll script dictionary (cell :: rest) a b

end

/-- A session that has come to a stage with a stack of its own. -/
def Stage.on (a : Stage) (base : Session) (stack : List Frame) : Session.Recording :=
  ⟨{ base with stack := stack, memory := a.memory, random := a.random }, a.beats, a.events⟩

namespace Session
open Recording

variable {base : Session}

/-! What entering a cell comes to. -/

theorem add_proceed (a : Stage) (stack frames : List Frame) :
    (a.on base stack).add (proceed (a.on base frames).session) = a.on base frames := by
  simp only [add, proceed, Flow.beats, Stage.on, List.append_nil]

theorem add_push (a : Stage) (stack : List Frame) (place : Place) :
    (a.on base stack).add (proceed ((a.on base stack).session.push place)) =
      a.on base (⟨place, 0⟩ :: stack) :=
  add_proceed a stack (⟨place, 0⟩ :: stack)

theorem add_line (a : Stage) (stack : List Frame) (index : UInt64) (text : String) (marks : Marks) :
    (a.on base stack).add ((a.on base stack).session.enter (.line index text marks)) =
      (a.say (.line (a.render base.dictionary marks.id text) marks)).on base stack := by
  simp only [add, enter, Flow.beats, Stage.on, Stage.say, List.append_nil]
  rfl

theorem enter_held {a : Stage} {condition : Expr} (met : condition.holds a.memory = true)
    (stack : List Frame) (index : UInt64) (body : Cell) :
    (a.on base stack).session.enter (.conditional index condition body) =
      (a.on base stack).session.enter body :=
  if_pos met

theorem enter_unmet {a : Stage} {condition : Expr} (failed : condition.holds a.memory = false)
    (stack : List Frame) (index : UInt64) (body : Cell) :
    (a.on base stack).session.enter (.conditional index condition body) =
      proceed (a.on base stack).session :=
  if_neg (Bool.eq_false_iff.1 failed)

theorem add_acting (a : Stage) (stack : List Frame) (index : UInt64) (action : Action)
    (body : Cell) :
    (a.on base stack).add ((a.on base stack).session.enter (.acting index action body)) =
      ((a.act action).on base stack).add (((a.act action).on base stack).session.enter body) := by
  simp only [add, enter, Stage.on, Stage.act, List.append_assoc]

theorem add_act (a : Stage) (stack : List Frame) (index : UInt64) (action : Action) :
    (a.on base stack).add ((a.on base stack).session.enter (.act index action)) =
      (a.act action).on base stack := by
  simp only [add, enter, proceed, Flow.beats, Stage.on, Stage.act, List.append_nil]

theorem enter_variations (a : Stage) (stack : List Frame) (index : UInt64) (mode : VariationMode)
    (alternatives : List Cell) :
    (a.on base stack).session.enter (.variations index mode alternatives) =
      proceed (match (a.pick index mode alternatives).1 with
        | some alternative =>
            ((a.pick index mode alternatives).2.on base stack).session.push
              (.content alternative.children)
        | none => ((a.pick index mode alternatives).2.on base stack).session) := rfl

theorem add_picked {a middle : Stage} {index : UInt64} {mode : VariationMode}
    {alternatives : List Cell} {alternative : Cell}
    (drawn : a.pick index mode alternatives = (some alternative, middle)) (stack : List Frame) :
    (a.on base stack).add ((a.on base stack).session.enter (.variations index mode alternatives)) =
      middle.on base (⟨.content alternative.children, 0⟩ :: stack) := by
  obtain ⟨-, rfl⟩ := Prod.ext_iff.1 drawn
  rw [enter_variations, drawn]
  exact add_push (a.pick index mode alternatives).2 stack (.content alternative.children)

theorem add_spent {a b : Stage} {index : UInt64} {mode : VariationMode}
    {alternatives : List Cell} (drawn : a.pick index mode alternatives = (none, b))
    (stack : List Frame) :
    (a.on base stack).add ((a.on base stack).session.enter (.variations index mode alternatives)) =
      b.on base stack := by
  obtain ⟨-, rfl⟩ := Prod.ext_iff.1 drawn
  rw [enter_variations, drawn]
  exact add_proceed (a.pick index mode alternatives).2 stack stack

theorem enter_divert {target name : String} {block : Script.Block}
    (named : Target.ofName target = .block name) (found : base.script.block? name = some block)
    (a : Stage) (stack : List Frame) (index : UInt64) :
    (a.on base stack).session.enter (.divert index target) =
      proceed ((a.on base stack).session.push (.block name block.cells)) := by
  simp only [enter, divert, named, Stage.on, found]

/-! Steps at a stage, by what the topmost frame stands at. -/

section
variable {place : Place} {cursor : Nat}

theorem step_cell (a : Stage) {cell : Cell} (entered : place.cells[cursor]? = some cell)
    (below : List Frame) :
    (a.on base (⟨place, cursor⟩ :: below)).session.step =
      (a.on base (⟨place, cursor + 1⟩ :: below)).session.enter cell :=
  step_of_cell (s := (a.on base (⟨place, cursor⟩ :: below)).session) rfl entered

theorem step_last (base : Session) (a : Stage) (walked : place.isList = false)
    (ended : place.cells[cursor]? = none) :
    (a.on base [⟨place, cursor⟩]).session.step.flow = .finished ∧
      (a.on base [⟨place, cursor⟩]).step = a.on base [⟨place, place.cells.length + 1⟩] := by
  have step := step_of_last (s := (a.on base [⟨place, cursor⟩]).session) rfl walked ended
  rw [Recording.step, step]
  refine ⟨rfl, ?_⟩
  simp only [add, Flow.beats, Stage.on, List.append_nil]

theorem step_popped (base : Session) (a : Stage) (walked : place.isList = false)
    (ended : place.cells[cursor]? = none) (next : Frame) (below : List Frame) :
    (a.on base (⟨place, cursor⟩ :: next :: below)).session.step.flow = .proceed ∧
      (a.on base (⟨place, cursor⟩ :: next :: below)).step = a.on base (next :: below) := by
  have step := step_of_end (s := (a.on base (⟨place, cursor⟩ :: next :: below)).session) rfl walked
    ended
  rw [Recording.step, step]
  exact ⟨rfl, add_proceed a (⟨place, cursor⟩ :: next :: below) (next :: below)⟩

theorem ends_of_popped {b : Stage} {next : Frame} {below : List Frame} {t : Recording}
    (walked : place.isList = false) (ended : place.cells[cursor]? = none)
    (rest : Ends (b.on base (next :: below)) t) :
    Ends (b.on base (⟨place, cursor⟩ :: next :: below)) t := by
  obtain ⟨flow, popped⟩ := step_popped base b walked ended next below
  rw [← popped] at rest
  exact .later (by rw [flow]; rfl) rest

end

mutual

theorem ends_of_walk {cell : Cell} {a b : Stage}
    (walk : Walk base.script base.dictionary cell a b) (top : Frame) (below : List Frame)
    {t : Recording} (rest : Ends (b.on base (top :: below)) t) :
    ((a.on base (top :: below)).session.enter cell).flow.goesOn = true ∧
      Ends ((a.on base (top :: below)).add ((a.on base (top :: below)).session.enter cell)) t := by
  match walk with
  | .line index text marks _ =>
      rw [add_line]
      exact ⟨rfl, rest⟩
  | .content index inside =>
      rw [enter, add_push]
      exact ⟨rfl, ends_of_walkAll inside rfl rfl fun last ended => ends_of_popped rfl ended rest⟩
  | .held index met inside =>
      rw [enter_held met]
      exact ends_of_walk inside top below rest
  | .unmet index body failed =>
      rw [enter_unmet failed, add_proceed]
      exact ⟨rfl, rest⟩
  | .acting index inside =>
      obtain ⟨goes, ends⟩ := ends_of_walk inside top below rest
      rw [add_acting]
      exact ⟨goes, ends⟩
  | .act index action _ =>
      rw [add_act]
      exact ⟨rfl, rest⟩
  | .picked drawn inside =>
      rw [add_picked drawn]
      exact ⟨rfl, ends_of_walkAll inside rfl rfl fun last ended => ends_of_popped rfl ended rest⟩
  | .spent drawn =>
      rw [add_spent drawn]
      exact ⟨rfl, rest⟩
  | .divert index named found inside =>
      rw [enter_divert named found, add_push]
      exact ⟨rfl, ends_of_walkAll inside rfl rfl fun last ended => ends_of_popped rfl ended rest⟩

theorem ends_of_walkAll {cells : List Cell} {a b : Stage}
    (walk : WalkAll base.script base.dictionary cells a b) :
    ∀ {place : Place} {cursor : Nat} {below : List Frame} {t : Recording},
      place.isList = false → place.cells.drop cursor = cells →
      (∀ last, place.cells[last]? = none → Ends (b.on base (⟨place, last⟩ :: below)) t) →
      Ends (a.on base (⟨place, cursor⟩ :: below)) t := by
  intro place cursor below t walked left rest
  match walk with
  | .nil _ =>
      apply rest
      rw [← List.head?_drop, left]
      rfl
  | @WalkAll.cons _ _ cell others _ middle _ first later =>
      have entered : place.cells[cursor]? = some cell := by
        rw [← List.head?_drop, left]
        rfl
      have remaining : place.cells.drop (cursor + 1) = others := by
        rw [← List.tail_drop, left]
        rfl
      have after := ends_of_walkAll later walked remaining rest
      obtain ⟨goes, ends⟩ := ends_of_walk first ⟨place, cursor + 1⟩ below after
      rw [← step_cell a entered below] at goes ends
      exact .later goes ends

end

/-! What is left of a walk. -/

/-- The walk through what the frames of a stack have not entered yet, from the topmost on. -/
def Left (script : Script) (dictionary : Std.ExtTreeMap String String) :
    List Frame → Stage → Stage → Prop
  | [], a, b => b = a
  | frame :: below, a, c => ∃ b,
      WalkAll script dictionary (frame.place.cells.drop frame.cursor) a b ∧
        Left script dictionary below b c

theorem left_append {script : Script} {dictionary : Std.ExtTreeMap String String}
    {upper below : List Frame} {a c : Stage} (left : Left script dictionary (upper ++ below) a c) :
    ∃ b, Left script dictionary upper a b ∧ Left script dictionary below b c := by
  induction upper generalizing a with
  | nil => exact ⟨a, rfl, left⟩
  | cons frame upper ih =>
      obtain ⟨middle, walk, rest⟩ := left
      obtain ⟨b, inner, outer⟩ := ih rest
      exact ⟨b, ⟨middle, walk, inner⟩, outer⟩

def ArePlain (names : List String) (stack : List Frame) : Prop :=
  ∀ frame ∈ stack, frame.place.isList = false ∧ Cell.ArePlain names frame.place.cells

/-- Entering a plain cell comes to a stage with frames over the stack, and whoever walks through
what is left in them has walked through the cell. -/
theorem walk_of_entered {names : List String} (declared : base.script.Declares names)
    (index : UInt64) (node : Node) (plain : Node.isPlain names node = true) (a : Stage)
    (stack : List Frame) :
    ∃ m upper,
      ((a.on base stack).session.enter (Cell.ofNode index node)).flow.goesOn = true ∧
      (a.on base stack).add ((a.on base stack).session.enter (Cell.ofNode index node)) =
        m.on base (upper ++ stack) ∧
      ArePlain names upper ∧
      ∀ b, Left base.script base.dictionary upper m b →
        Walk base.script base.dictionary (Cell.ofNode index node) a b := by
  have single : ∀ place : Place, place.isList = false → Cell.ArePlain names place.cells →
      ArePlain names [⟨place, 0⟩] :=
    fun place walked cells => List.forall_mem_singleton.2 ⟨walked, cells⟩
  have nothing : ArePlain names [] := List.forall_mem_nil _
  match node with
  | .content nodes =>
      refine ⟨a, [_], rfl, add_push a stack _, single _ rfl ⟨_, _, nodes, plain, rfl⟩, ?_⟩
      rintro b ⟨_, walk, rfl⟩
      exact .content index walk
  | .line text marks =>
      refine ⟨_, [], rfl, add_line a stack index text marks, nothing, ?_⟩
      rintro b rfl
      exact .line index text marks a
  | .act action =>
      refine ⟨_, [], rfl, add_act a stack index action, nothing, ?_⟩
      rintro b rfl
      exact .act index action a
  | .divert target =>
      cases named : Target.ofName target with
      | parent | finish => simp [Node.isPlain, named] at plain
      | block name =>
          have member : name ∈ names := by simpa [Node.isPlain, named] using plain
          obtain ⟨block, found, cells⟩ := declared name member
          rw [Cell.ofNode, enter_divert named found]
          refine ⟨a, [_], rfl, add_push a stack _, single (.block name block.cells) rfl cells, ?_⟩
          rintro b ⟨_, walk, rfl⟩
          exact .divert index named found walk
  | .variations mode alternatives =>
      let cells := Cell.ofAlternatives index 0 alternatives
      cases drawn : a.pick index mode cells with
      | mk picked middle =>
          cases picked with
          | none =>
              refine ⟨middle, [], rfl, add_spent drawn stack, nothing, ?_⟩
              rintro b rfl
              exact .spent drawn
          | some alternative =>
              have member : alternative ∈ cells :=
                Variation.mem_of_pick (congrArg Prod.fst drawn)
              have inside := Cell.arePlain_of_mem_ofAlternatives plain member
              refine ⟨middle, [_], rfl, add_picked drawn stack, single _ rfl inside, ?_⟩
              rintro b ⟨_, walk, rfl⟩
              exact .picked drawn walk
  | .conditional condition body =>
      cases met : condition.holds a.memory with
      | true =>
          obtain ⟨m, upper, flow, come, kept, walks⟩ :=
            walk_of_entered declared index body plain a stack
          rw [Cell.ofNode, enter_held met]
          exact ⟨m, upper, flow, come, kept, fun b left => .held index met (walks b left)⟩
      | false =>
          rw [Cell.ofNode, enter_unmet met]
          refine ⟨a, [], rfl, add_proceed a stack stack, nothing, ?_⟩
          rintro b rfl
          exact .unmet index _ met
  | .acting action body =>
      obtain ⟨m, upper, flow, come, kept, walks⟩ :=
        walk_of_entered declared index body plain (a.act action) stack
      rw [Cell.ofNode, add_acting]
      exact ⟨m, upper, flow, come, kept, fun b left => .acting index (walks b left)⟩

theorem left_of_cell {a b c : Stage} {place : Place} {cursor : Nat} {cell : Cell}
    {below : List Frame} (entered : place.cells[cursor]? = some cell)
    (first : Walk base.script base.dictionary cell a b)
    (left : Left base.script base.dictionary (⟨place, cursor + 1⟩ :: below) b c) :
    Left base.script base.dictionary (⟨place, cursor⟩ :: below) a c := by
  obtain ⟨d, later, rest⟩ := left
  have split : place.cells.drop cursor = cell :: place.cells.drop (cursor + 1) := by
    obtain ⟨inside, same⟩ := List.getElem?_eq_some_iff.1 entered
    rw [List.drop_eq_getElem_cons inside, same]
  refine ⟨d, ?_, rest⟩
  rw [split]
  exact .cons first later

theorem left_of_ended {a c : Stage} {place : Place} {cursor : Nat} {below : List Frame}
    (ended : place.cells[cursor]? = none) (left : Left base.script base.dictionary below a c) :
    Left base.script base.dictionary (⟨place, cursor⟩ :: below) a c := by
  have nothing : place.cells.drop cursor = [] :=
    List.drop_eq_nil_of_le (List.getElem?_eq_none_iff.1 ended)
  refine ⟨a, ?_, left⟩
  rw [nothing]
  exact .nil a

/-- A step of a plain stack ends the session, with nothing left to walk through, or goes on to a
plain stack from where what is left completes a walk through what was left before. -/
theorem left_of_step {names : List String} (declared : base.script.Declares names) (a : Stage)
    {stack : List Frame} (plain : ArePlain names stack) :
    ∃ m frames, (a.on base stack).step = m.on base frames ∧
      ((a.on base stack).session.step.flow = .finished ∧
          Left base.script base.dictionary stack a m ∨
        (a.on base stack).session.step.flow.goesOn = true ∧ ArePlain names frames ∧
          ∀ c, Left base.script base.dictionary frames m c →
            Left base.script base.dictionary stack a c) := by
  cases stack with
  | nil =>
      refine ⟨a, [], ?_, .inl ⟨rfl, rfl⟩⟩
      simp only [Recording.step, Session.step, add, Flow.beats, Stage.on, List.append_nil]
  | cons frame below =>
      obtain ⟨place, cursor⟩ := frame
      obtain ⟨⟨walked, cells⟩, rest⟩ := List.forall_mem_cons.1 plain
      cases entered : place.cells[cursor]? with
      | some cell =>
          obtain ⟨index, node, bare, rfl⟩ := cells.node_of_getElem? entered
          obtain ⟨m, upper, flow, come, kept, walks⟩ :=
            walk_of_entered declared index node bare a (⟨place, cursor + 1⟩ :: below)
          rw [← step_cell a entered below] at flow come
          refine ⟨m, upper ++ ⟨place, cursor + 1⟩ :: below, come, .inr ⟨flow, ?_, ?_⟩⟩
          · exact List.forall_mem_append.2 ⟨kept, List.forall_mem_cons.2 ⟨⟨walked, cells⟩, rest⟩⟩
          · intro c left
            obtain ⟨b, inner, outer⟩ := left_append left
            exact left_of_cell entered (walks b inner) outer
      | none =>
          cases below with
          | nil =>
              obtain ⟨flow, come⟩ := step_last base a walked entered
              exact ⟨a, _, come, .inl ⟨flow, left_of_ended entered rfl⟩⟩
          | cons next below =>
              obtain ⟨flow, come⟩ := step_popped base a walked entered next below
              refine ⟨a, _, come, .inr ⟨by rw [flow]; rfl, rest, ?_⟩⟩
              exact fun c left => left_of_ended entered left

/-- A session that comes to its end has walked through what its stack had not entered. -/
theorem left_of_ends {names : List String} (declared : base.script.Declares names) {r t : Recording}
    (ends : Ends r t) {a : Stage} {stack : List Frame} (plain : ArePlain names stack)
    (here : r = a.on base stack) :
    ∃ b frames, t = b.on base frames ∧ Left base.script base.dictionary stack a b := by
  induction ends generalizing a stack with
  | now flow =>
      subst here
      obtain ⟨m, frames, come, ⟨-, left⟩ | ⟨goes, -⟩⟩ := left_of_step declared a plain
      · exact ⟨m, frames, come, left⟩
      · rw [flow] at goes
        cases goes
  | later flow rest ih =>
      subst here
      obtain ⟨m, frames, come, ⟨ended, -⟩ | ⟨-, kept, back⟩⟩ := left_of_step declared a plain
      · rw [ended] at flow
        cases flow
      · obtain ⟨b, final, last, left⟩ := ih kept come
        exact ⟨b, final, last, back b left⟩

/-- Whether requests for beats are answered by the beats of a stage and then by the end, announce
its events, and leave its memory and its random state. -/
def Tells (s : Session) (allowances : List Nat) (t : Stage) : Prop :=
  let out := s.run (allowances.map .next)
  out.1.map Report.answer = toEnd t.beats ∧ out.1.flatMap Report.events = t.events ∧
    out.2.memory = t.memory ∧ out.2.random = t.random

def stage (s : Session) : Stage := ⟨s.memory, s.random, [], []⟩

theorem on_stage {s : Session} {stack : List Frame} (same : s.stack = stack) :
    s.stage.on s stack = ⟨s, [], []⟩ := by
  subst same
  rfl

theorem tells_of_walkAll {s : Session} {t : Stage}
    (stack : s.stack = [⟨.document s.script.content, 0⟩])
    (walk : WalkAll s.script s.dictionary s.script.content s.stage t) :
    ∃ enough, ∀ allowances : List Nat, allowances.length = t.beats.length + 1 →
      (∀ allowance ∈ allowances, enough ≤ allowance) → s.Tells allowances t := by
  let place := Place.document s.script.content
  have final : ∀ last, place.cells[last]? = none →
      Ends (t.on s [⟨place, last⟩]) (t.on s [⟨place, place.cells.length + 1⟩]) := by
    intro last ended
    obtain ⟨flow, step⟩ := step_last s t rfl ended
    rw [← step]
    exact .now flow
  have ends : Ends (s.stage.on s [⟨place, 0⟩]) (t.on s [⟨place, place.cells.length + 1⟩]) :=
    ends_of_walkAll walk rfl rfl final
  rw [on_stage stack] at ends
  obtain ⟨enough, more, beats, runs⟩ := run_of_ends ends
  have same : more = t.beats := beats.symm
  subst same
  refine ⟨enough, ?_⟩
  intro allowances length bound
  obtain ⟨answers, events, session⟩ := runs allowances length bound
  refine ⟨answers, events, ?_, ?_⟩
  · rw [session]
    rfl
  · rw [session]
    rfl

theorem walkAll_of_tells {s : Session} {names : List String} {allowances : List Nat} {t : Stage}
    (stack : s.stack = [⟨.document s.script.content, 0⟩]) (declared : s.script.Declares names)
    (plain : Cell.ArePlain names s.script.content) (tells : s.Tells allowances t) :
    WalkAll s.script s.dictionary s.script.content s.stage t := by
  obtain ⟨answers, events, memory, random⟩ := tells
  have ends := ends_of_run answers [] []
  have single : ArePlain names [⟨.document s.script.content, 0⟩] :=
    List.forall_mem_singleton.2 ⟨rfl, plain⟩
  obtain ⟨b, frames, last, _, walk, rfl⟩ := left_of_ends declared ends single (on_stage stack).symm
  have same : b = t := by
    ext1
    · exact (congrArg (fun r => r.session.memory) last).symm.trans memory
    · exact (congrArg (fun r => r.session.random) last).symm.trans random
    · exact (congrArg Recording.beats last).symm
    · exact (congrArg Recording.events last).symm.trans events
  subst same
  exact walk

/-- For a document without options whose diverts all name its blocks, a new session tells what a
walk through the content comes to: if there is a walk, requests for beats with large enough
allowances tell it, and if requests tell a stage, the walk comes to that stage. -/
theorem walk_tells (d : Document) (plain : d.isPlain = true) (seed : UInt32)
    (dictionary : Std.ExtTreeMap String String) (data : Option Memory) (t : Stage) :
    let script := Script.ofDocument d
    let s := ofScript script seed dictionary data
    let walked := WalkAll script dictionary script.content ⟨s.memory, s.random, [], []⟩ t
    (walked → ∃ enough, ∀ allowances : List Nat, allowances.length = t.beats.length + 1 →
      (∀ allowance ∈ allowances, enough ≤ allowance) → s.Tells allowances t) ∧
    ∀ allowances, s.Tells allowances t → walked := by
  have content : Cell.ArePlain d.blockNames (Script.ofDocument d).content :=
    ⟨_, _, d.content, (Bool.and_eq_true_iff.1 plain).1, rfl⟩
  have declared := Script.declares_of_isPlain plain
  cases data with
  | none | some saved =>
      exact ⟨fun walk => tells_of_walkAll rfl walk,
        fun allowances tells => walkAll_of_tells rfl declared content tells⟩

/-- A document that diverts to a block with an unmet condition and comes back from it. -/
def hallTour : Document where
  content := [.act (.trigger ["visit"]), .divert "hall", .line "Bye" {}]
  blocks := [⟨"hall", [.conditional (.variable "dark") (.line "Stop" {}), .line "Hall" {}]⟩]

theorem walk_tells_hallTour :
    let s := ofScript (Script.ofDocument hallTour) 1 ∅ none
    let t : Stage := ⟨∅, 1, [.line "Hall" {}, .line "Bye" {}], [.triggered "visit"]⟩
    hallTour.isPlain = true ∧ ∃ enough, ∀ allowances : List Nat, allowances.length = 3 →
      (∀ allowance ∈ allowances, enough ≤ allowance) → s.Tells allowances t := by
  intro s t
  have plain : hallTour.isPlain = true := by decide
  have hall : ∀ lookup, Template.fill lookup "Hall" = "Hall" := by
    intro lookup
    cbv
  have bye : ∀ lookup, Template.fill lookup "Bye" = "Bye" := by
    intro lookup
    cbv
  have walk : WalkAll (Script.ofDocument hallTour) ∅ (Script.ofDocument hallTour).content
      ⟨∅, 1, [], []⟩ ⟨∅, 1, [.line (Template.fill _ "Hall") {}, .line (Template.fill _ "Bye") {}],
        [.triggered "visit"]⟩ :=
    .cons (.act _ _ _)
      (.cons (.divert _ rfl rfl
          (.cons (.unmet _ _ rfl) (.cons (.line _ _ _ _) (.nil _))))
        (.cons (.line _ _ _ _) (.nil _)))
  rw [hall, bye] at walk
  exact ⟨plain, (walk_tells hallTour plain 1 ∅ none t).1 walk⟩

end Session
end Dialogue
