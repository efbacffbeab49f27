import Dialogue.Proofs.Meaning
import Dialogue.Proofs.Options

/-! Saved data. A memory that was loaded has an entry for the random state that the one it was saved
from need not have. The entry is overlaid on the memory, and every request keeps it apart from what
is played, so that none of them shows it. -/
namespace Dialogue

namespace Memory

/-- The bookkeeping that playing reads and writes. -/
inductive Played : String → Prop
  | options : Played optionsCount
  | cursor (index : UInt64) : Played (Variation.cursorKey index)
  | visited (index : UInt64) : Played (Variation.visitedKey index)

theorem Played.ne_randomState {key : String} (played : Played key) :
    Session.randomState ≠ key := by
  have undotted : '.' ∉ Session.randomState.toList := by decide
  cases played with
  | options => decide
  | cursor index | visited index =>
      intro same
      rw [same] at undotted
      simp [Variation.cursorKey, Variation.visitedKey] at undotted

/-- A memory with an entry for a random state, if there is one. -/
def overlay (m : Memory) : Option Datum → Memory
  | none => m
  | some datum => m.note Session.randomState datum

@[simp] theorem accessed_overlay (m : Memory) (entry : Option Datum) (index : UInt64) :
    (m.overlay entry).accessed index = m.accessed index := by
  cases entry <;> rfl

@[simp] theorem stored_overlay (m : Memory) (entry : Option Datum) (name : String) :
    (m.overlay entry).stored name = m.stored name := by
  cases entry <;> rfl

theorem set_overlay (m : Memory) (entry : Option Datum) (name : String) (value : Value) :
    (m.overlay entry).set name value = (m.set name value).overlay entry := by
  cases entry <;> rfl

theorem visit_overlay (m : Memory) (entry : Option Datum) (index : UInt64) :
    (m.overlay entry).visit index = (m.visit index).overlay entry := by
  cases entry <;> rfl

theorem count?_overlay (m : Memory) (entry : Option Datum) {key : String} (played : Played key) :
    (m.overlay entry).count? key = m.count? key := by
  cases entry with
  | none => rfl
  | some datum => exact count?_note_of_ne m datum played.ne_randomState

theorem positions_overlay (m : Memory) (entry : Option Datum) {key : String}
    (played : Played key) : (m.overlay entry).positions key = m.positions key := by
  cases entry with
  | none => rfl
  | some datum => exact positions_note_of_ne m datum played.ne_randomState

theorem note_overlay (m : Memory) (entry : Option Datum) {key : String} (datum : Datum)
    (played : Played key) :
    (m.overlay entry).note key datum = (m.note key datum).overlay entry := by
  cases entry with
  | none => rfl
  | some saved => exact note_comm m saved datum played.ne_randomState

@[simp] theorem get_overlay (m : Memory) (entry : Option Datum) (name : String) (default : Value) :
    (m.overlay entry).get name default = m.get name default := by
  cases entry with
  | none => rfl
  | some datum => exact get_note_of_ne m datum Played.options.ne_randomState name default

end Memory

namespace Expr

@[simp] theorem evaluate_overlay (m : Memory) (entry : Option Datum) (e : Expr) :
    e.evaluate (m.overlay entry) = e.evaluate m :=
  evaluate_congr fun name _ => m.get_overlay entry name .null

@[simp] theorem holds_overlay (m : Memory) (entry : Option Datum) (e : Expr) :
    e.holds (m.overlay entry) = e.holds m :=
  holds_congr fun name _ => m.get_overlay entry name .null

end Expr

def Effect.overlay {α : Type} (effect : Effect α) (entry : Option Datum) : Effect α :=
  { effect with memory := effect.memory.overlay entry }

theorem Assignment.run_overlay (m : Memory) (entry : Option Datum) (assignment : Assignment) :
    run (m.overlay entry) assignment = (run m assignment).overlay entry := by
  induction assignment with
  | store name update value =>
      simp only [run, put, Memory.write, Effect.overlay, Expr.evaluate_overlay, Memory.get_overlay,
        Memory.stored_overlay, Memory.set_overlay]
  | chain name update next ih =>
      simp only [run, put, Memory.write, ih, Effect.overlay, Memory.get_overlay,
        Memory.stored_overlay, Memory.set_overlay]

theorem Assignment.runAll_overlay (m : Memory) (entry : Option Datum)
    (assignments : List Assignment) :
    runAll (m.overlay entry) assignments = (runAll m assignments).overlay entry := by
  induction assignments generalizing m with
  | nil => rfl
  | cons first rest ih => simp only [runAll, run_overlay, Effect.overlay, ih]

theorem Action.run_overlay (m : Memory) (entry : Option Datum) (action : Action) :
    run (m.overlay entry) action = (run m action).overlay entry := by
  cases action with
  | assign assignments => simp only [run, Assignment.runAll_overlay, Effect.overlay]
  | trigger names => rfl

theorem Action.runAll_overlay (m : Memory) (entry : Option Datum) (actions : List Action) :
    runAll (m.overlay entry) actions = (runAll m actions).overlay entry := by
  induction actions generalizing m with
  | nil => rfl
  | cons first rest ih => simp only [runAll, run_overlay, Effect.overlay, ih]

namespace Choice

@[simp] theorem find?_overlay (m : Memory) (entry : Option Datum) (item : Cell) :
    find? (m.overlay entry) item = find? m item := by
  fun_induction find? m item with
  | case1 => rfl
  | case2 index condition body held ih => simp [find?, held, ih]
  | case3 index condition body failed => simp [find?, failed]
  | case4 index action body ih => simp [find?, ih]
  | case5 item option conditional acting =>
      simp only [find?]

@[simp] theorem visible_overlay (m : Memory) (entry : Option Datum) (items : List Cell) :
    visible (m.overlay entry) items = visible m items := by
  have found : find? (m.overlay entry) = find? m := funext (find?_overlay m entry)
  have free : available (m.overlay entry) = available m := by
    funext choice
    simp only [available, Memory.accessed_overlay]
  simp only [visible, candidates, found, free]
  rfl

theorem offer_overlay (m : Memory) (entry : Option Datum) (items : List Cell) :
    offer (m.overlay entry) items = ((offer m items).1, (offer m items).2.overlay entry) := by
  simp only [offer, Memory.note_overlay _ _ _ .options, visible_overlay]

end Choice

namespace Variation

/-- What a draw comes to when an entry for a random state lies over the memory. -/
def overlay {α : Type} (entry : Option Datum) (out : α × Memory × UInt32) : α × Memory × UInt32 :=
  (out.1, out.2.1.overlay entry, out.2.2)

theorem shuffle_overlay (index : UInt64) (mode : VariationMode) (length : Nat) (m : Memory)
    (entry : Option Datum) (random : UInt32) :
    shuffle index mode length (m.overlay entry) random =
      overlay entry (shuffle index mode length m random) := by
  have visited := Memory.positions_overlay m entry (.visited index)
  have cursor := Memory.count?_overlay m entry (.cursor index)
  simp only [shuffle, visited, cursor, Memory.note_overlay _ _ _ (.visited index),
    Memory.note_overlay _ _ _ (.cursor index)]
  repeat' split
  all_goals rfl

theorem next_overlay (index : UInt64) (mode : VariationMode) (length : Nat) (m : Memory)
    (entry : Option Datum) (random : UInt32) :
    next index mode length (m.overlay entry) random =
      overlay entry (next index mode length m random) := by
  have cursor := Memory.count?_overlay m entry (.cursor index)
  cases mode
  case sequence =>
    simp only [next, cursor, Memory.note_overlay _ _ _ (.cursor index)]
    rfl
  case once | cycle =>
    simp only [next, cursor, Memory.note_overlay _ _ _ (.cursor index)]
    split <;> rfl
  all_goals exact shuffle_overlay ..

theorem isUnmet_overlay (m : Memory) (entry : Option Datum) (alternative : Cell) :
    isUnmet (m.overlay entry) alternative = isUnmet m alternative := by
  simp only [isUnmet, Expr.holds_overlay]

theorem pick_overlay (index : UInt64) (mode : VariationMode) (alternatives : List Cell)
    (tries : Nat) (m : Memory) (entry : Option Datum) (random : UInt32) :
    pick index mode alternatives tries (m.overlay entry) random =
      overlay entry (pick index mode alternatives tries m random) := by
  induction tries generalizing m random with
  | zero => rfl
  | succ tries ih =>
      simp only [pick, next_overlay]
      generalize next index mode alternatives.length m random = drawn
      obtain ⟨position, memory, random⟩ := drawn
      simp only [overlay, isUnmet_overlay, ih]
      repeat' split
      all_goals rfl

end Variation

namespace Session

/-- A session that differs from another in an entry for a random state and in its listeners. -/
def overlay (s : Session) (entry : Option Datum) (listeners : Listeners) : Session :=
  { s with memory := s.memory.overlay entry, listeners := listeners }

def Step.overlay (step : Step) (entry : Option Datum) (listeners : Listeners) : Step :=
  { step with session := step.session.overlay entry listeners }

def Outcome.overlay {α : Type} (out : Outcome α) (entry : Option Datum) (listeners : Listeners) :
    Outcome α :=
  { out with session := out.session.overlay entry listeners }

section
variable (s : Session) (entry : Option Datum) (listeners : Listeners)

@[simp] theorem render_overlay (id : Option String) (text : String) :
    (s.overlay entry listeners).render id text = s.render id text := by
  simp only [render, overlay, Memory.get_overlay]

@[simp] theorem label_overlay (choice : Choice) :
    (s.overlay entry listeners).label choice = s.label choice := by
  simp only [label, render_overlay]

theorem select_overlay (choice : Choice) :
    (s.overlay entry listeners).select choice =
      ((s.select choice).1.overlay entry listeners, (s.select choice).2) := by
  have counted : ∀ m : Memory, (m.overlay entry).count? Memory.optionsCount =
      m.count? Memory.optionsCount := fun m => m.count?_overlay entry .options
  simp only [select, overlay, Memory.visit_overlay, counted, Memory.note_overlay _ _ _ .options]
  split <;> simp only [Action.runAll_overlay, Effect.overlay, push]

theorem present_overlay (header : Option String) (marks : Marks) (items : List Cell) :
    (s.overlay entry listeners).present header marks items =
      (s.present header marks items).overlay entry listeners := by
  have offered : Choice.offer (s.overlay entry listeners).memory items =
      ((Choice.offer s.memory items).1, (Choice.offer s.memory items).2.overlay entry) :=
    Choice.offer_overlay s.memory entry items
  unfold present
  rw [offered]
  generalize Choice.offer s.memory items = offer
  obtain ⟨visible, memory⟩ := offer
  let t : Session := { s with memory := memory }
  have render := funext (render_overlay t entry listeners marks.id)
  have label := funext (label_overlay t entry listeners)
  have shown : Step.mk (.beat (.options
        (header.map ((t.overlay entry listeners).render marks.id)) marks
        (visible.map (t.overlay entry listeners).label))) (t.overlay entry listeners) [] =
      Step.overlay ⟨.beat (.options (header.map (t.render marks.id)) marks
        (visible.map t.label)), t, []⟩ entry listeners := by
    rw [render, label]
    rfl
  match visible with
  | [] => rfl
  | [only] =>
      by_cases fallback : (only.mode == .fallback) = true
      · simp only [fallback, if_true]
        have selected := select_overlay t entry listeners only
        exact congrArg (fun out : Session × List Event => proceed out.1 out.2) selected
      · simp only [fallback]
        exact shown
  | first :: second :: rest => exact shown

theorem divert_overlay (target : String) :
    (s.overlay entry listeners).divert target =
      (s.divert target).overlay entry listeners := by
  unfold divert
  split
  · rfl
  · rfl
  · simp only [overlay]
    split <;> rfl

theorem enter_overlay (cell : Cell) :
    (s.overlay entry listeners).enter cell = (s.enter cell).overlay entry listeners := by
  fun_induction enter s cell with
  | case1 s index text marks =>
      rw [enter, render_overlay]
      rfl
  | case2 s index cells => rfl
  | case3 s index name marks items =>
      exact present_overlay (s.push (.options name marks items)) entry listeners name marks items
  | case4 s => rfl
  | case5 s index target => exact divert_overlay s entry listeners target
  | case6 s index mode alternatives picked memory random found =>
      have drawn := Variation.pick_overlay index mode alternatives alternatives.length s.memory
        entry s.random
      rw [found] at drawn
      simp only [enter, overlay, drawn, Variation.overlay]
      cases picked <;> rfl
  | case7 s index condition body held ih =>
      rw [enter, if_pos (by rwa [overlay, Expr.holds_overlay]), ih]
  | case8 s index condition body failed =>
      rw [enter, if_neg (by rwa [overlay, Expr.holds_overlay])]
      rfl
  | case9 s index action body effect step ih =>
      simp only [enter, overlay, Action.run_overlay, Effect.overlay]
      simp only [overlay, effect] at ih
      rw [ih]
      rfl
  | case10 s index action effect =>
      simp only [enter, overlay, Action.run_overlay, Effect.overlay]
      rfl

theorem step_overlay : (s.overlay entry listeners).step = s.step.overlay entry listeners := by
  match stack : s.stack with
  | [] => simp only [step, overlay, Step.overlay, stack]
  | ⟨.options header marks items, cursor⟩ :: below =>
      rw [step_of_list stack, step_of_list (s := s.overlay entry listeners) stack, present_overlay]
  | ⟨.document cells, cursor⟩ :: below
  | ⟨.block name cells, cursor⟩ :: below
  | ⟨.content cells, cursor⟩ :: below =>
      simp only [step, overlay, stack, Place.cells]
      cases cells[cursor]? with
      | some cell => exact enter_overlay { s with stack := _ :: below } entry listeners cell
      | none => cases below <;> rfl

theorem next_overlay (allowance : Nat) :
    (s.overlay entry listeners).next allowance = (s.next allowance).overlay entry listeners := by
  induction allowance generalizing s with
  | zero => rfl
  | succ allowance ih =>
      simp only [next, step_overlay, Step.overlay]
      cases s.step.flow with
      | proceed => simp only [ih, Outcome.overlay]
      | beat beat | finished | failed fault => rfl

theorem choose_overlay (index : Nat) :
    (s.overlay entry listeners).choose index = (s.choose index).overlay entry listeners := by
  match stack : s.stack with
  | ⟨.options header marks items, cursor⟩ :: below =>
      have offer := Choice.offer_overlay s.memory entry items
      rw [choose_of_offer stack (Prod.eta (Choice.offer s.memory items)).symm,
        choose_of_offer (s := s.overlay entry listeners) stack offer]
      cases (Choice.offer s.memory items).1[index]? with
      | none => rfl
      | some choice =>
          have selected := select_overlay { s with memory := (Choice.offer s.memory items).2 }
            entry listeners choice
          exact congrArg
            (fun out : Session × List Event => Outcome.mk (Except.ok ()) out.1 out.2) selected
  | []
  | ⟨.document cells, cursor⟩ :: below
  | ⟨.block name cells, cursor⟩ :: below
  | ⟨.content cells, cursor⟩ :: below => simp only [choose, overlay, Outcome.overlay, stack]

theorem data_overlay : (s.overlay entry listeners).data = s.data := by
  cases entry with
  | none => rfl
  | some saved => exact Memory.note_note s.memory randomState saved _

theorem orRefuse_start_overlay (block : Option String) :
    (s.overlay entry listeners).orRefuse ((s.overlay entry listeners).start block) =
      (s.orRefuse (s.start block)).overlay entry listeners := by
  cases block with
  | none => rfl
  | some name =>
      simp only [start, overlay]
      cases s.script.block? name <;> rfl

theorem set_overlay (name : String) (value : Value) :
    (s.overlay entry listeners).set name value = (s.set name value).overlay entry listeners := by
  simp only [set, overlay, Outcome.overlay, Memory.write, Memory.set_overlay, Memory.stored_overlay]

/-- Requests that put other contents in the place of what is remembered drop the entry, and others
keep it. -/
theorem perform_overlay {op : Operation} (keeps : op.registers = false) :
    ∃ left, (s.overlay entry listeners).perform op = (s.perform op).overlay left listeners := by
  cases op with
  | next allowance =>
      refine ⟨entry, ?_⟩
      simp only [perform, next_overlay, Outcome.overlay]
  | choose index =>
      refine ⟨entry, ?_⟩
      simp only [perform, choose_overlay, Outcome.overlay]
  | start block => exact ⟨entry, orRefuse_start_overlay s entry listeners block⟩
  | set name value =>
      refine ⟨entry, ?_⟩
      simp only [perform, set_overlay, Outcome.overlay]
  | get name =>
      refine ⟨entry, ?_⟩
      simp only [perform, get, overlay, Outcome.overlay, Memory.get_overlay]
  | data =>
      refine ⟨entry, ?_⟩
      simp only [perform, data_overlay, Outcome.overlay]
  | load data => exact ⟨none, rfl⟩
  | read text =>
      simp only [perform]
      cases Memory.read? text with
      | some data => exact ⟨none, rfl⟩
      | none => exact ⟨entry, rfl⟩
  | clear => exact ⟨none, rfl⟩
  | translate dictionary => exact ⟨entry, rfl⟩
  | on kind | off id => cases keeps

end

/-- A request that registers nobody leaves the listeners, since it takes place in the same way with
others in their place. -/
theorem listeners_perform (s : Session) {op : Operation} (keeps : op.registers = false) :
    (s.perform op).session.listeners = s.listeners := by
  obtain ⟨left, same⟩ := perform_overlay s none s.listeners keeps
  have itself : s.overlay none s.listeners = s := rfl
  rw [itself] at same
  exact congrArg (fun out => out.session.listeners) same

theorem run_overlay (s : Session) (entry : Option Datum) {listeners : Listeners}
    (same : listeners.registered = s.listeners.registered) {ops : List Operation}
    (keeps : ∀ op ∈ ops, op.registers = false) :
    ((s.overlay entry listeners).run ops).1 = (s.run ops).1 := by
  induction ops generalizing s entry with
  | nil => rfl
  | cons op rest ih =>
      have first := keeps op List.mem_cons_self
      obtain ⟨left, performed⟩ := perform_overlay s entry listeners first
      have kept := listeners_perform s first
      have later := ih (s.perform op).session left (by rw [kept, same])
        (fun other member => keeps other (List.mem_cons_of_mem op member))
      have report : (Outcome.overlay (s.perform op) left listeners).report listeners =
          (s.perform op).report s.listeners := by
        simp only [Outcome.report, Outcome.overlay, Listeners.deliver, Listeners.receivers, same]
      simp only [run_cons, performed]
      exact List.cons_eq_cons.2 ⟨report, later⟩

/-- A random state goes through its entry unchanged, since the entry is wide enough for it. -/
theorem random_load_data (a b : Session) : (b.load a.data).random = a.random := by
  have bound : a.random.toNat < UInt32.size := a.random.toNat_lt
  have small : a.random.toNat < 2 ^ 63 := Nat.lt_trans bound (by decide)
  have saved : a.data.count? randomState = some (Int64.ofNat a.random.toNat) :=
    Memory.count?_note_self a.memory randomState _
  have value : (Int64.ofNat a.random.toNat).toInt = a.random.toNat :=
    Int64.toInt_ofNat_of_lt small
  have nonnegative : 0 ≤ Int64.ofNat a.random.toNat := by
    rw [Int64.le_iff_toInt_le, value]
    exact Int.natCast_nonneg _
  have within : (Int64.ofNat a.random.toNat).toInt < UInt32.size := by
    rw [value]
    exact Int.ofNat_lt.2 bound
  simp only [load, saved, nonnegative, within, and_self, if_true,
    Int64.toNatClampNeg_ofNat_of_lt small, Nat.toUInt32_eq, UInt32.ofNat_toNat]

theorem load_data {a b : Session} (script : b.script = a.script)
    (dictionary : b.dictionary = a.dictionary) :
    b.load a.data =
      { a with stack := b.stack }.overlay (some (.count (Int64.ofNat a.random.toNat)))
        b.listeners := by
  have random := random_load_data a b
  simp only [load] at random
  simp only [load, overlay, random, script, dictionary]
  rfl

/-- From the data that a session saves, another session of the same script, dictionary and listeners
goes on in the same way: whatever is asked of both after the same start, the answers, the events,
who receives them and the data saved again are the same. -/
theorem run_load_data (a b : Session) (block : Option String) (script : b.script = a.script)
    (dictionary : b.dictionary = a.dictionary)
    (listeners : b.listeners.registered = a.listeners.registered) {started : Session}
    (accepted : a.start block = .ok started) :
    ∃ resumed, (b.load a.data).start block = .ok resumed ∧
      ∀ ops : List Operation, (∀ op ∈ ops, op.registers = false) →
        (resumed.run ops).1 = (started.run ops).1 := by
  rw [load_data script dictionary]
  generalize some (Datum.count (Int64.ofNat a.random.toNat)) = entry
  suffices same : ({ a with stack := b.stack }.overlay entry b.listeners).start block =
      .ok (started.overlay entry b.listeners) ∧ started.listeners = a.listeners by
    obtain ⟨again, kept⟩ := same
    refine ⟨_, again, ?_⟩
    intro ops keeps
    exact run_overlay started entry (by rw [listeners, kept]) keeps
  cases block with
  | none =>
      obtain rfl := Except.ok.inj accepted
      exact ⟨rfl, rfl⟩
  | some name =>
      simp only [start, overlay] at accepted ⊢
      cases found : a.script.block? name with
      | none => simp [found] at accepted
      | some block =>
          simp only [found, Except.ok.injEq] at accepted ⊢
          subst accepted
          exact ⟨rfl, rfl⟩

/-- Two alternatives that are drawn at random. -/
def diceList : Document where
  content := [.variations .shuffle [[.line "Heads" {}], [.line "Tails" {}]]]

theorem run_load_data_diceList :
    let fresh := ofScript (Script.ofDocument diceList) 7
    let a := (fresh.set "name" (.string "Ann")).session
    let b := ofScript (Script.ofDocument diceList) 99
    b.random ≠ a.random ∧ (b.load a.data).memory.count? randomState = some 7 ∧
      a.memory.count? randomState = none ∧
      ∃ resumed, (b.load a.data).start none = .ok resumed ∧
        ∀ ops : List Operation, (∀ op ∈ ops, op.registers = false) →
          (resumed.run ops).1 = ({ a with stack := fresh.stack }.run ops).1 := by
  intro fresh a b
  exact ⟨by decide, Memory.count?_note_self a.memory randomState 7, rfl,
    run_load_data a b none rfl rfl rfl rfl⟩

end Session
end Dialogue
