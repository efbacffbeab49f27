import Dialogue.Proofs.Snapshot
import Dialogue.Proofs.Stack
import Dialogue.Proofs.Visits

/-! Seeds. Only variations of a shuffle mode draw from the random state. Over a document without
them a session that is at another random state does the same, and only what it saves tells them
apart. A session is therefore compared with itself at a fixed random state and without the entry
for one in its memory. -/
namespace Dialogue

namespace Node

mutual

/-- Whether a node is or holds, at any depth, variations that are drawn at random. -/
def shuffles : Node → Bool
  | .content nodes | .options _ _ nodes | .option _ _ _ nodes => anyShuffles nodes
  | .variations mode alternatives => mode.draws || eachShuffles alternatives
  | .conditional _ body | .acting _ body => body.shuffles
  | .line .. | .divert _ | .act _ => false

def anyShuffles : List Node → Bool
  | [] => false
  | node :: rest => node.shuffles || anyShuffles rest

def eachShuffles : List (List Node) → Bool
  | [] => false
  | nodes :: rest => anyShuffles nodes || eachShuffles rest

end

theorem shuffles_of_mem {node : Node} {nodes : List Node} (steady : anyShuffles nodes = false)
    (member : node ∈ nodes) : node.shuffles = false := by
  induction nodes with
  | nil => cases member
  | cons first rest ih =>
      rw [anyShuffles, Bool.or_eq_false_iff] at steady
      rcases List.mem_cons.1 member with rfl | later
      · exact steady.1
      · exact ih steady.2 later

theorem anyShuffles_of_mem {nodes : List Node} {alternatives : List (List Node)}
    (steady : eachShuffles alternatives = false) (member : nodes ∈ alternatives) :
    anyShuffles nodes = false := by
  induction alternatives with
  | nil => cases member
  | cons first rest ih =>
      rw [eachShuffles, Bool.or_eq_false_iff] at steady
      rcases List.mem_cons.1 member with rfl | later
      · exact steady.1
      · exact ih steady.2 later

theorem shuffles_of_mem_parts {node part : Node} (steady : node.shuffles = false)
    (member : part ∈ node.parts) : part.shuffles = false := by
  cases node with
  | content nodes | options name marks nodes | option name mode marks nodes =>
      exact shuffles_of_mem steady member
  | variations mode alternatives =>
      rw [shuffles, Bool.or_eq_false_iff] at steady
      obtain ⟨nodes, source, rfl⟩ := List.mem_map.1 member
      exact anyShuffles_of_mem steady.2 source
  | conditional condition body | acting action body =>
      obtain rfl := List.mem_singleton.1 member
      exact steady
  | line text marks | divert target | act action => cases member

end Node

/-- Whether a document has variations of a shuffle mode. -/
def Document.shuffles (d : Document) : Bool :=
  Node.anyShuffles d.content || d.blocks.any fun block => Node.anyShuffles block.content

namespace Script

/-- Whether no variations of a script are drawn at random. -/
def Steady (script : Script) : Prop :=
  ∀ index mode alternatives, script.Has (.variations index mode alternatives) → mode.draws = false

theorem steady_ofDocument {d : Document} (steady : d.shuffles = false) :
    (ofDocument d).Steady := by
  rw [Document.shuffles, Bool.or_eq_false_iff, List.any_eq_false] at steady
  intro index mode alternatives has
  obtain ⟨number, node, same, held⟩ := node_of_has
    (fun node => Node.shuffles_of_mem steady.1)
    (fun block declared node => Node.shuffles_of_mem (by simpa using steady.2 block declared))
    (fun node held part => Node.shuffles_of_mem_parts held) has
  cases node with
  | variations mode alternatives =>
      obtain ⟨rfl, rfl, rfl⟩ := Cell.variations.inj same
      rw [Node.shuffles, Bool.or_eq_false_iff] at held
      exact held.1
  | _ => cases same

end Script

namespace Variation

/-- Modes that draw nothing pick the same at every random state, and leave it. -/
theorem next_reseeded {mode : VariationMode} (steady : mode.draws = false) (index : UInt64)
    (length : Nat) (m : Memory) (random other : UInt32) :
    next index mode length m other =
      ((next index mode length m random).1, (next index mode length m random).2.1, other) := by
  cases mode
  case sequence => rfl
  case once | cycle =>
    simp only [next]
    split <;> rfl
  all_goals cases steady

theorem pick_reseeded {mode : VariationMode} (steady : mode.draws = false) (index : UInt64)
    (alternatives : List Cell) (tries : Nat) (m : Memory) (random other : UInt32) :
    pick index mode alternatives tries m other =
      ((pick index mode alternatives tries m random).1,
        (pick index mode alternatives tries m random).2.1, other) := by
  induction tries generalizing m random with
  | zero => rfl
  | succ tries ih =>
      simp only [pick, next_reseeded steady index alternatives.length m random other]
      generalize next index mode alternatives.length m random = picked
      obtain ⟨position, memory, left⟩ := picked
      simp only
      split
      · rfl
      · split
        · exact ih memory left
        · rfl

end Variation

namespace Session

/-- A session at another random state. -/
def reseeded (s : Session) (random : UInt32) : Session := { s with random := random }

def Step.reseeded (step : Step) (random : UInt32) : Step :=
  { step with session := step.session.reseeded random }

def Outcome.reseeded {α : Type} (out : Outcome α) (random : UInt32) : Outcome α :=
  { out with session := out.session.reseeded random }

section
variable {script : Script} (steady : script.Steady) {s : Session} (random : UInt32)

theorem present_reseeded (header : Option String) (marks : Marks) (items : List Cell) :
    (s.reseeded random).present header marks items =
      (s.present header marks items).reseeded random := by
  have kept : (s.reseeded random).memory = s.memory := rfl
  unfold present
  rw [kept]
  generalize Choice.offer s.memory items = offered
  obtain ⟨visible, memory⟩ := offered
  match visible with
  | [] => rfl
  | [only] =>
      by_cases fallback : (only.mode == .fallback) = true
      · simp only [fallback, if_true]
        rfl
      · simp only [fallback]
        rfl
  | first :: second :: rest => rfl

theorem divert_reseeded (target : String) :
    (s.reseeded random).divert target = (s.divert target).reseeded random := by
  unfold divert
  split
  · rfl
  · rfl
  · simp only [reseeded]
    split <;> rfl

include steady

theorem enter_reseeded {cell : Cell} (has : script.Has cell) :
    (s.reseeded random).enter cell = (s.enter cell).reseeded random := by
  fun_induction enter s cell with
  | case1 s index text marks => rfl
  | case2 s index cells => rfl
  | case3 s index name marks items =>
      exact present_reseeded (s := s.push (.options name marks items)) random name marks items
  | case4 s => rfl
  | case5 s index target => exact divert_reseeded random target
  | case6 s index mode alternatives picked memory left found =>
      have drawn := Variation.pick_reseeded (steady index mode alternatives has) index alternatives
        alternatives.length s.memory s.random random
      rw [found] at drawn
      simp only [enter, reseeded, drawn]
      cases picked <;> rfl
  | case7 s index condition body held ih =>
      have met : condition.holds (s.reseeded random).memory = true := held
      rw [enter, if_pos met, ih (has.part List.mem_cons_self)]
  | case8 s index condition body failed =>
      have unmet : ¬condition.holds (s.reseeded random).memory = true := failed
      rw [enter, if_neg unmet]
      rfl
  | case9 s index action body effect step ih =>
      exact congrArg (fun step : Step => { step with events := effect.events ++ step.events })
        (ih (has.part List.mem_cons_self))
  | case10 s index action effect => rfl

variable (plays : s.Plays script)
include plays

theorem step_reseeded : (s.reseeded random).step = s.step.reseeded random := by
  match stack : s.stack with
  | [] => simp only [step, reseeded, Step.reseeded, stack]
  | ⟨.options header marks items, cursor⟩ :: below =>
      rw [step_of_list stack, step_of_list (s := s.reseeded random) stack, present_reseeded]
  | ⟨.document cells, cursor⟩ :: below
  | ⟨.block name cells, cursor⟩ :: below
  | ⟨.content cells, cursor⟩ :: below =>
      have there := (stack ▸ plays.stacked).hasPlace
      simp only [step, reseeded, stack, Place.cells]
      cases entered : cells[cursor]? with
      | some cell =>
          exact enter_reseeded (s := { s with stack := _ :: below }) steady random
            (there.has (List.mem_of_getElem? entered))
      | none => cases below <;> rfl

theorem next_reseeded (allowance : Nat) :
    (s.reseeded random).next allowance = (s.next allowance).reseeded random := by
  induction allowance generalizing s with
  | zero => rfl
  | succ allowance ih =>
      simp only [next, step_reseeded steady random plays, Step.reseeded]
      cases s.step.flow with
      | proceed => simp only [ih plays.step, Outcome.reseeded]
      | beat beat | finished | failed fault => rfl

end

theorem choose_reseeded (s : Session) (random : UInt32) (index : Nat) :
    (s.reseeded random).choose index = (s.choose index).reseeded random := by
  match stack : s.stack with
  | ⟨.options header marks items, cursor⟩ :: below =>
      have offer := (Prod.eta (Choice.offer s.memory items)).symm
      rw [choose_of_offer stack offer, choose_of_offer (s := s.reseeded random) stack offer]
      cases (Choice.offer s.memory items).1[index]? <;> rfl
  | []
  | ⟨.document cells, cursor⟩ :: below
  | ⟨.block name cells, cursor⟩ :: below
  | ⟨.content cells, cursor⟩ :: below => simp only [choose, reseeded, Outcome.reseeded, stack]

theorem orRefuse_start_reseeded (s : Session) (random : UInt32) (block : Option String) :
    (s.reseeded random).orRefuse ((s.reseeded random).start block) =
      (s.orRefuse (s.start block)).reseeded random := by
  cases block with
  | none => rfl
  | some name =>
      simp only [start, reseeded]
      cases s.script.block? name <;> rfl

/-- The requests that bring data from elsewhere. -/
def Operation.loads : Operation → Bool
  | load _ | read _ => true
  | _ => false

/-- The requests that save. -/
def Operation.saves : Operation → Bool
  | data => true
  | _ => false

theorem perform_reseeded {script : Script} (steady : script.Steady) {s : Session}
    (plays : s.Plays script) (random : UInt32) {op : Operation} (inside : op.loads = false)
    (silent : op.saves = false) :
    (s.reseeded random).perform op = (s.perform op).reseeded random := by
  cases op with
  | next allowance =>
      simp only [perform, next_reseeded steady random plays]
      rfl
  | choose index =>
      simp only [perform, choose_reseeded]
      rfl
  | start block => exact orRefuse_start_reseeded s random block
  | set name value | get name | clear | translate dictionary | on kind => rfl
  | load data | read text => cases inside
  | data => cases silent
  | off id =>
      simp only [perform, off, reseeded]
      cases s.listeners.off? id <;> rfl

/-- Without variations of a shuffle mode only data from elsewhere changes the random state. -/
theorem random_perform {script : Script} (steady : script.Steady) {s : Session}
    (plays : s.Plays script) {op : Operation} (inside : op.loads = false) :
    (s.perform op).session.random = s.random := by
  cases saves : op.saves with
  | true =>
      cases op with
      | data => rfl
      | _ => cases saves
  | false =>
      exact congrArg (fun out => out.session.random)
        (perform_reseeded steady plays s.random inside saves)

end Session

/-! What is the same at every seed. -/

/-- A memory without an entry for a random state. -/
def Memory.seedless (m : Memory) : Memory :=
  { m with internal := m.internal.erase Session.randomState }

namespace Memory

theorem seedless_overlay (m : Memory) (entry : Option Datum) :
    (m.overlay entry).seedless = m.seedless := by
  cases entry with
  | none => rfl
  | some datum =>
      simp only [overlay, seedless, note, mk.injEq, true_and]
      apply Std.ExtTreeMap.ext_getElem?
      intro key
      simp only [Std.ExtTreeMap.getElem?_erase, Std.ExtTreeMap.getElem?_insert]
      split <;> rfl

theorem overlay_seedless (m : Memory) :
    m.seedless.overlay m.internal[Session.randomState]? = m := by
  obtain ⟨access, values, internal⟩ := m
  cases entry : internal[Session.randomState]? with
  | none =>
      simp only [overlay, seedless, mk.injEq, true_and]
      apply Std.ExtTreeMap.ext_getElem?
      intro key
      simp only [Std.ExtTreeMap.getElem?_erase, Std.compare_eq_iff_eq]
      split
      · next same => rw [← same, entry]
      · rfl
  | some datum =>
      simp only [overlay, seedless, note, mk.injEq, true_and]
      apply Std.ExtTreeMap.ext_getElem?
      intro key
      simp only [Std.ExtTreeMap.getElem?_erase, Std.ExtTreeMap.getElem?_insert,
        Std.compare_eq_iff_eq]
      split
      · next same => rw [← same, entry]
      · rfl

theorem seedless_seedless (m : Memory) : m.seedless.seedless = m.seedless := by
  have same := seedless_overlay m.seedless m.internal[Session.randomState]?
  rw [overlay_seedless] at same
  exact same.symm

end Memory

namespace Session

/-- A session at a fixed random state. -/
def seedless (s : Session) : Session := { s with memory := s.memory.seedless, random := 0 }

def Operation.seedless : Operation → Operation
  | load saved => load saved.seedless
  | read text =>
      match Memory.read? text with
      | some saved => load saved.seedless
      | none => read text
  | op => op

def Answer.seedless : Answer → Answer
  | .memory saved => .memory saved.seedless
  | answer => answer

/-- A report without the random state in what was saved. -/
def Report.seedless (report : Report) : Report := { report with answer := report.answer.seedless }

def Outcome.seedless (out : Outcome Answer) : Outcome Answer :=
  ⟨out.result.seedless, out.session.seedless, out.events⟩

theorem overlay_seedless (s : Session) :
    (s.seedless.reseeded s.random).overlay s.memory.internal[randomState]? s.listeners = s := by
  have kept := s.memory.overlay_seedless
  simp only [overlay, reseeded, seedless, kept]

theorem seedless_overlay (s : Session) (random : UInt32) (entry : Option Datum) :
    ((s.reseeded random).overlay entry s.listeners).seedless = s.seedless := by
  have kept := s.memory.seedless_overlay entry
  simp only [overlay, reseeded, seedless, kept]

/-- But for the random state, what is saved is what is remembered. -/
theorem seedless_data (s : Session) : s.data.seedless = s.memory.seedless :=
  s.memory.seedless_overlay (some (.count (Int64.ofNat s.random.toNat)))

theorem seedless_seedless (s : Session) : s.seedless.seedless = s.seedless := by
  have kept := s.memory.seedless_seedless
  simp only [seedless, kept]

/-- Data that are loaded leave nothing of what was remembered, and but for the random state they
leave what they hold. -/
theorem seedless_load (s : Session) (saved : Memory) :
    (s.seedless.load saved.seedless).seedless = (s.load saved).seedless := by
  have kept := saved.seedless_seedless
  simp only [load, seedless, kept]

theorem Plays.seedless {script : Script} {s : Session} (plays : s.Plays script) :
    s.seedless.Plays script :=
  ⟨plays.script_eq, plays.stacked⟩

/-- A request that neither saves nor loads nor registers anybody. -/
theorem perform_seedless_of_plain {script : Script} (steady : script.Steady) {s : Session}
    (plays : s.Plays script) {op : Operation} (inside : op.loads = false)
    (silent : op.saves = false) (keeps : op.registers = false) :
    (s.seedless.perform op).seedless = (s.perform op).seedless := by
  obtain ⟨left, same⟩ := perform_overlay (s.seedless.reseeded s.random)
    s.memory.internal[randomState]? s.listeners keeps
  rw [overlay_seedless, perform_reseeded steady plays.seedless s.random inside silent] at same
  have kept : (s.seedless.perform op).session.listeners = s.listeners :=
    listeners_perform s.seedless keeps
  have left := seedless_overlay (s.seedless.perform op).session s.random left
  rw [kept] at left
  rw [same]
  simp only [Outcome.seedless, Outcome.overlay, Outcome.reseeded, left]

/-- A request comes to the same at every random state, but for the random state in what is saved. -/
theorem perform_seedless {script : Script} (steady : script.Steady) {s : Session}
    (plays : s.Plays script) (op : Operation) :
    (s.seedless.perform op.seedless).seedless = (s.perform op).seedless := by
  have again := s.seedless_seedless
  cases op with
  | next allowance | choose index | start block | set name value | get name | clear
  | translate dictionary => exact perform_seedless_of_plain steady plays rfl rfl rfl
  | data =>
      have saved : s.seedless.data.seedless = s.data.seedless := by
        rw [s.seedless.seedless_data, s.seedless_data]
        exact s.memory.seedless_seedless
      simp only [Operation.seedless, perform, Outcome.seedless, Answer.seedless, saved, again]
  | load saved =>
      have loaded := s.seedless_load saved
      simp only [Operation.seedless, perform, Outcome.seedless, loaded]
  | read text =>
      cases found : Memory.read? text with
      | some saved =>
          have loaded := s.seedless_load saved
          simp only [Operation.seedless, found, perform, Outcome.seedless, loaded]
      | none => simp only [Operation.seedless, found, perform, Outcome.seedless, again]
  | on kind =>
      have kept := s.memory.seedless_seedless
      simp only [Operation.seedless, perform, Outcome.seedless, on, seedless, kept]
  | off id =>
      have kept := s.memory.seedless_seedless
      simp only [Operation.seedless, perform, off, seedless]
      cases s.listeners.off? id with
      | none | some listeners => simp only [orRefuse, Outcome.seedless, seedless, kept]

theorem run_seedless {script : Script} (steady : script.Steady) {s t : Session}
    (plays : s.Plays script) (also : t.Plays script) (same : t.seedless = s.seedless)
    {ops others : List Operation}
    (alike : others.map Operation.seedless = ops.map Operation.seedless) :
    (t.run others).1.map Report.seedless = (s.run ops).1.map Report.seedless ∧
      (t.run others).2.seedless = (s.run ops).2.seedless := by
  induction ops generalizing s t others with
  | nil =>
      obtain rfl := List.map_eq_nil_iff.1 alike
      exact ⟨rfl, same⟩
  | cons op rest ih =>
      obtain ⟨other, more, rfl, first, later⟩ := List.map_eq_cons_iff.1 alike
      have performed : (t.perform other).seedless = (s.perform op).seedless := by
        rw [← perform_seedless steady also, ← perform_seedless steady plays, same, first]
      have session : (t.perform other).session.seedless = (s.perform op).session.seedless :=
        congrArg Outcome.session performed
      have listeners : t.seedless.listeners = s.seedless.listeners :=
        congrArg (fun left : Session => left.listeners) same
      simp only [seedless] at listeners
      have report : ((t.perform other).report t.listeners).seedless =
          ((s.perform op).report s.listeners).seedless := by
        rw [listeners]
        exact congrArg (fun out : Outcome Answer => out.report s.listeners) performed
      obtain ⟨reports, left⟩ := ih (plays.perform op) (also.perform other) session later
      simp only [run_cons, List.map_cons]
      exact ⟨List.cons_eq_cons.2 ⟨report, reports⟩, left⟩

theorem seedless_ofScript (script : Script) (seed other : UInt32)
    (dictionary : Std.ExtTreeMap String String) (saved : Option Memory) :
    (ofScript script other dictionary saved).seedless =
      (ofScript script seed dictionary saved).seedless := by
  cases saved <;> rfl

/-- The seed matters to shuffles only. Over a document without variations of a shuffle mode,
sessions that are made alike but for their seeds answer whatever is asked of both alike, announce
the same events to the same listeners, and save the same, but for the random state in what they
save. That also holds where each is given back what it saved itself. No request changes the random
state, unless it loads data. -/
theorem run_reseeded (d : Document) (steady : d.shuffles = false) (seed other : UInt32)
    (dictionary : Std.ExtTreeMap String String) (saved : Option Memory)
    (ops others : List Operation)
    (alike : others.map Operation.seedless = ops.map Operation.seedless) :
    let s := ofScript (Script.ofDocument d) seed dictionary saved
    let t := ofScript (Script.ofDocument d) other dictionary saved
    (t.run others).1.map Report.seedless = (s.run ops).1.map Report.seedless ∧
      (t.run others).2.data.seedless = (s.run ops).2.data.seedless ∧
      ∀ op : Operation, op.loads = false →
        ((s.run ops).2.perform op).session.random = (s.run ops).2.random := by
  intro s t
  have unmoved := Script.steady_ofDocument steady
  have plays : s.Plays (Script.ofDocument d) := plays_ofScript _ seed dictionary saved
  have also : t.Plays (Script.ofDocument d) := plays_ofScript _ other dictionary saved
  obtain ⟨reports, left⟩ := run_seedless unmoved plays also
    (seedless_ofScript _ seed other dictionary saved) alike
  refine ⟨reports, ?_, fun op inside => random_perform unmoved (plays.run ops) inside⟩
  rw [seedless_data, seedless_data]
  exact congrArg Session.memory left

/-- Lines that change from visit to visit, in their order. -/
def lantern : Document where
  content := [.line "Look" {}, .variations .cycle [[.line "On" {}], [.line "Off" {}]],
    .options none {} [.option "Again" .sticky {} [.divert "<parent>"], .option "Go" .once {} []]]

/-- Each of two sessions is given back data with its own random state. -/
theorem run_reseeded_lantern :
    let s := ofScript (Script.ofDocument lantern) 1
    let t := ofScript (Script.ofDocument lantern) 2
    let asked (saved : Memory) : List Operation := [.next 1, .data, .load saved, .next 4, .choose 0]
    let ops := asked s.data
    let others := asked t.data
    lantern.shuffles = false ∧ others.map Operation.seedless = ops.map Operation.seedless ∧
      t.data.count? randomState ≠ s.data.count? randomState ∧
      (t.run others).1.map Report.seedless = (s.run ops).1.map Report.seedless ∧
      (t.run others).2.data.seedless = (s.run ops).2.data.seedless ∧
      ((s.run ops).2.perform (.next 9)).session.random = (s.run ops).2.random := by
  intro s t asked ops others
  have steady : lantern.shuffles = false := by decide
  have saved : t.data.seedless = s.data.seedless := by
    rw [seedless_data, seedless_data]
    rfl
  have alike : others.map Operation.seedless = ops.map Operation.seedless := by
    simp only [others, ops, asked, List.map_cons, List.map_nil, Operation.seedless, saved]
  have apart : t.data.count? randomState ≠ s.data.count? randomState := by
    rw [data, data, Memory.count?_note_self, Memory.count?_note_self]
    decide
  obtain ⟨reports, left, kept⟩ := run_reseeded lantern steady 1 2 ∅ none ops others alike
  exact ⟨steady, alike, apart, reports, left, kept (.next 9) rfl⟩

end Session
end Dialogue
