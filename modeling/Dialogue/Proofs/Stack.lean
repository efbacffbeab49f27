import Dialogue.Proofs.Arena
import Dialogue.Proofs.Options

/-! The stack of a session. The lowest place is the document or a block, the others are blocks,
content and lists of options, and what stands directly on a list is the content of one of its
options. Every request keeps this, so it holds after every run, also where requests are refused or
break off. In the arena of a document each place of the stack has a position. -/
namespace Dialogue

/-- The cells that a cell holds. -/
def Cell.parts : Cell → List Cell
  | content _ cells | options _ _ _ cells | option _ _ _ _ cells | variations _ _ cells => cells
  | conditional _ _ body | acting _ _ body => [body]
  | line .. | divert .. | act .. => []

namespace Place

/-- Whether a dialogue can start at a place. -/
def isStart : Place → Bool
  | document _ | block .. => true
  | content _ | options .. => false

def isDocument : Place → Bool
  | document _ => true
  | _ => false

/-- Whether a place can stand directly on another: on a list, the content of one of its options. -/
def Carries : Place → Place → Prop
  | options _ _ items, above =>
      ∃ item ∈ items, ∃ choice : Choice, item.core = choice.cell ∧ above = .content choice.content
  | _, _ => True

theorem carries_of_walked {place : Place} (walked : place.isList = false) (above : Place) :
    place.Carries above := by
  cases place with
  | options name marks items => cases walked
  | document cells | block name cells | content cells => exact trivial

end Place

namespace Script

/-- The cells of a script: what its content and the blocks of its names hold, at any depth. -/
inductive Has (script : Script) : Cell → Prop
  | content {cell : Cell} (member : cell ∈ script.content) : Has script cell
  | block {name : String} {block : Block} {cell : Cell} (found : script.block? name = some block)
      (member : cell ∈ block.cells) : Has script cell
  | part {whole cell : Cell} (has : Has script whole) (member : cell ∈ whole.parts) :
      Has script cell

/-- The places of a script. -/
inductive HasPlace (script : Script) : Place → Prop
  | document : HasPlace script (.document script.content)
  | block {name : String} {block : Block} (found : script.block? name = some block) :
      HasPlace script (.block name block.cells)
  | content {index : UInt64} {cells : List Cell} (has : script.Has (.content index cells)) :
      HasPlace script (.content cells)
  | options {index : UInt64} {name : Option String} {marks : Marks} {items : List Cell}
      (has : script.Has (.options index name marks items)) :
      HasPlace script (.options name marks items)
  | option {choice : Choice} (has : script.Has choice.cell) :
      HasPlace script (.content choice.content)
  | alternative {index : UInt64} {mode : VariationMode} {alternatives : List Cell}
      {alternative : Cell} (has : script.Has (.variations index mode alternatives))
      (member : alternative ∈ alternatives) : HasPlace script (.content alternative.children)

variable {script : Script}

theorem Has.core {cell : Cell} (has : script.Has cell) : script.Has cell.core := by
  fun_induction Cell.core cell with
  | case1 index condition body ih => exact ih (has.part List.mem_cons_self)
  | case2 index action body ih => exact ih (has.part List.mem_cons_self)
  | case3 => exact has

theorem HasPlace.has {place : Place} (there : script.HasPlace place) {cell : Cell}
    (member : cell ∈ place.cells) : script.Has cell := by
  cases there with
  | document => exact .content member
  | block found => exact .block found member
  | content has | option has => exact has.part member
  | options has => cases member
  | @alternative index mode alternatives alternative has inside =>
      have held := has.part inside
      cases alternative with
      | content index cells => exact held.part member
      | _ => cases member

theorem HasPlace.has_item {name : Option String} {marks : Marks} {items : List Cell}
    (there : script.HasPlace (.options name marks items)) {item : Cell} (member : item ∈ items) :
    script.Has item := by
  cases there with
  | options has => exact has.part member

end Script

/-- The stacks of a script. The lowest place stays when it has been walked through, with a cursor
past its end. -/
inductive Stacked (script : Script) : List Frame → Prop
  | lowest {place : Place} {cursor : Nat} (there : script.HasPlace place)
      (start : place.isStart = true) (bound : cursor ≤ place.cells.length + 1) :
      Stacked script [⟨place, cursor⟩]
  | above {place : Place} {cursor : Nat} {next : Frame} {below : List Frame}
      (there : script.HasPlace place) (inner : place.isDocument = false)
      (bound : cursor ≤ place.cells.length) (carried : next.place.Carries place)
      (rest : Stacked script (next :: below)) :
      Stacked script (⟨place, cursor⟩ :: next :: below)

namespace Stacked

variable {script : Script}

theorem hasPlace {frame : Frame} {below : List Frame} (stacked : Stacked script (frame :: below)) :
    script.HasPlace frame.place := by
  cases stacked with
  | lowest there | above there => exact there

theorem tail {frame next : Frame} {below : List Frame}
    (stacked : Stacked script (frame :: next :: below)) : Stacked script (next :: below) := by
  cases stacked with
  | above there inner bound carried rest => exact rest

/-- A list of options is never the lowest place. -/
theorem of_list {frame : Frame} {below : List Frame} (stacked : Stacked script (frame :: below))
    (list : frame.place.isList = true) : Stacked script below := by
  cases stacked with
  | @lowest place cursor there start bound => cases place <;> simp_all [Place.isList, Place.isStart]
  | above there inner bound carried rest => exact rest

theorem push {frames : List Frame} {place : Place} (stacked : Stacked script frames)
    (there : script.HasPlace place) (inner : place.isDocument = false)
    (carried : ∀ top ∈ frames.head?, top.place.Carries place) :
    Stacked script (⟨place, 0⟩ :: frames) := by
  cases frames with
  | nil => cases stacked
  | cons top below => exact .above there inner (Nat.zero_le _) (carried top rfl) stacked

theorem advance {frame : Frame} {below : List Frame} {cell : Cell}
    (stacked : Stacked script (frame :: below))
    (entered : frame.place.cells[frame.cursor]? = some cell) :
    Stacked script ({ frame with cursor := frame.cursor + 1 } :: below) := by
  have inside : frame.cursor < frame.place.cells.length := (List.getElem?_eq_some_iff.1 entered).1
  cases stacked with
  | lowest there start bound => exact .lowest there start (Nat.le_succ_of_le inside)
  | above there inner bound carried rest => exact .above there inner inside carried rest

theorem leave {frames : List Frame} (stacked : Stacked script frames) :
    Stacked script (Session.leave frames) := by
  fun_induction Session.leave frames with
  | case1 => exact stacked
  | case2 frame => exact stacked
  | case3 frame below more anchor =>
      obtain ⟨next, rest, rfl⟩ := List.exists_cons_of_ne_nil more
      exact stacked.tail
  | case4 frame below more inside ih =>
      obtain ⟨next, rest, rfl⟩ := List.exists_cons_of_ne_nil more
      exact ih stacked.tail

/-- Only the lowest place is one to start at, and only its cursor can be past its end. -/
theorem split {frames : List Frame} (stacked : Stacked script frames) :
    ∃ upper lowest, frames = upper ++ [lowest] ∧ lowest.place.isStart = true ∧
      lowest.cursor ≤ lowest.place.cells.length + 1 ∧
      ∀ frame ∈ upper, frame.place.isDocument = false ∧
        frame.cursor ≤ frame.place.cells.length := by
  induction stacked with
  | @lowest place cursor there start bound => exact ⟨[], ⟨place, cursor⟩, rfl, start, bound, nofun⟩
  | @above place cursor next below there inner bound carried rest ih =>
      obtain ⟨upper, lowest, split, start, ended, others⟩ := ih
      refine ⟨⟨place, cursor⟩ :: upper, lowest, by rw [split, List.cons_append], start, ended, ?_⟩
      exact List.forall_mem_cons.2 ⟨⟨inner, bound⟩, others⟩

end Stacked

namespace Session

/-- A session at a stack of a script. -/
structure Plays (script : Script) (s : Session) : Prop where
  script_eq : s.script = script
  stacked : Stacked script s.stack

variable {script : Script} {s : Session}

theorem Plays.select (plays : s.Plays script) {header : Option String} {marks : Marks}
    {items : List Cell} {cursor : Nat} {below : List Frame}
    (stack : s.stack = ⟨.options header marks items, cursor⟩ :: below) {choice : Choice}
    (member : choice ∈ (Choice.offer s.memory items).1) (memory : Memory) :
    ({ s with memory := memory }.select choice).1.Plays script := by
  have stacked := plays.stacked
  have shown := (Choice.map_cell_offer s.memory items).subset (List.mem_map_of_mem member)
  obtain ⟨item, inside, core⟩ := List.mem_map.1 shown
  have there : script.HasPlace (.content choice.content) := by
    rw [stack] at stacked
    have held := (stacked.hasPlace.has_item inside).core
    rw [core] at held
    exact .option held
  refine ⟨plays.script_eq, stacked.push there rfl ?_⟩
  intro top here
  rw [stack] at here
  obtain rfl := Option.some.inj here
  exact ⟨item, inside, choice, core, rfl⟩

theorem Plays.present (plays : s.Plays script) {header : Option String} {marks : Marks}
    {items : List Cell} {cursor : Nat} {below : List Frame}
    (stack : s.stack = ⟨.options header marks items, cursor⟩ :: below) :
    (s.present header marks items).session.Plays script := by
  have chosen : ∀ choice ∈ (Choice.offer s.memory items).1, ∀ memory,
      ({ s with memory := memory }.select choice).1.Plays script :=
    fun _ member memory => plays.select stack member memory
  have left : Stacked script s.stack.tail := by
    have stacked := plays.stacked
    rw [stack] at stacked ⊢
    exact stacked.of_list rfl
  unfold Session.present
  generalize Choice.offer s.memory items = offered at chosen ⊢
  obtain ⟨visible, memory⟩ := offered
  match visible with
  | [] => exact ⟨plays.script_eq, left⟩
  | [only] =>
      by_cases fallback : (only.mode == .fallback) = true
      · simp only [fallback, if_true]
        exact chosen only List.mem_cons_self memory
      · simp only [fallback]
        exact ⟨plays.script_eq, plays.stacked⟩
  | first :: second :: rest => exact ⟨plays.script_eq, plays.stacked⟩

/-- A place can be entered on top of one that is no list. -/
theorem Plays.push (plays : s.Plays script)
    (walked : ∀ top ∈ s.stack.head?, top.place.isList = false) {place : Place}
    (there : script.HasPlace place) (inner : place.isDocument = false) :
    (s.push place).Plays script :=
  ⟨plays.script_eq,
    plays.stacked.push there inner fun top here => Place.carries_of_walked (walked top here) place⟩

theorem Plays.divert (plays : s.Plays script)
    (walked : ∀ top ∈ s.stack.head?, top.place.isList = false) (target : String) :
    (s.divert target).session.Plays script := by
  have same := plays.script_eq
  unfold Session.divert
  split
  · exact ⟨same, plays.stacked.leave⟩
  · rw [same]
    exact ⟨rfl, .lowest .document rfl (Nat.le_refl _)⟩
  · rw [same]
    split
    · exact plays.push walked (.block ‹_›) rfl
    · exact plays

theorem Plays.enter (plays : s.Plays script)
    (walked : ∀ top ∈ s.stack.head?, top.place.isList = false) {cell : Cell}
    (has : script.Has cell) : (s.enter cell).session.Plays script := by
  fun_induction Session.enter s cell with
  | case1 s index text marks => exact plays
  | case2 s index cells => exact plays.push walked (.content has) rfl
  | case3 s index name marks items => exact (plays.push walked (.options has) rfl).present rfl
  | case4 s => exact plays
  | case5 s index target => exact plays.divert walked target
  | case6 s index mode alternatives picked memory random found =>
      have drawn : (Variation.pick index mode alternatives alternatives.length s.memory
        s.random).1 = picked := by rw [found]
      have kept : ({ s with memory := memory, random := random } : Session).Plays script :=
        ⟨plays.script_eq, plays.stacked⟩
      cases picked with
      | none => exact kept
      | some alternative =>
          exact kept.push walked (.alternative has (Variation.mem_of_pick drawn)) rfl
  | case7 s index condition body held ih => exact ih plays walked (has.part List.mem_cons_self)
  | case8 s index condition body failed => exact plays
  | case9 s index action body effect step ih =>
      exact ih ⟨plays.script_eq, plays.stacked⟩ walked (has.part List.mem_cons_self)
  | case10 s index action effect => exact ⟨plays.script_eq, plays.stacked⟩

theorem Plays.step_of_walked (plays : s.Plays script) {frame : Frame} {below : List Frame}
    (stack : s.stack = frame :: below) (walked : frame.place.isList = false) :
    s.step.session.Plays script := by
  have stacked := plays.stacked
  rw [stack] at stacked
  cases entered : frame.place.cells[frame.cursor]? with
  | some cell =>
      rw [step_of_cell stack entered]
      have advanced : ({ s with stack := { frame with cursor := frame.cursor + 1 } :: below } :
          Session).Plays script := ⟨plays.script_eq, stacked.advance entered⟩
      refine advanced.enter ?_ (stacked.hasPlace.has (List.mem_of_getElem? entered))
      intro top here
      obtain rfl := Option.some.inj here
      exact walked
  | none =>
      cases below with
      | nil =>
          rw [step_of_last stack walked entered]
          cases stacked with
          | lowest there start bound =>
              exact ⟨plays.script_eq, .lowest there start (Nat.le_refl _)⟩
      | cons next below =>
          rw [step_of_end stack walked entered]
          exact ⟨plays.script_eq, stacked.tail⟩

theorem Plays.step (plays : s.Plays script) : s.step.session.Plays script := by
  match stack : s.stack with
  | [] =>
      have stacked := plays.stacked
      rw [stack] at stacked
      cases stacked
  | ⟨.options header marks items, cursor⟩ :: below =>
      rw [step_of_list stack]
      exact plays.present stack
  | ⟨.document cells, cursor⟩ :: below
  | ⟨.block name cells, cursor⟩ :: below
  | ⟨.content cells, cursor⟩ :: below => exact plays.step_of_walked stack rfl

theorem Plays.next (plays : s.Plays script) (allowance : Nat) :
    (s.next allowance).session.Plays script := by
  induction allowance generalizing s with
  | zero => exact plays
  | succ allowance ih =>
      have first := plays.step
      cases flow : s.step.flow with
      | proceed =>
          simp only [Session.next, flow]
          exact ih first
      | beat beat | finished | failed fault => simpa only [Session.next, flow] using first

theorem Plays.choose (plays : s.Plays script) (index : Nat) :
    (s.choose index).session.Plays script := by
  match stack : s.stack with
  | ⟨.options header marks items, cursor⟩ :: below =>
      rw [choose_of_offer stack (Prod.eta (Choice.offer s.memory items)).symm]
      cases found : (Choice.offer s.memory items).1[index]? with
      | none => exact ⟨plays.script_eq, plays.stacked⟩
      | some choice => exact plays.select stack (List.mem_of_getElem? found) _
  | []
  | ⟨.document cells, cursor⟩ :: below
  | ⟨.block name cells, cursor⟩ :: below
  | ⟨.content cells, cursor⟩ :: below =>
      simp only [Session.choose, stack]
      exact plays

theorem Plays.start (plays : s.Plays script) (block : Option String) :
    (s.perform (.start block)).session.Plays script := by
  have same := plays.script_eq
  cases block with
  | none =>
      simp only [Session.perform, Session.start, same]
      exact ⟨rfl, .lowest .document rfl (Nat.zero_le _)⟩
  | some name =>
      simp only [Session.perform, Session.start, same]
      cases found : script.block? name with
      | none => exact plays
      | some block => exact ⟨rfl, .lowest (.block found) rfl (Nat.zero_le _)⟩

theorem Plays.perform (plays : s.Plays script) (op : Operation) :
    (s.perform op).session.Plays script := by
  have kept := plays.stacked
  have same := plays.script_eq
  cases op with
  | next allowance => exact plays.next allowance
  | choose index => exact plays.choose index
  | start block => exact plays.start block
  | set name value | get name | data | load data | clear | translate dictionary | on kind =>
      exact ⟨same, kept⟩
  | read text =>
      simp only [Session.perform]
      cases Memory.read? text <;> exact ⟨same, kept⟩
  | off id =>
      simp only [Session.perform, Session.off]
      cases s.listeners.off? id <;> exact ⟨same, kept⟩

theorem Plays.run (plays : s.Plays script) (ops : List Operation) :
    (s.run ops).2.Plays script := by
  induction ops generalizing s with
  | nil => exact plays
  | cons op rest ih => exact ih (plays.perform op)

theorem plays_ofScript (script : Script) (random : UInt32)
    (dictionary : Std.ExtTreeMap String String) (data : Option Memory) :
    (ofScript script random dictionary data).Plays script := by
  cases data <;> exact ⟨rfl, .lowest .document rfl (Nat.zero_le _)⟩

end Session

/-! Positions. -/

/-- The nodes that a node holds, with its alternatives as content. -/
def Node.parts : Node → List Node
  | content nodes | options _ _ nodes | option _ _ _ nodes => nodes
  | variations _ alternatives => alternatives.map content
  | conditional _ body | acting _ body => [body]
  | line .. | divert _ | act _ => []

namespace Cell

theorem mem_ofNodes {number : Nat → UInt64} {position : Nat} {nodes : List Node} {cell : Cell}
    (member : cell ∈ ofNodes number position nodes) :
    ∃ index, ∃ node ∈ nodes, cell = ofNode index node := by
  induction nodes generalizing position with
  | nil => cases member
  | cons node rest ih =>
      rcases List.mem_cons.1 member with rfl | later
      · exact ⟨_, node, List.mem_cons_self, rfl⟩
      · obtain ⟨index, source, inside, same⟩ := ih later
        exact ⟨index, source, List.mem_cons_of_mem node inside, same⟩

theorem mem_parts_ofNode {index : UInt64} {node : Node} {cell : Cell}
    (member : cell ∈ (ofNode index node).parts) :
    ∃ number, ∃ part ∈ node.parts, cell = ofNode number part := by
  cases node with
  | content nodes | options name marks nodes | option name mode marks nodes =>
      exact mem_ofNodes member
  | variations mode alternatives =>
      simp only [ofNode, parts, ofAlternatives_eq] at member
      exact mem_ofNodes member
  | conditional condition body | acting action body =>
      exact ⟨index, body, List.mem_singleton_self body, List.mem_singleton.1 member⟩
  | line text marks | divert target | act action => cases member

end Cell

namespace Script

variable {d : Document}

theorem ofNodes_of_mem_ofBlocks {position : Nat} {blocks : List Dialogue.Block} {block : Block}
    (member : block ∈ ofBlocks position blocks) :
    ∃ number, ∃ source ∈ blocks, block.cells = Cell.ofNodes number 0 source.content := by
  induction blocks generalizing position with
  | nil => cases member
  | cons source rest ih =>
      rcases List.mem_cons.1 member with rfl | later
      · exact ⟨_, source, List.mem_cons_self, rfl⟩
      · obtain ⟨number, found, inside, cells⟩ := ih later
        exact ⟨number, found, List.mem_cons_of_mem source inside, cells⟩

/-- What passes from the nodes of a document to the parts of nodes holds of a node for each cell. -/
theorem node_of_has {P : Node → Prop} (content : ∀ node ∈ d.content, P node)
    (blocks : ∀ block ∈ d.blocks, ∀ node ∈ block.content, P node)
    (parts : ∀ node, P node → ∀ part ∈ node.parts, P part) {cell : Cell}
    (has : (ofDocument d).Has cell) : ∃ index node, cell = .ofNode index node ∧ P node := by
  induction has with
  | content member =>
      obtain ⟨index, node, inside, rfl⟩ := Cell.mem_ofNodes member
      exact ⟨index, node, rfl, content node inside⟩
  | @block name block cell found member =>
      have declared := List.mem_reverse.1 (List.mem_of_find?_eq_some found)
      obtain ⟨number, source, written, cells⟩ := ofNodes_of_mem_ofBlocks declared
      rw [cells] at member
      obtain ⟨index, node, inside, rfl⟩ := Cell.mem_ofNodes member
      exact ⟨index, node, rfl, blocks source written node inside⟩
  | part has member ih =>
      obtain ⟨index, node, rfl, held⟩ := ih
      obtain ⟨number, part, inside, rfl⟩ := Cell.mem_parts_ofNode member
      exact ⟨number, part, rfl, parts node held part inside⟩

theorem ofNode_of_has {cell : Cell} (has : (ofDocument d).Has cell) :
    ∃ index node, cell = .ofNode index node := by
  obtain ⟨index, node, same, -⟩ := node_of_has (P := fun _ => True) (fun _ _ => trivial)
    (fun _ _ _ _ => trivial) (fun _ _ _ _ => trivial) has
  exact ⟨index, node, same⟩

/-- Alternatives are content. -/
theorem content_of_alternative {index : UInt64} {mode : VariationMode} {alternatives : List Cell}
    {alternative : Cell} (has : (ofDocument d).Has (.variations index mode alternatives))
    (member : alternative ∈ alternatives) : ∃ index cells, alternative = .content index cells := by
  obtain ⟨number, node, same⟩ := ofNode_of_has has
  cases node with
  | variations mode sources =>
      obtain ⟨rfl, rfl, rfl⟩ := Cell.variations.inj same
      rw [Cell.ofAlternatives_eq] at member
      obtain ⟨index, node, source, rfl⟩ := Cell.mem_ofNodes member
      obtain ⟨nodes, -, rfl⟩ := List.mem_map.1 source
      exact ⟨index, _, rfl⟩
  | _ => cases same

end Script

namespace Arena

/-- The place at a position. -/
def place? (arena : Arena) (id : Nat) : Option Place := do
  match ← arena.kind? id with
  | .document ids => return .document (← ids.mapM arena.cell?)
  | .block name ids => return .block name (← ids.mapM arena.cell?)
  | .content ids => return .content (← ids.mapM arena.cell?)
  | .options name marks ids => return .options name marks (← ids.mapM arena.cell?)
  | _ => none

/-- Whether the option inside conditions and actions has its content at a position. -/
inductive Encloses (arena : Arena) : Nat → Nat → Prop
  | option {id content : Nat} {name : String} {mode : OptionMode} {marks : Marks}
      (entry : arena.kind? id = some (.option name mode marks content)) :
      Encloses arena id content
  | conditional {id body content : Nat} {condition : Expr}
      (entry : arena.kind? id = some (.conditional condition body))
      (inside : Encloses arena body content) : Encloses arena id content
  | acting {id body content : Nat} {action : Action}
      (entry : arena.kind? id = some (.acting action body))
      (inside : Encloses arena body content) : Encloses arena id content

/-- Whether a position is that of the content of one of the options, if another is that of a
list. -/
def Carries (arena : Arena) (below above : Nat) : Prop :=
  ∀ name marks items, arena.kind? below = some (.options name marks items) →
    ∃ item ∈ items, arena.Encloses item above

theorem Reads.exists_of_mem {table : Array Entry} {depth : Nat} {ids : List Nat}
    {cells : List Cell} (reads : Reads table depth ids cells) {cell : Cell}
    (member : cell ∈ cells) : ∃ id ∈ ids, read? table depth id = some cell := by
  induction reads with
  | nil => cases member
  | @cons id first ids cells read others ih =>
      rcases List.mem_cons.1 member with rfl | later
      · exact ⟨id, List.mem_cons_self, read⟩
      · obtain ⟨other, inside, found⟩ := ih later
        exact ⟨other, List.mem_cons_of_mem id inside, found⟩

section
variable {arena : Arena} {id : Nat}

theorem kind?_of_entry {index : UInt64} {kind : Kind}
    (entry : arena.table[id]? = some ⟨index, kind⟩) : arena.kind? id = some kind := by
  rw [kind?, entry]
  rfl

theorem lt_size_of_place? {place : Place} (found : arena.place? id = some place) :
    id < arena.table.size := by
  by_contra outside
  have missing : arena.table[id]? = none := Array.getElem?_eq_none (Nat.le_of_not_lt outside)
  simp [place?, kind?, missing] at found

theorem place?_of_content {index : UInt64} {cells : List Cell}
    (found : arena.cell? id = some (.content index cells)) :
    arena.place? id = some (.content cells) := by
  obtain ⟨kind, entry, holds⟩ := holds_of_cell? found
  cases holds with
  | content index below =>
      have read : List.mapM arena.cell? _ = some cells := mapM_eq_some_iff.2 below
      simp [place?, kind?_of_entry entry, read]

theorem place?_of_options {index : UInt64} {name : Option String} {marks : Marks}
    {items : List Cell} (found : arena.cell? id = some (.options index name marks items)) :
    arena.place? id = some (.options name marks items) := by
  obtain ⟨kind, entry, holds⟩ := holds_of_cell? found
  cases holds with
  | options index name marks below =>
      have read : List.mapM arena.cell? _ = some items := mapM_eq_some_iff.2 below
      simp [place?, kind?_of_entry entry, read]

theorem content_of_option {choice : Choice} (found : arena.cell? id = some choice.cell) :
    ∃ content, arena.Encloses id content ∧
      arena.cell? content = some (.content choice.index choice.content) := by
  obtain ⟨kind, entry, holds⟩ := holds_of_cell? found
  cases holds with
  | option index name mode marks below =>
      exact ⟨_, .option (kind?_of_entry entry), reads_singleton.1 below⟩

theorem content_of_core {item : Cell} (found : arena.cell? id = some item) {choice : Choice}
    (core : item.core = choice.cell) :
    ∃ content, arena.Encloses id content ∧
      arena.place? content = some (.content choice.content) := by
  fun_induction Cell.core item generalizing id with
  | case1 index condition body ih =>
      obtain ⟨kind, entry, holds⟩ := holds_of_cell? found
      cases holds with
      | conditional index condition below =>
          obtain ⟨content, inside, place⟩ := ih (reads_singleton.1 below) core
          exact ⟨content, .conditional (kind?_of_entry entry) inside, place⟩
  | case2 index action body ih =>
      obtain ⟨kind, entry, holds⟩ := holds_of_cell? found
      cases holds with
      | acting index action below =>
          obtain ⟨content, inside, place⟩ := ih (reads_singleton.1 below) core
          exact ⟨content, .acting (kind?_of_entry entry) inside, place⟩
  | case3 item bare other =>
      rw [core] at found
      obtain ⟨content, inside, read⟩ := content_of_option found
      exact ⟨content, inside, place?_of_content read⟩

theorem exists_cell?_of_mem_parts {whole cell : Cell} (found : arena.cell? id = some whole)
    (member : cell ∈ whole.parts) : ∃ id, arena.cell? id = some cell := by
  obtain ⟨kind, entry, holds⟩ := holds_of_cell? found
  cases holds with
  | content index below | options index name marks below | variations index mode below
  | conditional index condition below | acting index action below =>
      obtain ⟨id, -, read⟩ := below.exists_of_mem member
      exact ⟨id, read⟩
  | option index name mode marks below =>
      obtain ⟨kind, -, holds⟩ := holds_of_cell? (reads_singleton.1 below)
      cases holds with
      | content index below =>
          obtain ⟨id, -, read⟩ := below.exists_of_mem member
          exact ⟨id, read⟩
  | line index text marks | divert index target | act index action => cases member

end

section
variable {d : Document} {ids slots : List Nat} (copied : Copied d ids slots)
include copied

theorem Copied.exists_cell? {cell : Cell} (has : (Script.ofDocument d).Has cell) :
    ∃ id, (ofDocument d).cell? id = some cell := by
  induction has with
  | content member =>
      obtain ⟨id, -, read⟩ := copied.content.exists_of_mem member
      exact ⟨id, read⟩
  | @block name block cell found member =>
      obtain ⟨slot, -, ids, -, reads⟩ := copied.shows_of_block? found
      obtain ⟨id, -, read⟩ := reads.exists_of_mem member
      exact ⟨id, read⟩
  | part has member ih =>
      obtain ⟨id, found⟩ := ih
      exact exists_cell?_of_mem_parts found member

theorem Copied.exists_place? {place : Place} (there : (Script.ofDocument d).HasPlace place) :
    ∃ id, (ofDocument d).place? id = some place := by
  cases there with
  | document =>
      have read : ids.mapM (ofDocument d).cell? = some _ := mapM_eq_some_iff.2 copied.content
      exact ⟨0, by simp [place?, kind?_of_entry copied.document, read]⟩
  | @block name block found =>
      obtain ⟨slot, -, ids, entry, reads⟩ := copied.shows_of_block? found
      have named : block.name = name := by simpa using List.find?_some found
      have read : ids.mapM (ofDocument d).cell? = some _ := mapM_eq_some_iff.2 reads
      exact ⟨slot, by simp [place?, kind?_of_entry entry, read, named]⟩
  | content has =>
      obtain ⟨id, found⟩ := copied.exists_cell? has
      exact ⟨id, place?_of_content found⟩
  | options has =>
      obtain ⟨id, found⟩ := copied.exists_cell? has
      exact ⟨id, place?_of_options found⟩
  | option has =>
      obtain ⟨id, found⟩ := copied.exists_cell? has
      obtain ⟨content, -, read⟩ := content_of_option found
      exact ⟨content, place?_of_content read⟩
  | alternative has member =>
      obtain ⟨index, cells, rfl⟩ := Script.content_of_alternative has member
      obtain ⟨id, found⟩ := copied.exists_cell? (has.part member)
      exact ⟨id, place?_of_content found⟩

/-- What stands on a place has a position of its own, which fits that of the place. -/
theorem Copied.exists_above {below : Nat} {next place : Place}
    (found : (ofDocument d).place? below = some next) (carried : next.Carries place)
    (there : (Script.ofDocument d).HasPlace place) :
    ∃ id, (ofDocument d).place? id = some place ∧ (ofDocument d).Carries below id := by
  simp only [place?, Option.bind_eq_bind] at found
  obtain ⟨kind, entry, found⟩ := Option.bind_eq_some_iff.1 found
  cases kind with
  | options name marks items =>
      -- the same cells may stand elsewhere too, so the position is sought inside this list
      obtain ⟨cells, read, same⟩ := Option.bind_eq_some_iff.1 found
      obtain rfl := Option.some.inj same
      obtain ⟨cell, member, choice, core, rfl⟩ := carried
      obtain ⟨item, inside, located⟩ := Reads.exists_of_mem (mapM_eq_some_iff.1 read) member
      obtain ⟨content, encloses, opened⟩ := content_of_core located core
      refine ⟨content, opened, ?_⟩
      intro name marks others list
      obtain ⟨rfl, rfl, rfl⟩ := Kind.options.inj (Option.some.inj (entry.symm.trans list))
      exact ⟨item, inside, encloses⟩
  | _ =>
      obtain ⟨id, located⟩ := copied.exists_place? there
      refine ⟨id, located, ?_⟩
      intro name marks others list
      cases entry.symm.trans list

theorem Copied.exists_positions {frames : List Frame}
    (stacked : Stacked (Script.ofDocument d) frames) :
    ∃ positions, List.Forall₂ (fun id frame => (ofDocument d).place? id = some frame.place)
        positions frames ∧
      positions.IsChain fun above below => (ofDocument d).Carries below above := by
  induction stacked with
  | lowest there start bound =>
      obtain ⟨id, found⟩ := copied.exists_place? there
      exact ⟨[id], .cons found .nil, .singleton id⟩
  | @above place cursor next below there inner bound carried rest ih =>
      obtain ⟨positions, places, chain⟩ := ih
      cases places with
      | @cons lower _ positions _ found others =>
          obtain ⟨id, located, carries⟩ := copied.exists_above found carried there
          exact ⟨id :: lower :: positions, .cons located (.cons found others),
            .cons_cons carries chain⟩

end

end Arena

namespace Session

/-- What holds of the stack of a session over an arena. There is a lowest place, the document or a
block, whose cursor may be past its end; no other place is the document, no other cursor is past
the end, and a list is never advanced. The places have positions in the arena, and what stands
directly on a list is at the position of the content of one of its options. -/
structure Stands (arena : Arena) (s : Session) : Prop where
  frames : ∃ upper lowest, s.stack = upper ++ [lowest] ∧ lowest.place.isStart = true ∧
    lowest.cursor ≤ lowest.place.cells.length + 1 ∧
    ∀ frame ∈ upper, frame.place.isDocument = false ∧
      frame.cursor ≤ frame.place.cells.length ∧ (frame.place.isList = true → frame.cursor = 0)
  positions : ∃ ids, List.Forall₂ (fun id frame =>
      id < arena.table.size ∧ arena.place? id = some frame.place) ids s.stack ∧
    ids.IsChain fun above below => arena.Carries below above

theorem Plays.stands {d : Document} {s : Session} (plays : s.Plays (Script.ofDocument d)) :
    s.Stands (Arena.ofDocument d) := by
  obtain ⟨ids, slots, copied⟩ := Arena.exists_copied d
  obtain ⟨upper, lowest, split, start, ended, others⟩ := plays.stacked.split
  obtain ⟨positions, places, chain⟩ := copied.exists_positions plays.stacked
  constructor
  · refine ⟨upper, lowest, split, start, ended, ?_⟩
    intro frame member
    obtain ⟨inner, bound⟩ := others frame member
    refine ⟨inner, bound, ?_⟩
    intro list
    obtain ⟨place, cursor⟩ := frame
    cases place with
    | options name marks items => exact Nat.le_zero.1 bound
    | document cells | block name cells | content cells => cases list
  · refine ⟨positions, places.imp ?_, chain⟩
    intro id frame found
    exact ⟨Arena.lt_size_of_place? found, found⟩

/-- However a session over a document was made and whatever was asked of it, its stack stands in the
arena of the document, where all positions that can be looked up are in range. An allowance may end
after any step, so this holds before each step and not only between requests. -/
theorem stands_of_run (d : Document) (random : UInt32) (dictionary : Std.ExtTreeMap String String)
    (data : Option Memory) (ops : List Operation) :
    let arena := Arena.ofDocument d
    let s := ((ofScript (Script.ofDocument d) random dictionary data).run ops).2
    s.Stands arena ∧ s.stack ≠ [] ∧ arena.root < arena.table.size ∧
      (∀ name id, arena.block? name = some id → id < arena.table.size) ∧
      ∀ id ∈ Arena.stored arena.table, id < arena.table.size := by
  intro arena s
  have stands : s.Stands arena := ((plays_ofScript _ random dictionary data).run ops).stands
  obtain ⟨ids, slots, copied⟩ := Arena.exists_copied d
  refine ⟨stands, ?_, ?_, ?_, ?_⟩
  · obtain ⟨upper, lowest, split, -⟩ := stands.frames
    simp [split]
  · exact copied.lt_size (by rw [copied.root]; exact List.mem_cons_self)
  · exact fun name id found => copied.lt_size (copied.mem_slots found)
  · exact fun id => copied.stored_lt_size

end Session
end Dialogue
