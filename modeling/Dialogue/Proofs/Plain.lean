import Dialogue.Script
import Dialogue.Variation

/-! Documents without options whose diverts all name blocks of theirs, and the cells that their
nodes are numbered as. -/
namespace Dialogue

mutual

/-- Whether a node holds no options, and no diverts but to blocks of some names. The targets that
are no block name, the parent and the end, are not among them. -/
def Node.isPlain (names : List String) : Node → Bool
  | .content nodes => arePlain names nodes
  | .line .. | .act _ => true
  | .options .. | .option .. => false
  | .divert target =>
      match Target.ofName target with
      | .block name => names.contains name
      | _ => false
  | .variations _ alternatives => arePlainAlternatives names alternatives
  | .conditional _ body | .acting _ body => isPlain names body

def Node.arePlain (names : List String) : List Node → Bool
  | [] => true
  | node :: rest => isPlain names node && arePlain names rest

def Node.arePlainAlternatives (names : List String) : List (List Node) → Bool
  | [] => true
  | nodes :: rest => arePlain names nodes && arePlainAlternatives names rest

end

namespace Document

def blockNames (d : Document) : List String := d.blocks.map Block.name

/-- Whether a document holds no options, and its diverts all name blocks that it declares. -/
def isPlain (d : Document) : Bool :=
  Node.arePlain d.blockNames d.content &&
    d.blocks.all fun block => Node.arePlain d.blockNames block.content

end Document

/-- Cells that plain nodes are numbered as. -/
def Cell.ArePlain (names : List String) (cells : List Cell) : Prop :=
  ∃ number position nodes, Node.arePlain names nodes = true ∧
    cells = Cell.ofNodes number position nodes

theorem Cell.ArePlain.node_of_getElem? {names : List String} {cells : List Cell}
    (plain : ArePlain names cells) {i : Nat} {cell : Cell} (found : cells[i]? = some cell) :
    ∃ index node, Node.isPlain names node = true ∧ cell = ofNode index node := by
  obtain ⟨number, position, nodes, plain, rfl⟩ := plain
  induction nodes generalizing position i with
  | nil => simp [ofNodes] at found
  | cons node rest ih =>
      obtain ⟨first, others⟩ := Bool.and_eq_true_iff.1 plain
      cases i with
      | zero => exact ⟨number position, node, first, (Option.some.inj found).symm⟩
      | succ i => exact ih (position + 1) others found

theorem Cell.arePlain_of_mem_ofAlternatives {names : List String} {parent : UInt64} {position : Nat}
    {alternatives : List (List Node)}
    (plain : Node.arePlainAlternatives names alternatives = true) {alternative : Cell}
    (member : alternative ∈ ofAlternatives parent position alternatives) :
    ArePlain names alternative.children := by
  induction alternatives generalizing position with
  | nil => cases member
  | cons nodes rest ih =>
      obtain ⟨first, others⟩ := Bool.and_eq_true_iff.1 plain
      rcases List.mem_cons.1 member with rfl | later
      · exact ⟨_, _, nodes, first, rfl⟩
      · exact ih others later

theorem Variation.mem_of_pick {index : UInt64} {mode : VariationMode} {alternatives : List Cell}
    {tries : Nat} {m : Memory} {random : UInt32} {alternative : Cell}
    (picked : (pick index mode alternatives tries m random).1 = some alternative) :
    alternative ∈ alternatives := by
  induction tries generalizing m random with
  | zero => cases picked
  | succ tries ih =>
      simp only [pick] at picked
      generalize next index mode alternatives.length m random = drawn at picked
      obtain ⟨position, memory, word⟩ := drawn
      cases found : position.bind (alternatives[·]?) with
      | none => simp [found] at picked
      | some candidate =>
          simp only [found] at picked
          split at picked
          · exact ih picked
          · obtain rfl := Option.some.inj picked
            obtain ⟨i, -, there⟩ := Option.bind_eq_some_iff.1 found
            exact List.mem_of_getElem? there

namespace Script

/-- Whether each of some names has a block, of plain cells. -/
def Declares (script : Script) (names : List String) : Prop :=
  ∀ name ∈ names, ∃ block, script.block? name = some block ∧ Cell.ArePlain names block.cells

theorem mem_ofBlocks {names : List String} {position : Nat} {blocks : List Dialogue.Block}
    {block : Block}
    (plain : ∀ source ∈ blocks, Node.arePlain names source.content = true)
    (member : block ∈ ofBlocks position blocks) : Cell.ArePlain names block.cells := by
  induction blocks generalizing position with
  | nil => cases member
  | cons source rest ih =>
      rcases List.mem_cons.1 member with rfl | later
      · exact ⟨_, _, source.content, plain source List.mem_cons_self, rfl⟩
      · exact ih (fun other inside => plain other (List.mem_cons_of_mem source inside)) later

theorem map_name_ofBlocks (position : Nat) (blocks : List Dialogue.Block) :
    (ofBlocks position blocks).map Block.name = blocks.map Dialogue.Block.name := by
  induction blocks generalizing position with
  | nil => rfl
  | cons source rest ih => simp [ofBlocks, ih]

theorem declares_of_isPlain {d : Document} (plain : d.isPlain = true) :
    (ofDocument d).Declares d.blockNames := by
  obtain ⟨-, blocks⟩ := Bool.and_eq_true_iff.1 plain
  have sources : ∀ source ∈ d.blocks, Node.arePlain d.blockNames source.content = true :=
    List.all_eq_true.1 blocks
  intro name named
  rw [Document.blockNames, ← map_name_ofBlocks d.content.length] at named
  obtain ⟨declared, member, same⟩ := List.mem_map.1 named
  cases found : (ofDocument d).block? name with
  | none =>
      have absent := List.find?_eq_none.1 found declared (List.mem_reverse.2 member)
      simp [same] at absent
  | some block =>
      have inside := List.mem_reverse.1 (List.mem_of_find?_eq_some found)
      exact ⟨block, rfl, mem_ofBlocks sources inside⟩

end Script

end Dialogue
