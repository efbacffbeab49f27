import Dialogue.Document

/-! A document with a structural index on every node. The index of a node follows from its place:
the document is `1`, the child at position `p` of a document, block or content `i` is `10 * i + p`,
the item or alternative at position `p` of a list `i` is `100 * i + p`, and conditions, actions and
the content of an option share the index of what they belong to. Blocks count as children after the
top-level content. Indices are kept modulo `2 ^ 64`. -/
namespace Dialogue

inductive Cell where
  | content (index : UInt64) (children : List Cell)
  | line (index : UInt64) (text : String) (marks : Marks)
  | options (index : UInt64) (name : Option String) (marks : Marks) (items : List Cell)
  | option (index : UInt64) (name : String) (mode : OptionMode) (marks : Marks)
      (content : List Cell)
  | divert (index : UInt64) (target : String)
  | variations (index : UInt64) (mode : VariationMode) (alternatives : List Cell)
  | conditional (index : UInt64) (condition : Expr) (body : Cell)
  | acting (index : UInt64) (action : Action) (body : Cell)
  | act (index : UInt64) (action : Action)

namespace Cell

instance : Inhabited Cell := ⟨content 0 []⟩

def index : Cell → UInt64
  | content i _ | line i _ _ | options i _ _ _ | option i _ _ _ _ | divert i _ | variations i _ _
  | conditional i _ _ | acting i _ _ | act i _ => i

/-- The cells that are walked one after the other. -/
def children : Cell → List Cell
  | content _ cells => cells
  | _ => []

def childIndex (parent : UInt64) (position : Nat) : UInt64 := 10 * parent + position.toUInt64

def itemIndex (parent : UInt64) (position : Nat) : UInt64 := 100 * parent + position.toUInt64

mutual

def ofNode (index : UInt64) : Node → Cell
  | .content nodes => content index (ofNodes (childIndex index) 0 nodes)
  | .line text marks => line index text marks
  | .options name marks items => options index name marks (ofNodes (itemIndex index) 0 items)
  | .option name mode marks nodes =>
      option index name mode marks (ofNodes (childIndex index) 0 nodes)
  | .divert target => divert index target
  | .variations mode alternatives => variations index mode (ofAlternatives index 0 alternatives)
  | .conditional condition body => conditional index condition (ofNode index body)
  | .acting action body => acting index action (ofNode index body)
  | .act action => act index action

/-- Numbers nodes from a position on. -/
def ofNodes (number : Nat → UInt64) (position : Nat) : List Node → List Cell
  | [] => []
  | node :: rest => ofNode (number position) node :: ofNodes number (position + 1) rest

def ofAlternatives (parent : UInt64) (position : Nat) : List (List Node) → List Cell
  | [] => []
  | nodes :: rest =>
      content (itemIndex parent position) (ofNodes (childIndex (itemIndex parent position)) 0 nodes)
        :: ofAlternatives parent (position + 1) rest

end

end Cell

namespace Script

structure Block where
  index : UInt64
  name : String
  cells : List Cell

end Script

structure Script where
  content : List Cell
  blocks : List Script.Block

namespace Script

def rootIndex : UInt64 := 1

def ofBlocks (position : Nat) : List Dialogue.Block → List Block
  | [] => []
  | block :: rest =>
      let index := Cell.childIndex rootIndex position
      ⟨index, block.name, Cell.ofNodes (Cell.childIndex index) 0 block.content⟩
        :: ofBlocks (position + 1) rest

def ofDocument (d : Document) : Script where
  content := Cell.ofNodes (Cell.childIndex rootIndex) 0 d.content
  blocks := ofBlocks d.content.length d.blocks

/-- The block of a name, the last if there are several. -/
def block? (script : Script) (name : String) : Option Block :=
  script.blocks.reverse.find? fun block => block.name == name

end Script
end Dialogue
