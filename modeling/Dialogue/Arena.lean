import Dialogue.Script
import Std.Data.ExtTreeMap

/-! A document as one table of entries, which refer to each other by position. What is below a node
is added before it, but the document and its blocks have their positions reserved before what they
hold is added, and are filled in afterwards. -/
namespace Dialogue

namespace Arena

/-- A node, with the positions of other entries in the place of other nodes. -/
inductive Kind where
  | document (children : List Nat)
  | block (name : String) (children : List Nat)
  | content (children : List Nat)
  | line (text : String) (marks : Marks)
  | options (name : Option String) (marks : Marks) (items : List Nat)
  | option (name : String) (mode : OptionMode) (marks : Marks) (content : Nat)
  | divert (target : String)
  | variations (mode : VariationMode) (alternatives : List Nat)
  | conditional (condition : Expr) (body : Nat)
  | acting (action : Action) (body : Nat)
  | act (action : Action)

namespace Kind

/-- The entries that are walked one after the other. -/
def children : Kind → List Nat
  | document ids | block _ ids | content ids => ids
  | _ => []

/-- The items of a list of options, or the alternatives of a variation. -/
def items : Kind → List Nat
  | options _ _ ids | variations _ ids => ids
  | _ => []

/-- The content of an option, or what stands under a condition or an action. -/
def inner? : Kind → Option Nat
  | option _ _ _ id | conditional _ id | acting _ id => some id
  | _ => none

/-- All positions that an entry holds. -/
def stored (kind : Kind) : List Nat := kind.children ++ kind.items ++ kind.inner?.toList

end Kind

structure Entry where
  index : UInt64
  kind : Kind

/-- An entry that is filled in later. -/
def reserved (index : UInt64) : Entry := ⟨index, .content []⟩

def push (table : Array Entry) (index : UInt64) (kind : Kind) : Nat × Array Entry :=
  (table.size, table.push ⟨index, kind⟩)

mutual

/-- Adds a node with all that is below it, and gives its position. -/
def add (index : UInt64) : Node → Array Entry → Nat × Array Entry
  | .content nodes, table =>
      let (ids, table) := addAll (Cell.childIndex index) 0 nodes table
      push table index (.content ids)
  | .line text marks, table => push table index (.line text marks)
  | .options name marks items, table =>
      let (ids, table) := addAll (Cell.itemIndex index) 0 items table
      push table index (.options name marks ids)
  | .option name mode marks nodes, table =>
      let (ids, table) := addAll (Cell.childIndex index) 0 nodes table
      let (content, table) := push table index (.content ids)
      push table index (.option name mode marks content)
  | .divert target, table => push table index (.divert target)
  | .variations mode alternatives, table =>
      let (ids, table) := addAlternatives index 0 alternatives table
      push table index (.variations mode ids)
  | .conditional condition body, table =>
      let (id, table) := add index body table
      push table index (.conditional condition id)
  | .acting action body, table =>
      let (id, table) := add index body table
      push table index (.acting action id)
  | .act action, table => push table index (.act action)

def addAll (number : Nat → UInt64) (position : Nat) :
    List Node → Array Entry → List Nat × Array Entry
  | [], table => ([], table)
  | node :: rest, table =>
      let (id, table) := add (number position) node table
      let (ids, table) := addAll number (position + 1) rest table
      (id :: ids, table)

def addAlternatives (parent : UInt64) (position : Nat) :
    List (List Node) → Array Entry → List Nat × Array Entry
  | [], table => ([], table)
  | nodes :: rest, table =>
      let index := Cell.itemIndex parent position
      let (ids, table) := addAll (Cell.childIndex index) 0 nodes table
      let (id, table) := push table index (.content ids)
      let (others, table) := addAlternatives parent (position + 1) rest table
      (id :: others, table)

end

end Arena

structure Arena where
  table : Array Arena.Entry
  /-- by name, where a block is -/
  blocks : Std.ExtTreeMap String Nat := ∅
  root : Nat := 0

namespace Arena

/-- Adds a block. It takes the place of one of the same name among the names. -/
def addBlock (position : Nat) (block : Block) (arena : Arena) : Arena :=
  let index := Cell.childIndex Script.rootIndex position
  let id := arena.table.size
  let (ids, table) :=
    addAll (Cell.childIndex index) 0 block.content (arena.table.push (reserved index))
  { arena with
    table := table.setIfInBounds id ⟨index, .block block.name ids⟩
    blocks := arena.blocks.insert block.name id }

def addBlocks (position : Nat) : List Block → Arena → Arena
  | [], arena => arena
  | block :: rest, arena => addBlocks (position + 1) rest (addBlock position block arena)

def ofDocument (d : Document) : Arena :=
  let (ids, table) :=
    addAll (Cell.childIndex Script.rootIndex) 0 d.content #[reserved Script.rootIndex]
  let arena := addBlocks d.content.length d.blocks { table }
  { arena with
    table := arena.table.setIfInBounds arena.root ⟨Script.rootIndex, .document ids⟩ }

def kind? (arena : Arena) (id : Nat) : Option Kind := arena.table[id]?.map Entry.kind

def index? (arena : Arena) (id : Nat) : Option UInt64 := arena.table[id]?.map Entry.index

def block? (arena : Arena) (name : String) : Option Nat := arena.blocks[name]?

/-- The cell at a position, through at most so many entries on the way down. -/
def read? (table : Array Entry) : Nat → Nat → Option Cell
  | 0, _ => none
  | depth + 1, id => do
      let entry ← table[id]?
      match entry.kind with
      | .document _ | .block .. => none
      | .content ids => return .content entry.index (← ids.mapM (read? table depth))
      | .line text marks => return .line entry.index text marks
      | .options name marks ids =>
          return .options entry.index name marks (← ids.mapM (read? table depth))
      | .option name mode marks id =>
          let .content inside cells ← read? table depth id | none
          -- a cell has one index for an option and its content
          if inside = entry.index then return .option entry.index name mode marks cells else none
      | .divert target => return .divert entry.index target
      | .variations mode ids =>
          return .variations entry.index mode (← ids.mapM (read? table depth))
      | .conditional condition id =>
          return .conditional entry.index condition (← read? table depth id)
      | .acting action id => return .acting entry.index action (← read? table depth id)
      | .act action => return .act entry.index action

/-- The cell at a position. A way down meets no entry twice. -/
def cell? (arena : Arena) (id : Nat) : Option Cell := read? arena.table arena.table.size id

end Arena
end Dialogue
