import Dialogue.Arena
import Dialogue.Proofs.Plain
import Mathlib.Data.List.Forall2

/-! The table of a document is a faithful copy of it. Adding nodes keeps what is in the table, takes
up new positions that are each held once, and leaves entries that are read as the cells of the
nodes, in every table that has them. -/
namespace Dialogue

namespace Cell

mutual

/-- A cell without its numbers. -/
def node : Cell → Node
  | content _ cells => .content (nodes cells)
  | line _ text marks => .line text marks
  | options _ name marks items => .options name marks (nodes items)
  | option _ name mode marks cells => .option name mode marks (nodes cells)
  | divert _ target => .divert target
  | variations _ mode alternatives => .variations mode (branches alternatives)
  | conditional _ condition body => .conditional condition body.node
  | acting _ action body => .acting action body.node
  | act _ action => .act action

def nodes : List Cell → List Node
  | [] => []
  | cell :: rest => cell.node :: nodes rest

/-- The nodes of alternatives. -/
def branches : List Cell → List (List Node)
  | [] => []
  | content _ cells :: rest => nodes cells :: branches rest
  | _ :: rest => [] :: branches rest

end

mutual

theorem node_ofNode (index : UInt64) (source : Node) : (ofNode index source).node = source := by
  match source with
  | .content sources | .options name marks sources | .option name mode marks sources =>
      simp only [ofNode, node, nodes_ofNodes]
  | .variations mode alternatives => simp only [ofNode, node, branches_ofAlternatives]
  | .conditional condition body | .acting action body => simp only [ofNode, node, node_ofNode]
  | .line text marks | .divert target | .act action => rfl

theorem nodes_ofNodes (number : Nat → UInt64) (position : Nat) (sources : List Node) :
    nodes (ofNodes number position sources) = sources := by
  match sources with
  | [] => rfl
  | first :: rest => simp only [ofNodes, nodes, node_ofNode, nodes_ofNodes]

theorem branches_ofAlternatives (parent : UInt64) (position : Nat)
    (alternatives : List (List Node)) :
    branches (ofAlternatives parent position alternatives) = alternatives := by
  match alternatives with
  | [] => rfl
  | first :: rest => simp only [ofAlternatives, branches, nodes_ofNodes, branches_ofAlternatives]

end

theorem ofAlternatives_eq (parent : UInt64) (position : Nat) (alternatives : List (List Node)) :
    ofAlternatives parent position alternatives =
      ofNodes (itemIndex parent) position (alternatives.map .content) := by
  induction alternatives generalizing position with
  | nil => rfl
  | cons first rest ih => simp only [ofAlternatives, List.map_cons, ofNodes, ofNode, ih]

end Cell

namespace Script

theorem ofBlocks_append (position : Nat) (first second : List Dialogue.Block) :
    ofBlocks position (first ++ second) =
      ofBlocks position first ++ ofBlocks (position + first.length) second := by
  induction first generalizing position with
  | nil => rfl
  | cons block rest ih =>
      simp only [List.cons_append, ofBlocks, ih, List.length_cons]
      rw [Nat.add_assoc, Nat.add_comm 1]

theorem forall_mem_ofBlocks {position : Nat} {blocks : List Dialogue.Block} {P : String → Prop} :
    (∀ block ∈ ofBlocks position blocks, P block.name) ↔ ∀ block ∈ blocks, P block.name := by
  rw [← List.forall_mem_map (f := Block.name), map_name_ofBlocks, List.forall_mem_map]

theorem block?_eq_none_iff {d : Document} {name : String} :
    (ofDocument d).block? name = none ↔ ∀ block ∈ d.blocks, block.name ≠ name := by
  rw [block?, List.find?_eq_none, ofDocument]
  simp only [List.mem_reverse, beq_iff_eq]
  exact forall_mem_ofBlocks (P := (· ≠ name))

/-- Of the blocks of one name the last is found, numbered by its place after the content. -/
theorem block?_of_last {d : Document} {earlier later : List Dialogue.Block}
    {block : Dialogue.Block} (split : d.blocks = earlier ++ block :: later)
    (last : ∀ other ∈ later, other.name ≠ block.name) :
    let index := Cell.childIndex rootIndex (d.content.length + earlier.length)
    (ofDocument d).block? block.name =
      some ⟨index, block.name, Cell.ofNodes (Cell.childIndex index) 0 block.content⟩ := by
  intro index
  have gone : (ofBlocks (d.content.length + earlier.length + 1) later).reverse.find?
      (fun other => other.name == block.name) = none := by
    rw [List.find?_eq_none]
    simp only [List.mem_reverse, beq_iff_eq]
    exact forall_mem_ofBlocks (P := (· ≠ block.name)) |>.2 last
  simp only [block?, ofDocument, split, ofBlocks_append, ofBlocks, List.reverse_append,
    List.reverse_cons, List.append_assoc, List.find?_append, gone, Option.none_or]
  simp [index]

end Script

namespace Arena

theorem mapM_eq_some_iff {α β : Type} {f : α → Option β} {xs : List α} {ys : List β} :
    xs.mapM f = some ys ↔ List.Forall₂ (fun x y => f x = some y) xs ys := by
  induction xs generalizing ys with
  | nil => simp [eq_comm]
  | cons x xs ih =>
      rw [List.mapM_cons, List.forall₂_cons_left_iff]
      simp only [Option.bind_eq_bind, Option.bind_eq_some_iff, Option.pure_def, Option.some.injEq,
        ih]
      constructor
      · rintro ⟨y, found, rest, others, rfl⟩
        exact ⟨y, rest, found, others, rfl⟩
      · rintro ⟨y, rest, found, others, rfl⟩
        exact ⟨y, found, rest, others, rfl⟩

namespace Kind

@[simp] theorem stored_document (ids : List Nat) : (document ids).stored = ids := by
  simp [stored, children, items, inner?]

@[simp] theorem stored_block (name : String) (ids : List Nat) : (block name ids).stored = ids := by
  simp [stored, children, items, inner?]

@[simp] theorem stored_content (ids : List Nat) : (content ids).stored = ids := by
  simp [stored, children, items, inner?]

@[simp] theorem stored_options (name : Option String) (marks : Marks) (ids : List Nat) :
    (options name marks ids).stored = ids := by
  simp [stored, children, items, inner?]

@[simp] theorem stored_variations (mode : VariationMode) (ids : List Nat) :
    (variations mode ids).stored = ids := by
  simp [stored, children, items, inner?]

end Kind

/-- The positions that the entries of a table hold. -/
def stored (table : Array Entry) : List Nat := table.toList.flatMap fun entry => entry.kind.stored

theorem count_stored_push (table : Array Entry) (entry : Entry) (id : Nat) :
    (stored (table.push entry)).count id =
      (stored table).count id + entry.kind.stored.count id := by
  simp [stored, List.count_append]

theorem count_flatMap_set {entries : List Entry} {id : Nat} {old entry : Entry}
    (found : entries[id]? = some old) (blank : old.kind.stored = []) (i : Nat) :
    ((entries.set id entry).flatMap fun entry => entry.kind.stored).count i =
      (entries.flatMap fun entry => entry.kind.stored).count i + entry.kind.stored.count i := by
  induction entries generalizing id with
  | nil => simp at found
  | cons first rest ih =>
      cases id with
      | zero =>
          obtain rfl : first = old := by simpa using found
          simp only [List.set_cons_zero, List.flatMap_cons, List.count_append, blank,
            List.count_nil]
          omega
      | succ id =>
          have later := ih (by simpa using found)
          simp only [List.set_cons_succ, List.flatMap_cons, List.count_append, later]
          omega

theorem count_stored_set {table : Array Entry} {id : Nat} {index : UInt64}
    (found : table[id]? = some (reserved index)) (entry : Entry) (i : Nat) :
    (stored (table.setIfInBounds id entry)).count i =
      (stored table).count i + entry.kind.stored.count i := by
  rw [stored, Array.toList_setIfInBounds]
  exact count_flatMap_set (by simpa using found) (Kind.stored_content []) i

/-- Whether cells are what some positions of a table are read as. -/
def Reads (table : Array Entry) (depth : Nat) : List Nat → List Cell → Prop :=
  List.Forall₂ fun id cell => read? table depth id = some cell

/-- What adding to a table does: no entry changes, and every new position is held by one of the new
entries, or is among those that are handed back. -/
structure Takes (before after : Array Entry) (ids : List Nat) : Prop where
  size_le : before.size ≤ after.size
  kept : ∀ i < before.size, after[i]? = before[i]?
  count : ∀ id, (stored after).count id + ids.count id =
    (stored before).count id + if before.size ≤ id ∧ id < after.size then 1 else 0

namespace Takes

theorem nil (table : Array Entry) : Takes table table [] where
  size_le := Nat.le_refl _
  kept i inside := rfl
  count id := by
    rw [if_neg (by omega)]
    rfl

theorem append {before middle after : Array Entry} {ids others : List Nat}
    (first : Takes before middle ids) (second : Takes middle after others) :
    Takes before after (ids ++ others) where
  size_le := Nat.le_trans first.size_le second.size_le
  kept i inside := by
    rw [second.kept i (Nat.lt_of_lt_of_le inside first.size_le), first.kept i inside]
  count id := by
    have early := first.count id
    have late := second.count id
    have lower := first.size_le
    have upper := second.size_le
    rw [List.count_append]
    split_ifs at * <;> omega

theorem push {before after : Array Entry} {ids : List Nat} {entry : Entry}
    (below : Takes before after ids) (held : entry.kind.stored = ids) :
    Takes before (after.push entry) [after.size] where
  size_le := by
    rw [Array.size_push]
    exact Nat.le_succ_of_le below.size_le
  kept i inside := by
    have lower := below.size_le
    rw [Array.getElem?_push, if_neg (by omega), below.kept i inside]
  count id := by
    have early := below.count id
    have lower := below.size_le
    rw [count_stored_push, held, List.count_singleton, Array.size_push, early]
    simp only [beq_iff_eq]
    split_ifs <;> omega

/-- A position that was reserved is filled in with some of those handed back since. -/
theorem fill {table after : Array Entry} {ids others : List Nat} {index : UInt64} {entry : Entry}
    (grown : Takes (table.push (reserved index)) after (ids ++ others))
    (held : entry.kind.stored = ids) :
    Takes table (after.setIfInBounds table.size entry) (table.size :: others) where
  size_le := by
    have lower := grown.size_le
    rw [Array.size_push] at lower
    rw [Array.size_setIfInBounds]
    omega
  kept i inside := by
    rw [Array.getElem?_setIfInBounds, if_neg (by omega),
      grown.kept i (by rw [Array.size_push]; omega), Array.getElem?_push, if_neg (by omega)]
  count id := by
    have lower := grown.size_le
    have since := grown.count id
    have place : after[table.size]? = some (reserved index) := by
      rw [grown.kept _ (by rw [Array.size_push]; omega), Array.getElem?_push, if_pos rfl]
    have blank : (reserved index).kind.stored = [] := Kind.stored_content []
    rw [count_stored_push, blank, List.count_nil, List.count_append, Array.size_push] at since
    rw [Array.size_push] at lower
    rw [count_stored_set place, held, Array.size_setIfInBounds, List.count_cons]
    simp only [beq_iff_eq]
    split_ifs at * <;> omega

end Takes

/-! How entries are read. -/

/-- Whether the kind of an entry is that of a cell, and what it holds is read as what the cell
holds. -/
inductive Holds (table : Array Entry) (depth : Nat) : Kind → Cell → Prop
  | content {ids : List Nat} {cells : List Cell} (index : UInt64)
      (below : Reads table depth ids cells) :
      Holds table depth (.content ids) (.content index cells)
  | line (index : UInt64) (text : String) (marks : Marks) :
      Holds table depth (.line text marks) (.line index text marks)
  | options {ids : List Nat} {items : List Cell} (index : UInt64) (name : Option String)
      (marks : Marks) (below : Reads table depth ids items) :
      Holds table depth (.options name marks ids) (.options index name marks items)
  | option {content : Nat} {cells : List Cell} (index : UInt64) (name : String) (mode : OptionMode)
      (marks : Marks) (below : Reads table depth [content] [.content index cells]) :
      Holds table depth (.option name mode marks content) (.option index name mode marks cells)
  | divert (index : UInt64) (target : String) :
      Holds table depth (.divert target) (.divert index target)
  | variations {ids : List Nat} {alternatives : List Cell} (index : UInt64) (mode : VariationMode)
      (below : Reads table depth ids alternatives) :
      Holds table depth (.variations mode ids) (.variations index mode alternatives)
  | conditional {id : Nat} {body : Cell} (index : UInt64) (condition : Expr)
      (below : Reads table depth [id] [body]) :
      Holds table depth (.conditional condition id) (.conditional index condition body)
  | acting {id : Nat} {body : Cell} (index : UInt64) (action : Action)
      (below : Reads table depth [id] [body]) :
      Holds table depth (.acting action id) (.acting index action body)
  | act (index : UInt64) (action : Action) : Holds table depth (.act action) (.act index action)

theorem reads_singleton {table : Array Entry} {depth id : Nat} {cell : Cell} :
    Reads table depth [id] [cell] ↔ read? table depth id = some cell := by
  simp [Reads]

theorem read?_of_holds {table : Array Entry} {depth id : Nat} {kind : Kind} {cell : Cell}
    (entry : table[id]? = some ⟨cell.index, kind⟩) (holds : Holds table depth kind cell) :
    read? table (depth + 1) id = some cell := by
  cases holds with
  | content index below | options index name marks below | variations index mode below =>
      simp [read?, entry, mapM_eq_some_iff.2 below, Cell.index]
  | option index name mode marks below | conditional index condition below
  | acting index action below =>
      simp [read?, entry, reads_singleton.1 below, Cell.index]
  | line index text marks | divert index target | act index action =>
      simp [read?, entry, Cell.index]

theorem holds_of_read? {table : Array Entry} {depth id : Nat} {cell : Cell}
    (read : read? table (depth + 1) id = some cell) :
    ∃ kind, table[id]? = some ⟨cell.index, kind⟩ ∧ Holds table depth kind cell := by
  simp only [read?, Option.bind_eq_bind] at read
  obtain ⟨⟨index, kind⟩, entry, read⟩ := Option.bind_eq_some_iff.1 read
  rw [entry]
  cases kind with
  | document ids | block name ids => cases read
  | content ids =>
      obtain ⟨cells, below, same⟩ := Option.bind_eq_some_iff.1 read
      obtain rfl := Option.some.inj same
      exact ⟨_, rfl, .content index (mapM_eq_some_iff.1 below)⟩
  | options name marks ids =>
      obtain ⟨items, below, same⟩ := Option.bind_eq_some_iff.1 read
      obtain rfl := Option.some.inj same
      exact ⟨_, rfl, .options index name marks (mapM_eq_some_iff.1 below)⟩
  | option name mode marks content =>
      obtain ⟨held, below, same⟩ := Option.bind_eq_some_iff.1 read
      cases held with
      | content inside cells =>
          obtain ⟨rfl, same⟩ := Option.ite_none_right_eq_some.1 same
          obtain rfl := Option.some.inj same
          exact ⟨_, rfl, .option _ name mode marks (reads_singleton.2 below)⟩
      | _ => cases same
  | variations mode ids =>
      obtain ⟨alternatives, below, same⟩ := Option.bind_eq_some_iff.1 read
      obtain rfl := Option.some.inj same
      exact ⟨_, rfl, .variations index mode (mapM_eq_some_iff.1 below)⟩
  | conditional condition id =>
      obtain ⟨body, below, same⟩ := Option.bind_eq_some_iff.1 read
      obtain rfl := Option.some.inj same
      exact ⟨_, rfl, .conditional index condition (reads_singleton.2 below)⟩
  | acting action id =>
      obtain ⟨body, below, same⟩ := Option.bind_eq_some_iff.1 read
      obtain rfl := Option.some.inj same
      exact ⟨_, rfl, .acting index action (reads_singleton.2 below)⟩
  | line text marks =>
      obtain rfl := Option.some.inj read
      exact ⟨_, rfl, .line index text marks⟩
  | divert target =>
      obtain rfl := Option.some.inj read
      exact ⟨_, rfl, .divert index target⟩
  | act action =>
      obtain rfl := Option.some.inj read
      exact ⟨_, rfl, .act index action⟩

theorem Holds.deepen {table : Array Entry} {depth more : Nat} {kind : Kind} {cell : Cell}
    (holds : Holds table depth kind cell)
    (deeper : ∀ id cell, read? table depth id = some cell → read? table more id = some cell) :
    Holds table more kind cell := by
  have further : ∀ {ids cells}, Reads table depth ids cells → Reads table more ids cells :=
    fun below => List.Forall₂.imp (fun id cell => deeper id cell) below
  cases holds with
  | content index below => exact .content index (further below)
  | line index text marks => exact .line index text marks
  | options index name marks below => exact .options index name marks (further below)
  | option index name mode marks below => exact .option index name mode marks (further below)
  | divert index target => exact .divert index target
  | variations index mode below => exact .variations index mode (further below)
  | conditional index condition below => exact .conditional index condition (further below)
  | acting index action below => exact .acting index action (further below)
  | act index action => exact .act index action

theorem read?_succ {table : Array Entry} {depth id : Nat} {cell : Cell}
    (read : read? table depth id = some cell) : read? table (depth + 1) id = some cell := by
  induction depth generalizing id cell with
  | zero => cases read
  | succ depth ih =>
      obtain ⟨kind, entry, holds⟩ := holds_of_read? read
      exact read?_of_holds entry (holds.deepen fun _ _ => ih)

theorem holds_of_cell? {arena : Arena} {id : Nat} {cell : Cell}
    (found : arena.cell? id = some cell) :
    ∃ kind, arena.table[id]? = some ⟨cell.index, kind⟩ ∧
      Holds arena.table arena.table.size kind cell :=
  holds_of_read? (read?_succ found)

/-- What adding nodes to a table does: what is handed back is read as the cells of the nodes, in
every table that has the new entries. -/
structure Grows (before after : Array Entry) (ids : List Nat) (cells : List Cell) : Prop
    extends Takes before after ids where
  reads : ∀ table : Array Entry,
    (∀ i, before.size ≤ i → i < after.size → table[i]? = after[i]?) →
    ∀ depth, after.size ≤ depth → Reads table depth ids cells

namespace Grows

theorem nil (table : Array Entry) : Grows table table [] [] where
  toTakes := Takes.nil table
  reads _ _ _ _ := List.Forall₂.nil

theorem append {before middle after : Array Entry} {ids others : List Nat}
    {cells further : List Cell} (first : Grows before middle ids cells)
    (second : Grows middle after others further) :
    Grows before after (ids ++ others) (cells ++ further) where
  toTakes := first.toTakes.append second.toTakes
  reads table same depth deep := by
    have lower := first.size_le
    have upper := second.size_le
    refine List.rel_append (first.reads table ?_ depth (by omega))
      (second.reads table ?_ depth deep)
    · intro i low high
      rw [same i low (by omega), second.kept i high]
    · intro i low high
      exact same i (by omega) high

/-- The entry of a node comes after those of what it holds. -/
theorem push {before after : Array Entry} {ids : List Nat} {cells : List Cell} {kind : Kind}
    (below : Grows before after ids cells) (held : kind.stored = ids) (cell : Cell)
    (holds : ∀ table depth, Reads table depth ids cells → Holds table depth kind cell) :
    Grows before (after.push ⟨cell.index, kind⟩) [after.size] [cell] where
  toTakes := below.toTakes.push held
  reads table same depth deep := by
    have lower := below.size_le
    rw [Array.size_push] at same deep
    obtain ⟨depth, rfl⟩ : ∃ less, depth = less + 1 := ⟨depth - 1, by omega⟩
    have inside : Reads table depth ids cells := by
      refine below.reads table ?_ depth (by omega)
      intro i low high
      rw [same i low (by omega), Array.getElem?_push, if_neg (by omega)]
    refine reads_singleton.2 (read?_of_holds ?_ (holds table depth inside))
    rw [same _ lower (Nat.lt_succ_self _), Array.getElem?_push, if_pos rfl]

end Grows

mutual

theorem grows_add (index : UInt64) (node : Node) (table : Array Entry) :
    Grows table (add index node table).2 [(add index node table).1] [Cell.ofNode index node] := by
  match node with
  | .content nodes =>
      have below := grows_addAll (Cell.childIndex index) 0 nodes table
      exact below.push (Kind.stored_content _) (.content index _) fun _ _ => .content index
  | .line text marks =>
      exact (Grows.nil table).push rfl (.line index text marks) fun _ _ _ => .line index text marks
  | .options name marks items =>
      have below := grows_addAll (Cell.itemIndex index) 0 items table
      exact below.push (Kind.stored_options ..) (.options index name marks _)
        fun _ _ => .options index name marks
  | .option name mode marks nodes =>
      have below := grows_addAll (Cell.childIndex index) 0 nodes table
      have content := below.push (Kind.stored_content _) (.content index _)
        fun _ _ => .content index
      exact content.push rfl (.option index name mode marks _)
        fun _ _ => .option index name mode marks
  | .divert target =>
      exact (Grows.nil table).push rfl (.divert index target) fun _ _ _ => .divert index target
  | .variations mode alternatives =>
      have below := grows_addAlternatives index 0 alternatives table
      exact below.push (Kind.stored_variations ..) (.variations index mode _)
        fun _ _ => .variations index mode
  | .conditional condition body =>
      have below := grows_add index body table
      exact below.push rfl (.conditional index condition _) fun _ _ => .conditional index condition
  | .acting action body =>
      have below := grows_add index body table
      exact below.push rfl (.acting index action _) fun _ _ => .acting index action
  | .act action =>
      exact (Grows.nil table).push rfl (.act index action) fun _ _ _ => .act index action

theorem grows_addAll (number : Nat → UInt64) (position : Nat) (nodes : List Node)
    (table : Array Entry) :
    Grows table (addAll number position nodes table).2 (addAll number position nodes table).1
      (Cell.ofNodes number position nodes) := by
  match nodes with
  | [] => exact Grows.nil table
  | node :: rest =>
      have first := grows_add (number position) node table
      exact first.append (grows_addAll number (position + 1) rest _)

theorem grows_addAlternatives (parent : UInt64) (position : Nat) (alternatives : List (List Node))
    (table : Array Entry) :
    Grows table (addAlternatives parent position alternatives table).2
      (addAlternatives parent position alternatives table).1
      (Cell.ofAlternatives parent position alternatives) := by
  match alternatives with
  | [] => exact Grows.nil table
  | nodes :: rest =>
      have below := grows_addAll (Cell.childIndex (Cell.itemIndex parent position)) 0 nodes table
      have first := below.push (Kind.stored_content _)
        (.content (Cell.itemIndex parent position) _) fun _ _ => .content _
      exact first.append (grows_addAlternatives parent (position + 1) rest _)

end

/-! Blocks. -/

/-- Whether a block is what a position is read as. -/
def Shows (table : Array Entry) (depth : Nat) (slot : Nat) (block : Script.Block) : Prop :=
  ∃ ids, table[slot]? = some ⟨block.index, .block block.name ids⟩ ∧
    Reads table depth ids block.cells

/-- What adding blocks to an arena does: each is what its position is read as, and of those of one
name the last is found. -/
structure Adds (before after : Arena) (slots : List Nat) (blocks : List Script.Block) : Prop
    extends Takes before.table after.table slots where
  root : after.root = before.root
  shows : ∀ table : Array Entry,
    (∀ i, before.table.size ≤ i → i < after.table.size → table[i]? = after.table[i]?) →
    ∀ depth, after.table.size ≤ depth → List.Forall₂ (Shows table depth) slots blocks
  named : ∀ name, after.block? name =
    (((slots.zip blocks).reverse.find? fun pair => pair.2.name == name).map Prod.fst).or
      (before.block? name)

namespace Adds

theorem nil (arena : Arena) : Adds arena arena [] [] where
  toTakes := Takes.nil arena.table
  root := rfl
  shows _ _ _ _ := List.Forall₂.nil
  named _ := rfl

theorem length_eq {before after : Arena} {slots : List Nat} {blocks : List Script.Block}
    (added : Adds before after slots blocks) : slots.length = blocks.length :=
  (added.shows after.table (fun _ _ _ => rfl) _ (Nat.le_refl _)).length_eq

theorem append {before middle after : Arena} {slots others : List Nat}
    {blocks further : List Script.Block} (first : Adds before middle slots blocks)
    (second : Adds middle after others further) :
    Adds before after (slots ++ others) (blocks ++ further) where
  toTakes := first.toTakes.append second.toTakes
  root := second.root.trans first.root
  shows table same depth deep := by
    have lower := first.size_le
    have upper := second.size_le
    refine List.rel_append (first.shows table ?_ depth (by omega))
      (second.shows table ?_ depth deep)
    · intro i low high
      rw [same i low (by omega), second.kept i high]
    · intro i low high
      exact same i (by omega) high
  named name := by
    rw [second.named, first.named, List.zip_append first.length_eq, List.reverse_append,
      List.find?_append, Option.map_or, Option.or_assoc]

end Adds

theorem adds_addBlock (position : Nat) (block : Block) (arena : Arena) :
    Adds arena (addBlock position block arena) [arena.table.size]
      (Script.ofBlocks position [block]) := by
  have grown := grows_addAll (Cell.childIndex (Cell.childIndex Script.rootIndex position)) 0
    block.content (arena.table.push (reserved (Cell.childIndex Script.rootIndex position)))
  have lower := grown.size_le
  rw [Array.size_push] at lower
  constructor
  · exact Takes.fill (by simpa using grown.toTakes) (Kind.stored_block ..)
  · rfl
  · intro table same depth deep
    simp only [addBlock, Array.size_setIfInBounds, Array.getElem?_setIfInBounds] at same deep
    refine List.Forall₂.cons ⟨_, ?_, grown.reads table ?_ depth deep⟩ .nil
    · rw [same _ (Nat.le_refl _) (by omega), if_pos rfl, if_pos (by omega)]
    · intro i low high
      rw [Array.size_push] at low
      rw [same i (by omega) high, if_neg (by omega)]
  · intro name
    simp only [addBlock, block?, Std.ExtTreeMap.getElem?_insert, Std.compare_eq_iff_eq]
    by_cases same : block.name = name <;> simp [Script.ofBlocks, same]

/-- Where blocks are that are added to an arena: each at the end of what was there before. -/
def slots (position : Nat) : List Block → Arena → List Nat
  | [], _ => []
  | block :: rest, arena =>
      arena.table.size :: slots (position + 1) rest (addBlock position block arena)

theorem adds_addBlocks (position : Nat) (blocks : List Block) (arena : Arena) :
    Adds arena (addBlocks position blocks arena) (slots position blocks arena)
      (Script.ofBlocks position blocks) := by
  induction blocks generalizing position arena with
  | nil => exact Adds.nil arena
  | cons block rest ih =>
      have first := adds_addBlock position block arena
      exact first.append (ih (position + 1) (addBlock position block arena))

/-! Documents. -/

/-- What is at the positions of the table of a document: its root holds the top-level content, the
positions reserved for blocks hold these, and all others are held once. -/
structure Copied (d : Document) (ids slots : List Nat) : Prop where
  takes : Takes #[] (ofDocument d).table (0 :: slots)
  root : (ofDocument d).root = 0
  document : (ofDocument d).table[0]? = some ⟨Script.rootIndex, .document ids⟩
  content : Reads (ofDocument d).table (ofDocument d).table.size ids (Script.ofDocument d).content
  blocks : List.Forall₂ (Shows (ofDocument d).table (ofDocument d).table.size) slots
    (Script.ofDocument d).blocks
  named : ∀ name, (ofDocument d).block? name =
    ((slots.zip (Script.ofDocument d).blocks).reverse.find? fun pair => pair.2.name == name).map
      Prod.fst

/-- What the table of a document holds before its blocks are added: the positions of the top-level
content, and all below it. -/
def top (d : Document) : List Nat × Array Entry :=
  addAll (Cell.childIndex Script.rootIndex) 0 d.content #[reserved Script.rootIndex]

/-- Where the blocks of a document are, in their order. -/
def blockIds (d : Document) : List Nat := slots d.content.length d.blocks { table := (top d).2 }

theorem ofDocument_eq (d : Document) :
    let arena := addBlocks d.content.length d.blocks { table := (top d).2 }
    ofDocument d = { arena with
      table := arena.table.setIfInBounds 0 ⟨Script.rootIndex, .document (top d).1⟩ } := by
  intro arena
  have root : arena.root = 0 := (adds_addBlocks d.content.length d.blocks _).root
  rw [← root]
  rfl

theorem copied_blockIds (d : Document) : Copied d (top d).1 (blockIds d) := by
  have grown : Grows #[reserved Script.rootIndex] (top d).2 (top d).1 _ :=
    grows_addAll (Cell.childIndex Script.rootIndex) 0 d.content #[reserved Script.rootIndex]
  have added : Adds { table := (top d).2 } _ (blockIds d) _ :=
    adds_addBlocks d.content.length d.blocks { table := (top d).2 }
  have whole := ofDocument_eq d
  generalize addBlocks d.content.length d.blocks { table := (top d).2 } = arena at added whole
  dsimp only at whole
  have lower : 1 ≤ (top d).2.size := grown.size_le
  have upper : (top d).2.size ≤ arena.table.size := added.size_le
  have same : ∀ i, 1 ≤ i → (ofDocument d).table[i]? = arena.table[i]? := by
    intro i positive
    rw [whole, Array.getElem?_setIfInBounds, if_neg (by omega)]
  have size : (ofDocument d).table.size = arena.table.size := by
    rw [whole, Array.size_setIfInBounds]
  constructor
  · rw [whole]
    exact Takes.fill (grown.toTakes.append added.toTakes) (Kind.stored_document _)
  · rw [whole]
    exact added.root
  · rw [whole, Array.getElem?_setIfInBounds, if_pos rfl, if_pos (by omega)]
  · refine grown.reads _ ?_ _ (by omega)
    intro i low high
    rw [same i low, added.kept i high]
  · refine added.shows _ ?_ _ (by omega)
    intro i low high
    exact same i (Nat.le_trans lower low)
  · intro name
    have found := added.named name
    have none : Arena.block? { table := (top d).2 } name = Option.none := by simp [block?]
    rw [none, Option.or_none] at found
    rw [whole]
    exact found

theorem exists_copied (d : Document) : ∃ ids slots, Copied d ids slots :=
  ⟨_, _, copied_blockIds d⟩

/-- A name is found in both the arena and the script, and its position is read as its block, or in
neither. -/
theorem Copied.block_cases {d : Document} {ids slots : List Nat} (copied : Copied d ids slots)
    (name : String) :
    (ofDocument d).block? name = none ∧ (Script.ofDocument d).block? name = none ∨
      ∃ slot ∈ slots, ∃ block, (ofDocument d).block? name = some slot ∧
        (Script.ofDocument d).block? name = some block ∧
        Shows (ofDocument d).table (ofDocument d).table.size slot block := by
  obtain ⟨length, shows⟩ := List.forall₂_iff_zip.1 copied.blocks
  have named := copied.named name
  have script : (Script.ofDocument d).block? name =
      ((slots.zip (Script.ofDocument d).blocks).reverse.find? fun pair => pair.2.name == name).map
        Prod.snd := by
    have blocks := List.map_snd_zip (Nat.le_of_eq length.symm)
    rw [Script.block?, ← blocks, ← List.map_reverse, List.find?_map, blocks]
    rfl
  cases found : (slots.zip (Script.ofDocument d).blocks).reverse.find?
      fun pair => pair.2.name == name with
  | none =>
      rw [found] at named script
      exact .inl ⟨named, script⟩
  | some pair =>
      obtain ⟨slot, block⟩ := pair
      rw [found] at named script
      have member := List.mem_reverse.1 (List.mem_of_find?_eq_some found)
      exact .inr ⟨slot, (List.of_mem_zip member).1, block, named, script, shows member⟩

theorem Copied.shows_of_block? {d : Document} {ids slots : List Nat} (copied : Copied d ids slots)
    {name : String} {block : Script.Block}
    (found : (Script.ofDocument d).block? name = some block) :
    ∃ slot, (ofDocument d).block? name = some slot ∧
      Shows (ofDocument d).table (ofDocument d).table.size slot block := by
  rcases copied.block_cases name with ⟨-, none⟩ | ⟨slot, -, other, named, same, shows⟩
  · rw [found] at none
    cases none
  · obtain rfl := Option.some.inj (found.symm.trans same)
    exact ⟨slot, named, shows⟩

section
variable {d : Document} {ids slots : List Nat} (copied : Copied d ids slots) {id : Nat}
include copied

theorem Copied.count (id : Nat) :
    (stored (ofDocument d).table).count id + (0 :: slots).count id =
      if id < (ofDocument d).table.size then 1 else 0 := by
  have count := copied.takes.count id
  simpa [stored] using count

theorem Copied.count_le_one (id : Nat) : (stored (ofDocument d).table).count id ≤ 1 := by
  have count := copied.count id
  split_ifs at count <;> omega

theorem Copied.stored_lt_size (member : id ∈ stored (ofDocument d).table) :
    id < (ofDocument d).table.size := by
  have count := copied.count id
  have positive := List.count_pos_iff.2 member
  split_ifs at count with inside
  · exact inside
  · omega

theorem Copied.lt_size (member : id ∈ 0 :: slots) : id < (ofDocument d).table.size := by
  have count := copied.count id
  have positive := List.count_pos_iff.2 member
  split_ifs at count with inside
  · exact inside
  · omega

theorem Copied.not_mem_stored (member : id ∈ 0 :: slots) : id ∉ stored (ofDocument d).table := by
  have count := copied.count id
  have positive := List.count_pos_iff.2 member
  rw [← List.count_eq_zero]
  split_ifs at count <;> omega

theorem Copied.mem_slots {name : String} (found : (ofDocument d).block? name = some id) :
    id ∈ 0 :: slots := by
  rcases copied.block_cases name with ⟨none, -⟩ | ⟨slot, member, block, same, -⟩
  · rw [found] at none
    cases none
  · obtain rfl := Option.some.inj (found.symm.trans same)
    exact List.mem_cons_of_mem 0 member

end

/-! Numbers. -/

/-- The entries that are reached from the root and from the blocks found by name, with the number
that each has by its place. -/
inductive Reaches (d : Document) (arena : Arena) : Nat → Nat → Prop
  | root : Reaches d arena arena.root 1
  | block {earlier later : List Block} {block : Block} {id : Nat}
      (split : d.blocks = earlier ++ block :: later)
      (last : ∀ other ∈ later, other.name ≠ block.name)
      (found : arena.block? block.name = some id) :
      Reaches d arena id (10 * 1 + (d.content.length + earlier.length))
  | child {id number position child : Nat} {kind : Kind} (above : Reaches d arena id number)
      (entry : arena.kind? id = some kind) (held : kind.children[position]? = some child) :
      Reaches d arena child (10 * number + position)
  | item {id number position item : Nat} {kind : Kind} (above : Reaches d arena id number)
      (entry : arena.kind? id = some kind) (held : kind.items[position]? = some item) :
      Reaches d arena item (100 * number + position)
  | inner {id number inner : Nat} {kind : Kind} (above : Reaches d arena id number)
      (entry : arena.kind? id = some kind) (held : kind.inner? = some inner) :
      Reaches d arena inner number

theorem childIndex_ofNat (number position : Nat) :
    Cell.childIndex (UInt64.ofNat number) position = UInt64.ofNat (10 * number + position) := by
  rw [UInt64.ofNat_add, UInt64.ofNat_mul]
  rfl

theorem itemIndex_ofNat (number position : Nat) :
    Cell.itemIndex (UInt64.ofNat number) position = UInt64.ofNat (100 * number + position) := by
  rw [UInt64.ofNat_add, UInt64.ofNat_mul]
  rfl

theorem index_ofNode (index : UInt64) (node : Node) : (Cell.ofNode index node).index = index := by
  cases node <;> rfl

/-- Whether an entry has a number, and what it holds is read as nodes numbered from there. -/
structure Numbered (arena : Arena) (id number : Nat) (kind : Kind) : Prop where
  entry : arena.table[id]? = some ⟨UInt64.ofNat number, kind⟩
  child : ∀ position child, kind.children[position]? = some child →
    ∃ node, arena.cell? child = some (.ofNode (.ofNat (10 * number + position)) node)
  item : ∀ position item, kind.items[position]? = some item →
    ∃ node, arena.cell? item = some (.ofNode (.ofNat (100 * number + position)) node)
  inner : ∀ inner, kind.inner? = some inner →
    ∃ node, arena.cell? inner = some (.ofNode (.ofNat number) node)

theorem Numbered.kind_eq {arena : Arena} {id number : Nat} {kind other : Kind}
    (numbered : arena.Numbered id number kind) (entry : arena.kind? id = some other) :
    other = kind := by
  rw [kind?, numbered.entry] at entry
  exact (Option.some.inj entry).symm

theorem Reads.node_of_getElem? {table : Array Entry} {depth : Nat} {number : Nat → UInt64}
    {start : Nat} {nodes : List Node} {ids : List Nat}
    (reads : Reads table depth ids (Cell.ofNodes number start nodes)) {position id : Nat}
    (held : ids[position]? = some id) :
    ∃ node, read? table depth id = some (.ofNode (number (start + position)) node) := by
  induction nodes generalizing start ids position with
  | nil =>
      cases reads
      simp at held
  | cons node rest ih =>
      cases reads with
      | cons first others =>
          cases position with
          | zero =>
              obtain rfl := Option.some.inj held
              exact ⟨node, first⟩
          | succ position =>
              obtain ⟨node, read⟩ := ih others held
              exact ⟨node, by rw [read, Nat.add_right_comm]; rfl⟩

theorem cell?_of_reads {arena : Arena} {number : Nat → UInt64} {nodes : List Node} {ids : List Nat}
    (reads : Reads arena.table arena.table.size ids (Cell.ofNodes number 0 nodes))
    {position id : Nat} (held : ids[position]? = some id) :
    ∃ node, arena.cell? id = some (.ofNode (number position) node) := by
  obtain ⟨node, read⟩ := reads.node_of_getElem? held
  rw [Nat.zero_add] at read
  exact ⟨node, read⟩

theorem numbered_of_cell? {arena : Arena} {id number : Nat} {node : Node}
    (found : arena.cell? id = some (.ofNode (.ofNat number) node)) :
    ∃ kind, arena.Numbered id number kind := by
  obtain ⟨kind, entry, holds⟩ := holds_of_cell? found
  rw [index_ofNode] at entry
  refine ⟨kind, entry, ?_, ?_, ?_⟩
  · intro position child held
    rw [← childIndex_ofNat]
    cases node with
    | content nodes =>
        cases holds with
        | content index below => exact cell?_of_reads below held
    | _ =>
        cases holds
        cases held
  · intro position item held
    rw [← itemIndex_ofNat]
    cases node with
    | options name marks items =>
        cases holds with
        | options index name marks below => exact cell?_of_reads below held
    | variations mode alternatives =>
        cases holds with
        | variations index mode below =>
            rw [Cell.ofAlternatives_eq] at below
            exact cell?_of_reads below held
    | _ =>
        cases holds
        cases held
  · intro inner held
    cases node with
    | option name mode marks nodes =>
        cases holds with
        | option index name mode marks below =>
            obtain rfl := Option.some.inj held
            exact ⟨.content nodes, reads_singleton.1 below⟩
    | conditional condition body =>
        cases holds with
        | conditional index condition below =>
            obtain rfl := Option.some.inj held
            exact ⟨body, reads_singleton.1 below⟩
    | acting action body =>
        cases holds with
        | acting index action below =>
            obtain rfl := Option.some.inj held
            exact ⟨body, reads_singleton.1 below⟩
    | _ =>
        cases holds
        cases held

theorem numbered_of_children {arena : Arena} {id number : Nat} {kind : Kind} {nodes : List Node}
    (entry : arena.table[id]? = some ⟨UInt64.ofNat number, kind⟩)
    (children : Reads arena.table arena.table.size kind.children
      (Cell.ofNodes (Cell.childIndex (UInt64.ofNat number)) 0 nodes))
    (bare : kind.items = [] ∧ kind.inner? = none) : arena.Numbered id number kind where
  entry := entry
  child position child held := by
    rw [← childIndex_ofNat]
    exact cell?_of_reads children held
  item position item held := by simp [bare.1] at held
  inner inner held := by simp [bare.2] at held

theorem Copied.numbered_of_reaches {d : Document} {ids slots : List Nat}
    (copied : Copied d ids slots) {id number : Nat}
    (reached : Reaches d (ofDocument d) id number) :
    ∃ kind, (ofDocument d).Numbered id number kind := by
  induction reached with
  | root =>
      rw [copied.root]
      exact ⟨_, numbered_of_children copied.document copied.content ⟨rfl, rfl⟩⟩
  | @block earlier later block id split last found =>
      obtain ⟨slot, named, ids, entry, reads⟩ :=
        copied.shows_of_block? (Script.block?_of_last split last)
      obtain rfl := Option.some.inj (found.symm.trans named)
      have root : Script.rootIndex = UInt64.ofNat 1 := rfl
      simp only [root, childIndex_ofNat] at entry reads
      exact ⟨_, numbered_of_children entry reads ⟨rfl, rfl⟩⟩
  | child above entry held ih =>
      obtain ⟨kind, numbered⟩ := ih
      obtain ⟨node, found⟩ := numbered.child _ _ (numbered.kind_eq entry ▸ held)
      exact numbered_of_cell? found
  | item above entry held ih =>
      obtain ⟨kind, numbered⟩ := ih
      obtain ⟨node, found⟩ := numbered.item _ _ (numbered.kind_eq entry ▸ held)
      exact numbered_of_cell? found
  | inner above entry held ih =>
      obtain ⟨kind, numbered⟩ := ih
      obtain ⟨node, found⟩ := numbered.inner _ (numbered.kind_eq entry ▸ held)
      exact numbered_of_cell? found

/-- What it is for an arena to be a copy of a document. Positions are in range, each is held at most
once, and those of the root and of the blocks not at all; the root and the blocks are read as the
content of the document and of the last block of each name, which is also what is played; and all
that is reached from them is numbered by its place, modulo the size of a word. -/
structure Faithful (d : Document) (arena : Arena) : Prop where
  root_lt : arena.root < arena.table.size
  block_lt : ∀ name id, arena.block? name = some id → id < arena.table.size
  stored_lt : ∀ id ∈ stored arena.table, id < arena.table.size
  once : ∀ id, (stored arena.table).count id ≤ 1
  root_free : arena.root ∉ stored arena.table
  block_free : ∀ name id, arena.block? name = some id → id ∉ stored arena.table
  document : ∃ ids, arena.kind? arena.root = some (.document ids) ∧
    ids.mapM arena.cell? = some (Script.ofDocument d).content ∧
    Cell.nodes (Script.ofDocument d).content = d.content
  absent : ∀ name, arena.block? name = none ↔ ∀ block ∈ d.blocks, block.name ≠ name
  block : ∀ earlier block later, d.blocks = earlier ++ block :: later →
    (∀ other ∈ later, other.name ≠ block.name) →
    ∃ id ids cells index, arena.block? block.name = some id ∧
      arena.kind? id = some (.block block.name ids) ∧ ids.mapM arena.cell? = some cells ∧
      (Script.ofDocument d).block? block.name = some ⟨index, block.name, cells⟩ ∧
      Cell.nodes cells = block.content
  index : ∀ id number, Reaches d arena id number → arena.index? id = some (UInt64.ofNat number)

theorem faithful_ofDocument (d : Document) : (ofDocument d).Faithful d := by
  obtain ⟨ids, slots, copied⟩ := exists_copied d
  have root : (ofDocument d).root ∈ 0 :: slots := by
    rw [copied.root]
    exact List.mem_cons_self
  constructor
  case root_lt => exact copied.lt_size root
  case block_lt => exact fun name id found => copied.lt_size (copied.mem_slots found)
  case stored_lt => exact fun id => copied.stored_lt_size
  case once => exact copied.count_le_one
  case root_free => exact copied.not_mem_stored root
  case block_free => exact fun name id found => copied.not_mem_stored (copied.mem_slots found)
  case document =>
    refine ⟨ids, ?_, mapM_eq_some_iff.2 copied.content, Cell.nodes_ofNodes _ 0 d.content⟩
    rw [kind?, copied.root, copied.document]
    rfl
  case absent =>
    intro name
    rw [← Script.block?_eq_none_iff]
    rcases copied.block_cases name with ⟨here, there⟩ | ⟨slot, -, block, here, there, -⟩
    · simp [here, there]
    · simp [here, there]
  case block =>
    intro earlier block later split last
    have script := Script.block?_of_last split last
    obtain ⟨slot, found, ids, entry, reads⟩ := copied.shows_of_block? script
    refine ⟨slot, ids, _, _, found, ?_, mapM_eq_some_iff.2 reads, script, Cell.nodes_ofNodes ..⟩
    rw [kind?, entry]
    rfl
  case index =>
    intro id number reached
    obtain ⟨kind, numbered⟩ := copied.numbered_of_reaches reached
    rw [index?, numbered.entry]
    rfl

end Arena
end Dialogue
