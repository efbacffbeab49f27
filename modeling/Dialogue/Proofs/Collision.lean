import Dialogue.Proofs.Numbering
import Mathlib.Algebra.Group.Nat.Defs
import Mathlib.Logic.Relation

/-! Structural indices as keys. As long as no list is too long for its digits, one for a child and
two for an item, two entries of the same number enclose each other, through conditions, actions and
options; so no two options, and no two variations, have the same number, and they have the same
index only if one of their numbers is too large for a word. -/
namespace Dialogue

mutual

/-- Whether nothing below a node has more than ten children or more than a hundred items. -/
def Node.isNarrow : Node → Bool
  | .content nodes | .option _ _ _ nodes => decide (nodes.length ≤ 10) && areNarrow nodes
  | .options _ _ items => decide (items.length ≤ 100) && areNarrow items
  | .variations _ alternatives =>
      decide (alternatives.length ≤ 100) && areNarrowAlternatives alternatives
  | .conditional _ body | .acting _ body => body.isNarrow
  | .line .. | .divert _ | .act _ => true

def Node.areNarrow : List Node → Bool
  | [] => true
  | node :: rest => node.isNarrow && areNarrow rest

def Node.areNarrowAlternatives : List (List Node) → Bool
  | [] => true
  | nodes :: rest =>
      decide (nodes.length ≤ 10) && areNarrow nodes && areNarrowAlternatives rest

end

/-- Whether a document has at most ten top-level nodes and blocks together, no block, content,
option or alternative in it has more than ten children, and no list of options or variation in it
more than a hundred items. -/
def Document.isNarrow (d : Document) : Bool :=
  decide (d.content.length + d.blocks.length ≤ 10) && Node.areNarrow d.content &&
    d.blocks.all fun block =>
      decide (block.content.length ≤ 10) && Node.areNarrow block.content

namespace Arena

/-! Lengths. -/

/-- Whether an entry holds no more than there are digits for. -/
def Kind.Narrow (kind : Kind) : Prop := kind.children.length ≤ 10 ∧ kind.items.length ≤ 100

def Narrow (table : Array Entry) : Prop :=
  ∀ (i : Nat) (entry : Entry), table[i]? = some entry → entry.kind.Narrow

theorem Narrow.push {table : Array Entry} (narrow : Narrow table) (index : UInt64) {kind : Kind}
    (fits : kind.Narrow) : Narrow (table.push ⟨index, kind⟩) := by
  intro i entry found
  rw [Array.getElem?_push] at found
  split at found
  · obtain rfl := Option.some.inj found
    exact fits
  · exact narrow i entry found

theorem Narrow.set {table : Array Entry} (narrow : Narrow table) (id : Nat) (index : UInt64)
    {kind : Kind} (fits : kind.Narrow) : Narrow (table.setIfInBounds id ⟨index, kind⟩) := by
  intro i entry found
  rw [Array.getElem?_setIfInBounds] at found
  split at found
  · obtain ⟨-, same⟩ := Option.ite_none_right_eq_some.1 found
    obtain rfl := Option.some.inj same
    exact fits
  · exact narrow i entry found

theorem length_addAll (number : Nat → UInt64) (position : Nat) (nodes : List Node)
    (table : Array Entry) : (addAll number position nodes table).1.length = nodes.length := by
  induction nodes generalizing position table with
  | nil => rfl
  | cons node rest ih => simp only [addAll, List.length_cons, ih]

theorem length_addAlternatives (parent : UInt64) (position : Nat) (alternatives : List (List Node))
    (table : Array Entry) :
    (addAlternatives parent position alternatives table).1.length = alternatives.length := by
  induction alternatives generalizing position table with
  | nil => rfl
  | cons nodes rest ih => simp only [addAlternatives, List.length_cons, ih]

theorem narrow_content (number : Nat → UInt64) (position : Nat) {nodes : List Node}
    (short : nodes.length ≤ 10) (table : Array Entry) :
    Kind.Narrow (.content (addAll number position nodes table).1) :=
  ⟨Nat.le_trans (Nat.le_of_eq (length_addAll ..)) short, Nat.zero_le _⟩

mutual

theorem narrow_add (index : UInt64) {node : Node} (fits : node.isNarrow = true)
    {table : Array Entry} (before : Narrow table) : Narrow (add index node table).2 := by
  match node with
  | .content nodes =>
      simp only [Node.isNarrow, Bool.and_eq_true, decide_eq_true_eq] at fits
      exact (narrow_addAll _ 0 fits.2 before).push index
        (narrow_content _ 0 fits.1 table)
  | .option name mode marks nodes =>
      simp only [Node.isNarrow, Bool.and_eq_true, decide_eq_true_eq] at fits
      have content := (narrow_addAll (Cell.childIndex index) 0 fits.2 before).push index
        (narrow_content (Cell.childIndex index) 0 fits.1 table)
      exact content.push index ⟨Nat.zero_le _, Nat.zero_le _⟩
  | .options name marks items =>
      simp only [Node.isNarrow, Bool.and_eq_true, decide_eq_true_eq] at fits
      exact (narrow_addAll _ 0 fits.2 before).push index
        ⟨Nat.zero_le _, Nat.le_trans (Nat.le_of_eq (length_addAll ..)) fits.1⟩
  | .variations mode alternatives =>
      simp only [Node.isNarrow, Bool.and_eq_true, decide_eq_true_eq] at fits
      exact (narrow_addAlternatives index 0 fits.2 before).push index
        ⟨Nat.zero_le _, Nat.le_trans (Nat.le_of_eq (length_addAlternatives ..)) fits.1⟩
  | .conditional condition body | .acting action body =>
      have inner : body.isNarrow = true := fits
      exact (narrow_add index inner before).push index ⟨Nat.zero_le _, Nat.zero_le _⟩
  | .line text marks | .divert target | .act action =>
      exact before.push index ⟨Nat.zero_le _, Nat.zero_le _⟩

theorem narrow_addAll (number : Nat → UInt64) (position : Nat) {nodes : List Node}
    (fits : Node.areNarrow nodes = true) {table : Array Entry} (before : Narrow table) :
    Narrow (addAll number position nodes table).2 := by
  match nodes with
  | [] => exact before
  | node :: rest =>
      obtain ⟨first, others⟩ := Bool.and_eq_true_iff.1 fits
      exact narrow_addAll number (position + 1) others (narrow_add (number position) first before)

theorem narrow_addAlternatives (parent : UInt64) (position : Nat) {alternatives : List (List Node)}
    (fits : Node.areNarrowAlternatives alternatives = true) {table : Array Entry}
    (before : Narrow table) : Narrow (addAlternatives parent position alternatives table).2 := by
  match alternatives with
  | [] => exact before
  | nodes :: rest =>
      simp only [Node.areNarrowAlternatives, Bool.and_eq_true, decide_eq_true_eq] at fits
      have first := (narrow_addAll (Cell.childIndex (Cell.itemIndex parent position)) 0 fits.1.2
        before).push (Cell.itemIndex parent position)
        (narrow_content (Cell.childIndex (Cell.itemIndex parent position)) 0 fits.1.1 table)
      exact narrow_addAlternatives parent (position + 1) fits.2 first

end

theorem narrow_addBlocks (position : Nat) {blocks : List Block} {arena : Arena}
    (fits : ∀ block ∈ blocks, block.content.length ≤ 10 ∧ Node.areNarrow block.content = true)
    (before : Narrow arena.table) : Narrow (addBlocks position blocks arena).table := by
  induction blocks generalizing position arena with
  | nil => exact before
  | cons block rest ih =>
      obtain ⟨⟨short, below⟩, others⟩ := List.forall_mem_cons.1 fits
      have reserved : Narrow
          (arena.table.push (reserved (Cell.childIndex Script.rootIndex position))) :=
        before.push _ ⟨Nat.zero_le _, Nat.zero_le _⟩
      refine ih (position + 1) others ?_
      exact (narrow_addAll _ 0 below reserved).set _ _
        ⟨Nat.le_trans (Nat.le_of_eq (length_addAll ..)) short, Nat.zero_le _⟩

theorem narrow_ofDocument {d : Document} (fits : d.isNarrow = true) :
    Narrow (ofDocument d).table := by
  simp only [Document.isNarrow, Bool.and_eq_true, decide_eq_true_eq, List.all_eq_true] at fits
  obtain ⟨⟨short, content⟩, blocks⟩ := fits
  have empty : Narrow #[] := nofun
  have reserved : Narrow #[reserved Script.rootIndex] :=
    empty.push _ ⟨Nat.zero_le _, Nat.zero_le _⟩
  have above := narrow_addAll (Cell.childIndex Script.rootIndex) 0 content reserved
  have whole : Narrow (addBlocks d.content.length d.blocks { table := (top d).2 }).table :=
    narrow_addBlocks d.content.length blocks above
  refine whole.set _ _ ⟨?_, Nat.zero_le _⟩
  have length := length_addAll (Cell.childIndex Script.rootIndex) 0 d.content
    #[Arena.reserved Script.rootIndex]
  simp only [Kind.children]
  omega

/-! Entries of the same number. -/

/-- Whether an entry is right inside another: the content of an option, or what is under a condition
or an action. -/
def Within (arena : Arena) (outer inner : Nat) : Prop :=
  ∃ kind, arena.kind? outer = some kind ∧ kind.inner? = some inner

/-- Whether nothing is right inside an entry. -/
def Leaf (arena : Arena) (id : Nat) : Prop := ∀ inner, ¬ arena.Within id inner

theorem within_unique (arena : Arena) : Relator.RightUnique arena.Within := by
  rintro outer first second ⟨kind, entry, held⟩ ⟨other, found, again⟩
  obtain rfl := Option.some.inj (entry.symm.trans found)
  exact Option.some.inj (held.symm.trans again)

theorem leaf_of_kind? {arena : Arena} {id : Nat} {kind : Kind} (entry : arena.kind? id = some kind)
    (bare : kind.inner? = none) : arena.Leaf id := by
  rintro inner ⟨other, found, held⟩
  obtain rfl := Option.some.inj (entry.symm.trans found)
  rw [bare] at held
  cases held

theorem Leaf.eq {arena : Arena} {id inner : Nat} (leaf : arena.Leaf id)
    (inside : Relation.ReflTransGen arena.Within id inner) : id = inner := by
  rcases inside.cases_head with same | ⟨next, within, -⟩
  · exact same
  · exact absurd within (leaf next)

theorem Leaf.unique {arena : Arena} {outer first second : Nat} (here : arena.Leaf first)
    (there : arena.Leaf second) (inside : Relation.ReflTransGen arena.Within outer first)
    (again : Relation.ReflTransGen arena.Within outer second) : first = second := by
  rcases inside.total_of_right_unique (within_unique arena) again with down | up
  · exact here.eq down
  · exact (there.eq up).symm

/-- What is at a position among the children of an entry of a number. The blocks are children of
the document, after its content. -/
inductive Child (d : Document) (number position id : Nat) : Prop
  | block {slot : Nat} (held : (blockIds d)[slot]? = some id) (top : number = 1)
      (after : position = d.content.length + slot) : Child d number position id
  | entry {parent : Nat} {kind : Kind} (above : Placed d parent number)
      (entry : (ofDocument d).kind? parent = some kind)
      (held : kind.children[position]? = some id) : Child d number position id

/-- What is at a position among the items of an entry of a number. -/
structure Item (d : Document) (number position id parent : Nat) (kind : Kind) : Prop where
  above : Placed d parent number
  entry : (ofDocument d).kind? parent = some kind
  held : kind.items[position]? = some id

/-- The entries that have their number from where they stand, and not from what they are inside. -/
inductive Starts (d : Document) (id number : Nat) : Prop
  | root (top : id = (ofDocument d).root) (one : number = 1) : Starts d id number
  | child {above position : Nat} (child : Child d above position id)
      (same : number = 10 * above + position) : Starts d id number
  | item {above position parent : Nat} {kind : Kind} (item : Item d above position id parent kind)
      (same : number = 100 * above + position) : Starts d id number

/-- Whether no two entries start with the same number. -/
def Single (d : Document) (number : Nat) : Prop :=
  ∀ first second, Starts d first number → Starts d second number → first = second

section
variable {d : Document} {id number : Nat}

theorem Placed.exists_starts (placed : Placed d id number) :
    ∃ outer, Starts d outer number ∧ Relation.ReflTransGen (ofDocument d).Within outer id := by
  induction placed with
  | root => exact ⟨_, .root rfl rfl, .refl⟩
  | block held => exact ⟨_, .child (.block held rfl rfl) rfl, .refl⟩
  | held above entry numbers ih =>
      cases numbers with
      | child held => exact ⟨_, .child (.entry above entry held) rfl, .refl⟩
      | item held => exact ⟨_, .item ⟨above, entry, held⟩ rfl, .refl⟩
      | inner held =>
          obtain ⟨outer, starts, inside⟩ := ih
          exact ⟨outer, starts, inside.tail ⟨_, entry, held⟩⟩

theorem Child.placed {position : Nat} (child : Child d number position id) :
    ∃ parent, Placed d parent number := by
  cases child with
  | block held top after =>
      rw [top]
      exact ⟨_, .root⟩
  | entry above entry held => exact ⟨_, above⟩

theorem kind?_root (d : Document) :
    (ofDocument d).kind? (ofDocument d).root = some (.document (top d).1) := by
  rw [kind?, (copied_blockIds d).root, (copied_blockIds d).document]
  rfl

theorem Single.leaf_unique (single : Single d number) {first second : Nat}
    (here : Placed d first number) (there : Placed d second number)
    (leaf : (ofDocument d).Leaf first) (bare : (ofDocument d).Leaf second) : first = second := by
  obtain ⟨outer, starts, inside⟩ := here.exists_starts
  obtain ⟨other, begins, within⟩ := there.exists_starts
  obtain rfl := single outer other starts begins
  exact leaf.unique bare inside within

/-- A leaf of the number of the document is the document. -/
theorem Single.kind_eq_document (single : Single d 1) {kind : Kind} (placed : Placed d id 1)
    (entry : (ofDocument d).kind? id = some kind) (bare : kind.inner? = none) :
    kind = .document (top d).1 := by
  have root := kind?_root d
  obtain rfl := single.leaf_unique placed .root (leaf_of_kind? entry bare) (leaf_of_kind? root rfl)
  exact Option.some.inj (entry.symm.trans root)

theorem Single.child_unique (single : Single d number) {position first second : Nat}
    (here : Child d number position first) (there : Child d number position second) :
    first = second := by
  have length := length_addAll (Cell.childIndex Script.rootIndex) 0 d.content
    #[reserved Script.rootIndex]
  -- a child of the document itself is at a position before those of the blocks
  have early : ∀ {parent child : Nat} {kind : Kind}, number = 1 → Placed d parent number →
      (ofDocument d).kind? parent = some kind → kind.children[position]? = some child →
      position < d.content.length := by
    rintro parent child kind rfl above entry held
    obtain rfl := single.kind_eq_document above entry (Kind.leaf_of_children held).1
    exact length ▸ (List.getElem?_eq_some_iff.1 held).1
  cases here with
  | block held top after =>
      cases there with
      | block again _ also =>
          obtain rfl := Nat.add_left_cancel (after.symm.trans also)
          exact Option.some.inj (held.symm.trans again)
      | entry above entry again =>
          have less := early top above entry again
          omega
  | entry above entry held =>
      cases there with
      | block again top after =>
          have less := early top above entry held
          omega
      | entry other found again =>
          obtain rfl := single.leaf_unique above other
            (leaf_of_kind? entry (Kind.leaf_of_children held).1)
            (leaf_of_kind? found (Kind.leaf_of_children again).1)
          obtain rfl := Option.some.inj (entry.symm.trans found)
          exact Option.some.inj (held.symm.trans again)

theorem Single.item_unique (single : Single d number) {position first second parent other : Nat}
    {kind more : Kind} (here : Item d number position first parent kind)
    (there : Item d number position second other more) : first = second := by
  obtain rfl := single.leaf_unique here.above there.above
    (leaf_of_kind? here.entry (Kind.leaf_of_items here.held))
    (leaf_of_kind? there.entry (Kind.leaf_of_items there.held))
  obtain rfl := Option.some.inj (here.entry.symm.trans there.entry)
  exact Option.some.inj (here.held.symm.trans there.held)

/-- No number is one with children and one with items as well. -/
theorem Single.not_both (single : Single d number) {position other first second parent : Nat}
    {kind : Kind} (child : Child d number position first)
    (item : Item d number other second parent kind) : False := by
  have bare := Kind.leaf_of_items item.held
  cases child with
  | block held top after =>
      subst top
      obtain rfl := single.kind_eq_document item.above item.entry bare
      cases item.held
  | entry above entry held =>
      obtain ⟨leaf, empty⟩ := Kind.leaf_of_children held
      obtain rfl := single.leaf_unique above item.above (leaf_of_kind? entry leaf)
        (leaf_of_kind? item.entry bare)
      obtain rfl := Option.some.inj (entry.symm.trans item.entry)
      simpa [empty] using item.held

theorem Child.lt_ten (narrow : d.isNarrow = true) {position : Nat}
    (child : Child d number position id) : position < 10 := by
  cases child with
  | block held top after =>
      have inside := (List.getElem?_eq_some_iff.1 held).1
      have length := (copied_blockIds d).blocks.length_eq
      have blocks : (Script.ofDocument d).blocks.length = d.blocks.length := by
        have names := congrArg List.length (Script.map_name_ofBlocks d.content.length d.blocks)
        rwa [List.length_map, List.length_map] at names
      simp only [Document.isNarrow, Bool.and_eq_true, decide_eq_true_eq] at narrow
      omega
  | entry above entry held =>
      obtain ⟨index, found⟩ := entry_of_kind? entry
      have short := (narrow_ofDocument narrow _ _ found).1
      exact Nat.lt_of_lt_of_le (List.getElem?_eq_some_iff.1 held).1 short

theorem Item.lt_hundred (narrow : d.isNarrow = true) {position parent : Nat} {kind : Kind}
    (item : Item d number position id parent kind) : position < 100 := by
  obtain ⟨index, found⟩ := entry_of_kind? item.entry
  have short := (narrow_ofDocument narrow _ _ found).2
  exact Nat.lt_of_lt_of_le (List.getElem?_eq_some_iff.1 item.held).1 short

/-- A number other than that of the document ends in the digit of a child or the two digits of an
item, and without them is that of what holds it. -/
theorem Placed.descends (narrow : d.isNarrow = true) (placed : Placed d id number) :
    number = 1 ∨ (∃ position id, Child d (number / 10) position id) ∨
      ∃ position id parent kind, Item d (number / 100) position id parent kind := by
  obtain ⟨outer, starts, -⟩ := placed.exists_starts
  cases starts with
  | root top one => exact .inl one
  | @child above position child same =>
      have digit := child.lt_ten narrow
      have shorter : number / 10 = above := by omega
      exact .inr (.inl ⟨position, outer, shorter ▸ child⟩)
  | @item above position parent kind item same =>
      have digits := item.lt_hundred narrow
      have shorter : number / 100 = above := by omega
      exact .inr (.inr ⟨position, outer, parent, kind, shorter ▸ item⟩)

/-- Two numbers of which one has a digit more than the other are not both numbers with items. If
they were, both would end in the digits of an item, as the longer cannot end in the digit of a
child; and without these digits they are again two such numbers. -/
theorem items_apart (narrow : d.isNarrow = true) {position other first second parent further : Nat}
    {kind more : Kind} (single : ∀ less ≤ number, Single d less)
    (long : Item d number position first parent kind)
    (short : Item d (number / 10) other second further more) : False := by
  induction number using Nat.strongRecOn generalizing position other first second parent further
    kind more with
  | ind number ih =>
      have positive := short.above.pos
      rcases long.above.descends narrow with rfl | ⟨_, _, child⟩ | ⟨_, _, _, _, item⟩
      · omega
      · exact (single _ (Nat.div_le_self _ _)).not_both child short
      · have digits : number / 100 = number / 10 / 10 := by omega
        rw [digits] at item
        exact ih (number / 10) (by omega) (fun less bound => single less (by omega)) short item

/-- A number with children has no digit more than one with items. -/
theorem child_item_apart (narrow : d.isNarrow = true)
    {position other first second parent : Nat} {kind : Kind}
    (single : ∀ less ≤ number, Single d less) (long : Child d number position first)
    (short : Item d (number / 10) other second parent kind) : False := by
  have positive := short.above.pos
  obtain ⟨above, placed⟩ := long.placed
  rcases placed.descends narrow with rfl | ⟨_, _, child⟩ | ⟨_, _, _, _, item⟩
  · omega
  · exact (single _ (Nat.div_le_self _ _)).not_both child short
  · have digits : number / 100 = number / 10 / 10 := by omega
    rw [digits] at item
    exact items_apart narrow (fun less bound => single less (by omega)) short item

theorem single_of_isNarrow (narrow : d.isNarrow = true) (number : Nat) : Single d number := by
  induction number using Nat.strongRecOn with
  | ind number ih =>
      intro first second here there
      cases here with
      | root top one =>
          cases there with
          | root also _ => exact top.trans also.symm
          | child child same =>
              obtain ⟨parent, placed⟩ := child.placed
              have positive := placed.pos
              omega
          | item item same =>
              have positive := item.above.pos
              omega
      | @child above position child same =>
          obtain ⟨parent, placed⟩ := child.placed
          have positive := placed.pos
          have digit := child.lt_ten narrow
          cases there with
          | root also one => omega
          | @child other place again more =>
              have also := again.lt_ten narrow
              obtain rfl : other = above := by omega
              obtain rfl : place = position := by omega
              exact (ih other (by omega)).child_unique child again
          | @item other place parent kind item more =>
              have also := item.lt_hundred narrow
              obtain rfl : other = above / 10 := by omega
              exact (child_item_apart narrow (fun less bound => ih less (by omega)) child item).elim
      | @item above position parent kind item same =>
          have positive := item.above.pos
          have digits := item.lt_hundred narrow
          cases there with
          | root also one => omega
          | @child other place again more =>
              have also := again.lt_ten narrow
              obtain rfl : above = other / 10 := by omega
              exact (child_item_apart narrow (fun less bound => ih less (by omega)) again item).elim
          | @item other place parent kind again more =>
              have also := again.lt_hundred narrow
              obtain rfl : other = above := by omega
              obtain rfl : place = position := by omega
              exact (ih other (by omega)).item_unique item again

/-- What is right inside an option is content. -/
theorem Placed.content_of_option (placed : Placed d id number) {name : String} {mode : OptionMode}
    {marks : Marks} {content : Nat}
    (entry : (ofDocument d).kind? id = some (.option name mode marks content)) :
    ∃ ids, (ofDocument d).kind? content = some (.content ids) := by
  cases placed with
  | root => cases (kind?_root d).symm.trans entry
  | block held =>
      obtain ⟨name, ids, numbered⟩ := numbered_of_block held
      cases numbered.kind_eq entry
  | held above found numbers =>
      obtain ⟨kind, numbered⟩ := above.numbered
      obtain rfl := numbered.kind_eq found
      obtain ⟨node, found⟩ := numbered.of_numbers numbers
      generalize Cell.ofNode _ node = cell at found
      obtain ⟨same, there, holds⟩ := holds_of_cell? found
      rw [kind?, there] at entry
      obtain rfl := Option.some.inj entry
      cases holds with
      | option index name mode marks below =>
          obtain ⟨inside, place, content⟩ := holds_of_cell? (reads_singleton.1 below)
          cases content with
          | content index reads => exact ⟨_, by rw [kind?, place]; rfl⟩

theorem Placed.option_eq (placed : Placed d id number) {inner : Nat} {kind more : Kind}
    (here : (ofDocument d).kind? id = some kind) (option : kind.isOption = true)
    (there : (ofDocument d).kind? inner = some more) (also : more.isOption = true)
    (inside : Relation.ReflTransGen (ofDocument d).Within id inner) : id = inner := by
  cases kind with
  | option name mode marks content =>
      rcases inside.cases_head with same | ⟨next, ⟨kind, entry, held⟩, further⟩
      · exact same
      · obtain rfl := Option.some.inj (here.symm.trans entry)
        obtain rfl := Option.some.inj held
        obtain ⟨ids, found⟩ := placed.content_of_option here
        obtain rfl := (leaf_of_kind? found rfl).eq further
        obtain rfl := Option.some.inj (found.symm.trans there)
        cases also
  | _ => cases option

theorem Single.eq_of_alike (single : Single d number) {first second : Nat} {kind more : Kind}
    (here : Placed d first number) (there : Placed d second number)
    (entry : (ofDocument d).kind? first = some kind)
    (found : (ofDocument d).kind? second = some more)
    (alike : kind.isOption = true ∧ more.isOption = true ∨
      kind.isVariations = true ∧ more.isVariations = true) : first = second := by
  rcases alike with ⟨option, also⟩ | ⟨variations, also⟩
  · obtain ⟨outer, starts, inside⟩ := here.exists_starts
    obtain ⟨other, begins, within⟩ := there.exists_starts
    obtain rfl := single outer other starts begins
    rcases inside.total_of_right_unique (within_unique _) within with down | up
    · exact here.option_eq entry option found also down
    · exact (there.option_eq found also entry option up).symm
  · refine single.leaf_unique here there (leaf_of_kind? entry ?_) (leaf_of_kind? found ?_)
    · exact Kind.leaf_of_isVariations variations
    · exact Kind.leaf_of_isVariations also

end

/-- Whether an entry has a number by its place, and no other. -/
def Exact (d : Document) (id number : Nat) : Prop := ∀ other, Placed d id other ↔ other = number

theorem exact_of_kind? {d : Document} {id : Nat} {kind : Kind}
    (entry : (ofDocument d).kind? id = some kind) : ∃ number, Exact d id number := by
  obtain ⟨index, found⟩ := entry_of_kind? entry
  obtain ⟨number, placed⟩ := exists_placed (Array.getElem?_eq_some_iff.1 found).1
  refine ⟨number, fun other => ⟨fun again => again.unique placed, ?_⟩⟩
  rintro rfl
  exact placed

/-- Two options, or two variations, of the same index do not fit the numbering: the document has too
many nodes and blocks, or something in it too many children or items, or the exact number of one of
the two is too large for a word. -/
theorem overflow_of_index?_eq {d : Document} {first second : Nat} {kind more : Kind}
    (different : first ≠ second) (here : (ofDocument d).kind? first = some kind)
    (there : (ofDocument d).kind? second = some more)
    (alike : kind.isOption = true ∧ more.isOption = true ∨
      kind.isVariations = true ∧ more.isVariations = true)
    (same : (ofDocument d).index? first = (ofDocument d).index? second) :
    ∃ m n, Exact d first m ∧ Exact d second n ∧
      (d.isNarrow = false ∨ 2 ^ 64 ≤ m ∨ 2 ^ 64 ≤ n) := by
  obtain ⟨m, one⟩ := exact_of_kind? here
  obtain ⟨n, other⟩ := exact_of_kind? there
  refine ⟨m, n, one, other, ?_⟩
  have placed := (one m).2 rfl
  have also := (other n).2 rfl
  by_contra fits
  simp only [not_or, Bool.not_eq_false, Nat.not_le] at fits
  obtain ⟨narrow, small, little⟩ := fits
  rw [placed.index?, also.index?] at same
  have equal : m = n := by
    have words := congrArg UInt64.toNat (Option.some.inj same)
    rwa [UInt64.toNat_ofNat_of_lt' small, UInt64.toNat_ofNat_of_lt' little] at words
  subst equal
  exact different ((single_of_isNarrow narrow m).eq_of_alike placed also here there alike)

/-- Eleven nodes under one condition and one under the next. -/
def crowded : Document :=
  let list : Node := .options none {} [.option "Leave" .once {} []]
  let lines : List Node := List.replicate 10 (.line "..." {})
  { content := [
      .conditional (.variable "early") (.content (lines ++ [list])),
      .conditional (.variable "late") (.content [list])] }

theorem overflow_of_index?_eq_crowded :
    (ofDocument crowded).kind? 12 = some (.option "Leave" .once {} 11) ∧
      (ofDocument crowded).kind? 17 = some (.option "Leave" .once {} 16) ∧
      (ofDocument crowded).index? 12 = (ofDocument crowded).index? 17 ∧
      ∃ m n, Exact crowded 12 m ∧ Exact crowded 17 n ∧
        (crowded.isNarrow = false ∨ 2 ^ 64 ≤ m ∨ 2 ^ 64 ≤ n) :=
  ⟨rfl, rfl, rfl, overflow_of_index?_eq (by decide) rfl rfl (.inl ⟨rfl, rfl⟩) rfl⟩

end Arena
end Dialogue
