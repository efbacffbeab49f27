import Dialogue.Proofs.Arena
import Mathlib.Data.List.Nodup

/-! The numbers of entries. Every entry of the arena of a document has one exact number by its
place, those of blocks that no name leads to included, and its index is that number modulo the size
of a word. -/
namespace Dialogue
namespace Arena

/-- The numbers that an entry of some number gives to what it holds. -/
inductive Kind.Numbers (kind : Kind) (number : Nat) : Nat → Nat → Prop
  | child {position id : Nat} (held : kind.children[position]? = some id) :
      Numbers kind number id (10 * number + position)
  | item {position id : Nat} (held : kind.items[position]? = some id) :
      Numbers kind number id (100 * number + position)
  | inner {id : Nat} (held : kind.inner? = some id) : Numbers kind number id number

/-- The entries of the arena of a document with the number that each has by its place. -/
inductive Placed (d : Document) : Nat → Nat → Prop
  | root : Placed d (ofDocument d).root 1
  | block {position id : Nat} (held : (blockIds d)[position]? = some id) :
      Placed d id (10 * 1 + (d.content.length + position))
  | held {id number other further : Nat} {kind : Kind} (above : Placed d id number)
      (entry : (ofDocument d).kind? id = some kind) (numbers : kind.Numbers number other further) :
      Placed d other further

namespace Kind

variable {kind : Kind}

def isOption : Kind → Bool
  | option .. => true
  | _ => false

def isVariations : Kind → Bool
  | variations .. => true
  | _ => false

theorem leaf_of_children {position id : Nat} (held : kind.children[position]? = some id) :
    kind.inner? = none ∧ kind.items = [] := by
  cases kind with
  | document ids | block name ids | content ids => exact ⟨rfl, rfl⟩
  | _ => cases held

theorem leaf_of_items {position id : Nat} (held : kind.items[position]? = some id) :
    kind.inner? = none := by
  cases kind with
  | options name marks ids | variations mode ids => rfl
  | _ => cases held

theorem leaf_of_isVariations (variations : kind.isVariations = true) : kind.inner? = none := by
  cases kind with
  | variations mode ids => rfl
  | _ => cases variations

theorem mem_stored_iff {id : Nat} :
    id ∈ kind.stored ↔ id ∈ kind.children ∨ id ∈ kind.items ∨ kind.inner? = some id := by
  simp [stored]

end Kind

/-! Every entry has a number. -/

/-- Whether a property passes from the entries of a table to all that they hold. -/
def Passes (table : Array Entry) (P : Nat → Prop) : Prop :=
  ∀ (id : Nat) (entry : Entry), table[id]? = some entry → P id →
    ∀ held ∈ entry.kind.stored, P held

/-- What adding to a table does: a property that passes on is passed to every new position from
those that are handed back. -/
structure Covers (before after : Array Entry) (ids : List Nat) : Prop
    extends Takes before after ids where
  covers : ∀ (table : Array Entry) (P : Nat → Prop),
    (∀ i, before.size ≤ i → i < after.size → table[i]? = after[i]?) → Passes table P →
    (∀ id ∈ ids, P id) → ∀ i, before.size ≤ i → i < after.size → P i

namespace Covers

theorem nil (table : Array Entry) : Covers table table [] where
  toTakes := Takes.nil table
  covers _ _ _ _ _ i low high := by omega

theorem append {before middle after : Array Entry} {ids others : List Nat}
    (first : Covers before middle ids) (second : Covers middle after others) :
    Covers before after (ids ++ others) where
  toTakes := first.toTakes.append second.toTakes
  covers table P same passes held i low high := by
    have lower := first.size_le
    have upper := second.size_le
    obtain ⟨here, there⟩ := List.forall_mem_append.1 held
    by_cases early : i < middle.size
    · refine first.covers table P ?_ passes here i low early
      intro j low high
      rw [same j low (by omega), second.kept j high]
    · refine second.covers table P ?_ passes there i (by omega) high
      intro j low high
      exact same j (by omega) high

theorem push {before after : Array Entry} {ids : List Nat} (below : Covers before after ids)
    (entry : Entry) (held : entry.kind.stored = ids) :
    Covers before (after.push entry) [after.size] where
  toTakes := below.toTakes.push held
  covers table P same passes top i low high := by
    have lower := below.size_le
    rw [Array.size_push] at same high
    have last : P after.size := top _ List.mem_cons_self
    have entered : table[after.size]? = some entry := by
      rw [same _ lower (Nat.lt_succ_self _), Array.getElem?_push, if_pos rfl]
    by_cases new : i = after.size
    · rw [new]
      exact last
    · refine below.covers table P ?_ passes ?_ i low (by omega)
      · intro j low high
        rw [same j low (by omega), Array.getElem?_push, if_neg (by omega)]
      · rw [← held]
        exact passes _ entry entered last

/-- A position that was reserved is filled in with some of those handed back since. -/
theorem fill (table : Array Entry) {after : Array Entry} {ids : List Nat} (others : List Nat)
    {index : UInt64} (grown : Covers (table.push (reserved index)) after (ids ++ others))
    (entry : Entry) (held : entry.kind.stored = ids) :
    Covers table (after.setIfInBounds table.size entry) (table.size :: others) where
  toTakes := Takes.fill grown.toTakes held
  covers final P same passes top i low high := by
    have lower := grown.size_le
    have since := grown.covers final P
    rw [Array.size_push] at lower since
    rw [Array.size_setIfInBounds] at same high
    obtain ⟨first, rest⟩ := List.forall_mem_cons.1 top
    have entered : final[table.size]? = some entry := by
      rw [same _ (Nat.le_refl _) lower, Array.getElem?_setIfInBounds, if_pos rfl,
        if_pos (Nat.lt_of_succ_le lower)]
    by_cases new : i = table.size
    · rw [new]
      exact first
    · refine since ?_ passes ?_ i (by omega) high
      · intro j low high
        rw [same j (by omega) high, Array.getElem?_setIfInBounds, if_neg (by omega)]
      · refine List.forall_mem_append.2 ⟨?_, rest⟩
        rw [← held]
        exact passes _ entry entered first

end Covers

mutual

theorem covers_add (index : UInt64) (node : Node) (table : Array Entry) :
    Covers table (add index node table).2 [(add index node table).1] := by
  match node with
  | .content nodes =>
      exact (covers_addAll (Cell.childIndex index) 0 nodes table).push _ (Kind.stored_content _)
  | .options name marks items =>
      exact (covers_addAll (Cell.itemIndex index) 0 items table).push _ (Kind.stored_options ..)
  | .option name mode marks nodes =>
      have below := covers_addAll (Cell.childIndex index) 0 nodes table
      have content := below.push ⟨index, .content _⟩ (Kind.stored_content _)
      exact content.push _ rfl
  | .variations mode alternatives =>
      exact (covers_addAlternatives index 0 alternatives table).push _ (Kind.stored_variations ..)
  | .conditional condition body | .acting action body =>
      exact (covers_add index body table).push _ rfl
  | .line text marks | .divert target | .act action => exact (Covers.nil table).push _ rfl

theorem covers_addAll (number : Nat → UInt64) (position : Nat) (nodes : List Node)
    (table : Array Entry) :
    Covers table (addAll number position nodes table).2 (addAll number position nodes table).1 := by
  match nodes with
  | [] => exact Covers.nil table
  | node :: rest =>
      have first := covers_add (number position) node table
      exact first.append (covers_addAll number (position + 1) rest _)

theorem covers_addAlternatives (parent : UInt64) (position : Nat) (alternatives : List (List Node))
    (table : Array Entry) :
    Covers table (addAlternatives parent position alternatives table).2
      (addAlternatives parent position alternatives table).1 := by
  match alternatives with
  | [] => exact Covers.nil table
  | nodes :: rest =>
      have below := covers_addAll (Cell.childIndex (Cell.itemIndex parent position)) 0 nodes table
      have first := below.push ⟨Cell.itemIndex parent position, .content _⟩ (Kind.stored_content _)
      exact first.append (covers_addAlternatives parent (position + 1) rest _)

end

theorem covers_addBlocks (position : Nat) (blocks : List Block) (arena : Arena) :
    Covers arena.table (addBlocks position blocks arena).table (slots position blocks arena) := by
  induction blocks generalizing position arena with
  | nil => exact Covers.nil arena.table
  | cons block rest ih =>
      let index := Cell.childIndex Script.rootIndex position
      have grown := covers_addAll (Cell.childIndex index) 0 block.content
        (arena.table.push (reserved index))
      have first := Covers.fill arena.table [] (by simpa using grown) ⟨index, .block block.name _⟩
        (Kind.stored_block ..)
      exact first.append (ih (position + 1) (addBlock position block arena))

theorem covers_ofDocument (d : Document) : Covers #[] (ofDocument d).table (0 :: blockIds d) := by
  have grown := covers_addAll (Cell.childIndex Script.rootIndex) 0 d.content
    #[reserved Script.rootIndex]
  have added := covers_addBlocks d.content.length d.blocks { table := (top d).2 }
  rw [ofDocument_eq]
  exact Covers.fill #[] (blockIds d) (grown.append added) _ (Kind.stored_document _)

theorem exists_placed {d : Document} {id : Nat} (inside : id < (ofDocument d).table.size) :
    ∃ number, Placed d id number := by
  have covers := (covers_ofDocument d).covers (ofDocument d).table
    (fun id => ∃ number, Placed d id number) (fun _ _ _ => rfl)
  refine covers ?_ ?_ id (Nat.zero_le _) inside
  · rintro id ⟨index, kind⟩ entry ⟨number, placed⟩ held member
    have found : (ofDocument d).kind? id = some kind := by rw [kind?, entry]; rfl
    rcases Kind.mem_stored_iff.1 member with child | item | inner
    · obtain ⟨position, there⟩ := List.mem_iff_getElem?.1 child
      exact ⟨_, placed.held found (.child there)⟩
    · obtain ⟨position, there⟩ := List.mem_iff_getElem?.1 item
      exact ⟨_, placed.held found (.item there)⟩
    · exact ⟨_, placed.held found (.inner inner)⟩
  · refine List.forall_mem_cons.2 ⟨⟨1, ?_⟩, ?_⟩
    · rw [← (copied_blockIds d).root]
      exact .root
    · intro slot member
      obtain ⟨position, there⟩ := List.mem_iff_getElem?.1 member
      exact ⟨_, .block there⟩

/-! One number for each entry, of which its index is the rest. -/

section
variable {d : Document} {id number : Nat}

theorem Placed.pos (placed : Placed d id number) : 1 ≤ number := by
  induction placed with
  | root => exact Nat.le_refl 1
  | block held => omega
  | held above entry numbers ih =>
      cases numbers with
      | child held | item held => omega
      | inner held => exact ih

theorem getElem?_ofBlocks {start position : Nat} {blocks : List Block} {block : Script.Block}
    (found : (Script.ofBlocks start blocks)[position]? = some block) :
    ∃ nodes, block.index = Cell.childIndex Script.rootIndex (start + position) ∧
      block.cells = Cell.ofNodes (Cell.childIndex block.index) 0 nodes := by
  induction blocks generalizing start position with
  | nil => cases found
  | cons first rest ih =>
      cases position with
      | zero =>
          obtain rfl := Option.some.inj found
          exact ⟨first.content, rfl, rfl⟩
      | succ position =>
          obtain ⟨nodes, index, cells⟩ := ih found
          exact ⟨nodes, by rw [index, Nat.add_right_comm]; rfl, cells⟩

theorem numbered_of_block {position : Nat} (held : (blockIds d)[position]? = some id) :
    ∃ name ids, (ofDocument d).Numbered id (10 * 1 + (d.content.length + position))
      (.block name ids) := by
  obtain ⟨length, shows⟩ := List.forall₂_iff_zip.1 (copied_blockIds d).blocks
  have inside : position < (Script.ofDocument d).blocks.length :=
    length ▸ (List.getElem?_eq_some_iff.1 held).1
  have found := List.getElem?_eq_getElem inside
  generalize (Script.ofDocument d).blocks[position] = block at found
  have zipped := List.getElem?_zip_eq_some (z := (id, block)) |>.2 ⟨held, found⟩
  have member := List.mem_of_getElem? zipped
  obtain ⟨ids, entry, reads⟩ := shows member
  obtain ⟨nodes, index, cells⟩ := getElem?_ofBlocks found
  have exact : block.index = UInt64.ofNat (10 * 1 + (d.content.length + position)) := by
    rw [index, ← childIndex_ofNat]
    rfl
  rw [cells, exact] at reads
  rw [exact] at entry
  exact ⟨block.name, ids, numbered_of_children entry reads ⟨rfl, rfl⟩⟩

theorem Numbered.of_numbers {arena : Arena} {kind : Kind} (numbered : arena.Numbered id number kind)
    {other further : Nat} (numbers : kind.Numbers number other further) :
    ∃ node, arena.cell? other = some (.ofNode (.ofNat further) node) := by
  cases numbers with
  | child held => exact numbered.child _ _ held
  | item held => exact numbered.item _ _ held
  | inner held => exact numbered.inner _ held

theorem Placed.numbered (placed : Placed d id number) :
    ∃ kind, (ofDocument d).Numbered id number kind := by
  induction placed with
  | root =>
      have copied := copied_blockIds d
      rw [copied.root]
      exact ⟨_, numbered_of_children copied.document copied.content ⟨rfl, rfl⟩⟩
  | block held =>
      obtain ⟨name, ids, numbered⟩ := numbered_of_block held
      exact ⟨_, numbered⟩
  | held above entry numbers ih =>
      obtain ⟨kind, numbered⟩ := ih
      obtain rfl := numbered.kind_eq entry
      obtain ⟨node, found⟩ := numbered.of_numbers numbers
      exact numbered_of_cell? found

theorem Placed.index? (placed : Placed d id number) :
    (ofDocument d).index? id = some (UInt64.ofNat number) := by
  obtain ⟨kind, numbered⟩ := placed.numbered
  rw [Arena.index?, numbered.entry]
  rfl

theorem entry_of_kind? {arena : Arena} {kind : Kind} (found : arena.kind? id = some kind) :
    ∃ index, arena.table[id]? = some ⟨index, kind⟩ := by
  obtain ⟨⟨index, same⟩, entry, rfl⟩ := Option.map_eq_some_iff.1 found
  exact ⟨index, entry⟩

theorem Kind.Numbers.mem_stored {kind : Kind} {other further : Nat}
    (numbers : kind.Numbers number other further) : other ∈ kind.stored := by
  rw [Kind.mem_stored_iff]
  cases numbers with
  | child held => exact .inl (List.mem_of_getElem? held)
  | item held => exact .inr (.inl (List.mem_of_getElem? held))
  | inner held => exact .inr (.inr held)

theorem mem_stored_of_kind? {arena : Arena} {kind : Kind} (found : arena.kind? id = some kind)
    {other : Nat} (member : other ∈ kind.stored) : other ∈ stored arena.table := by
  obtain ⟨index, entry⟩ := entry_of_kind? found
  have listed := Array.mem_toList_iff.2 (Array.mem_of_getElem? entry)
  exact List.mem_flatMap.2 ⟨⟨index, kind⟩, listed, member⟩

theorem nodup_stored (d : Document) : (stored (ofDocument d).table).Nodup :=
  List.nodup_iff_count_le_one.2 (copied_blockIds d).count_le_one

/-- A position is held by one entry only. -/
theorem holder_unique {first second other : Nat} {kind more : Kind}
    (here : (ofDocument d).kind? first = some kind)
    (there : (ofDocument d).kind? second = some more) (held : other ∈ kind.stored)
    (again : other ∈ more.stored) : first = second := by
  obtain ⟨-, apart⟩ := List.nodup_flatMap.1 (nodup_stored d)
  obtain ⟨index, entry⟩ := entry_of_kind? here
  obtain ⟨number, further⟩ := entry_of_kind? there
  rw [← Array.getElem?_toList] at entry further
  obtain ⟨low, entry⟩ := List.getElem?_eq_some_iff.1 entry
  obtain ⟨high, further⟩ := List.getElem?_eq_some_iff.1 further
  have disjoint := List.pairwise_iff_getElem.1 apart
  rcases Nat.lt_trichotomy first second with less | same | more
  · have none := disjoint first second low high less
    rw [entry, further] at none
    exact absurd again (none held)
  · exact same
  · have none := disjoint second first high low more
    rw [entry, further] at none
    exact absurd held (none again)

theorem Kind.Numbers.unique {kind : Kind} (once : kind.stored.Nodup) {other m n : Nat}
    (first : kind.Numbers number other m) (second : kind.Numbers number other n) : m = n := by
  obtain ⟨lists, -⟩ := List.nodup_append.1 once
  obtain ⟨children, items, -⟩ := List.nodup_append.1 lists
  cases first with
  | child here =>
      cases second with
      | child there =>
          have inside := (List.getElem?_eq_some_iff.1 here).1
          rw [(List.getElem?_inj inside children).1 (here.trans there.symm)]
      | item there => simp [(leaf_of_children here).2] at there
      | inner there => simp [(leaf_of_children here).1] at there
  | item here =>
      cases second with
      | child there => simp [(leaf_of_children there).2] at here
      | item there =>
          have inside := (List.getElem?_eq_some_iff.1 here).1
          rw [(List.getElem?_inj inside items).1 (here.trans there.symm)]
      | inner there => simp [leaf_of_items here] at there
  | inner here =>
      cases second with
      | child there => simp [(leaf_of_children there).1] at here
      | item there => simp [leaf_of_items there] at here
      | inner there => rfl

theorem Placed.not_held {kind : Kind} {other further : Nat}
    (entry : (ofDocument d).kind? id = some kind) (numbers : kind.Numbers number other further) :
    other ∉ 0 :: blockIds d := by
  intro free
  exact (copied_blockIds d).not_mem_stored free (mem_stored_of_kind? entry numbers.mem_stored)

theorem nodup_blockIds (d : Document) : (0 :: blockIds d).Nodup := by
  refine List.nodup_iff_count_le_one.2 fun id => ?_
  have count := (copied_blockIds d).count id
  split_ifs at count <;> omega

theorem Placed.unique (first : Placed d id number) {other : Nat} (second : Placed d id other) :
    number = other := by
  have root := (copied_blockIds d).root
  obtain ⟨apart, once⟩ := List.nodup_cons.1 (nodup_blockIds d)
  induction first generalizing other with
  | root =>
      cases second with
      | root => rfl
      | block held =>
          rw [root] at held
          exact absurd (List.mem_of_getElem? held) apart
      | held above entry numbers =>
          exact absurd (root ▸ List.mem_cons_self) (Placed.not_held entry numbers)
  | block here =>
      cases second with
      | root =>
          rw [root] at here
          exact absurd (List.mem_of_getElem? here) apart
      | block there =>
          have inside := (List.getElem?_eq_some_iff.1 here).1
          rw [(List.getElem?_inj inside once).1 (here.trans there.symm)]
      | held above entry numbers =>
          exact absurd (List.mem_cons_of_mem 0 (List.mem_of_getElem? here))
            (Placed.not_held entry numbers)
  | @held id number inner further kind above entry numbers ih =>
      cases second with
      | root => exact absurd (root ▸ List.mem_cons_self) (Placed.not_held entry numbers)
      | block there =>
          exact absurd (List.mem_cons_of_mem 0 (List.mem_of_getElem? there))
            (Placed.not_held entry numbers)
      | held other found again =>
          obtain rfl := holder_unique entry found numbers.mem_stored again.mem_stored
          obtain rfl := Option.some.inj (entry.symm.trans found)
          obtain rfl := ih other
          obtain ⟨index, there⟩ := entry_of_kind? entry
          have listed := Array.mem_toList_iff.2 (Array.mem_of_getElem? there)
          exact numbers.unique ((List.nodup_flatMap.1 (nodup_stored d)).1 _ listed) again

end

end Arena
end Dialogue
