import Dialogue.Proofs.Listing
import Dialogue.Proofs.Snapshot
import Dialogue.Proofs.Visits
import Mathlib.Data.List.Nodup

/-! What choosing does to a list of options. The options of one list have indices of their own, so
the flag that choosing sets is seen by no other of them, and what else choosing notes is not looked
at when the list is gone through again. -/
namespace Dialogue

namespace Cell

/-- Conditions and actions share the index of what they belong to. -/
theorem index_core_ofNode (index : UInt64) (node : Node) :
    (ofNode index node).core.index = index := by
  match node with
  | .conditional condition body => exact index_core_ofNode index body
  | .acting action body => exact index_core_ofNode index body
  | .content nodes | .line text marks | .options name marks items | .option name mode marks nodes
  | .divert target | .variations mode alternatives | .act action => rfl

theorem map_index_ofNodes (number : Nat → UInt64) (position : Nat) (nodes : List Node) :
    (ofNodes number position nodes).map (fun item => item.core.index) =
      (List.range' position nodes.length).map number := by
  induction nodes generalizing position with
  | nil => rfl
  | cons node rest ih =>
      rw [ofNodes, List.map_cons, index_core_ofNode, ih, List.length_cons, List.range'_succ,
        List.map_cons]

theorem itemIndex_inj {parent : UInt64} {p q : Nat} (left : p < UInt64.size)
    (right : q < UInt64.size) (same : itemIndex parent p = itemIndex parent q) : p = q := by
  have positions : p.toUInt64 = q.toUInt64 := by
    simpa [itemIndex] using same
  have numbers := congrArg UInt64.toNat positions
  rwa [Nat.toUInt64_eq, Nat.toUInt64_eq, UInt64.toNat_ofNat_of_lt' left,
    UInt64.toNat_ofNat_of_lt' right] at numbers

/-- Whether the items of a list have indices of their own. -/
def Apart (items : List Cell) : Prop := (items.map fun item => item.core.index).Nodup

theorem apart_ofNodes {parent : UInt64} {nodes : List Node} (small : nodes.length < UInt64.size) :
    Apart (ofNodes (itemIndex parent) 0 nodes) := by
  rw [Apart, map_index_ofNodes]
  refine List.Nodup.map_on (fun p left q right same => ?_) (List.nodup_range' 1)
  rw [List.mem_range'_1] at left right
  exact itemIndex_inj (by omega) (by omega) same

variable {items : List Cell} {item other : Cell} {choice : Choice} {m : Memory}

theorem Apart.eq (apart : Apart items) (left : item ∈ items) (right : other ∈ items)
    (same : item.core.index = other.core.index) : item = other :=
  List.inj_on_of_nodup_map apart left right same

theorem Apart.sublist (apart : Apart items) {some : List Cell} (sublist : some.Sublist items) :
    Apart some :=
  List.Nodup.sublist (sublist.map _) apart

theorem core_of_choice? (found : item.choice? = some choice) : item.core = choice.cell := by
  unfold choice? at found
  split at found
  · next core =>
      obtain rfl := Option.some.inj found
      exact core
  · cases found

theorem index_of_choice? (found : item.choice? = some choice) : choice.index = item.core.index := by
  rw [core_of_choice? found]
  rfl

theorem actions_of_choice? (found : item.choice? = some choice) :
    choice.actions = item.actions := by
  unfold choice? at found
  split at found
  · obtain rfl := Option.some.inj found
    rfl
  · cases found

/-- Without the item of an index, the others stay as they are. -/
theorem Apart.filter_eq_eraseIdx (apart : Apart items) {i : Nat} (found : items[i]? = some item) :
    items.filter (fun other => other.core.index != item.core.index) = items.eraseIdx i := by
  induction items generalizing i with
  | nil => cases found
  | cons first rest ih =>
      obtain ⟨fresh, later⟩ := List.nodup_cons.1 apart
      cases i with
      | zero =>
          obtain rfl := Option.some.inj found
          rw [List.filter_cons_of_neg (by simp), List.eraseIdx_cons_zero, List.filter_eq_self]
          intro other member
          rw [bne_iff_ne]
          exact fun same => fresh (List.mem_map.2 ⟨other, member, same⟩)
      | succ i =>
          have inside : item ∈ rest := List.mem_of_getElem? found
          have away : first.core.index ≠ item.core.index :=
            fun same => fresh (List.mem_map.2 ⟨item, inside, same.symm⟩)
          rw [List.filter_cons_of_pos (by simpa using away), List.eraseIdx_cons_succ,
            ih later found]

/-! Availability after an option was taken. -/

theorem holds_visit (m : Memory) (index : UInt64) (e : Expr) :
    e.holds (m.visit index) = e.holds m := Expr.holds_congr fun _ _ => rfl

theorem accessed_visit (m : Memory) (index other : UInt64) :
    (m.visit index).accessed other = (index == other || m.accessed other) :=
  m.accessed_insert index other

section
variable (apart : Apart items) (member : item ∈ items) (found : item.choice? = some choice)
include apart member found

/-- Of the options of a list, the flag that one of them gets is seen by that one alone, and not even
by that one if it is sticky. -/
theorem Apart.isAvailable_visit (inside : other ∈ items) :
    other.isAvailable (m.visit choice.index) = (other.isAvailable m &&
      (choice.mode == .sticky || other.core.index != item.core.index)) := by
  have index := index_of_choice? found
  by_cases same : other.core.index = item.core.index
  · obtain rfl := apart.eq inside member same
    simp only [isAvailable, holds_visit, found, Option.any_some, accessed_visit, BEq.rfl]
    cases choice.mode == .sticky <;> simp
  · have away : (choice.index == other.core.index) = false := by
      rw [index, beq_eq_false_iff_ne]
      exact Ne.symm same
    have different : (other.core.index != item.core.index) = true := bne_iff_ne.2 same
    rw [different, Bool.or_true, Bool.and_true]
    simp only [isAvailable, holds_visit]
    cases there : other.choice? with
    | none => rfl
    | some second =>
        rw [← index_of_choice? there] at away
        simp only [Option.any_some, accessed_visit, away, Bool.false_or]

theorem Apart.filter_visit (keep : Cell → Bool) :
    items.filter (fun other => other.isAvailable (m.visit choice.index) && keep other) =
      (items.filter fun other => other.isAvailable m && keep other).filter fun other =>
        choice.mode == .sticky || other.core.index != item.core.index := by
  rw [List.filter_filter]
  refine List.filter_congr fun other inside => ?_
  rw [apart.isAvailable_visit member found inside]
  cases other.isAvailable m <;> cases keep other <;> simp

theorem Apart.regular_visit :
    regular (m.visit choice.index) items = (regular m items).filter fun other =>
      choice.mode == .sticky || other.core.index != item.core.index :=
  apart.filter_visit member found _

theorem Apart.fallbacks_visit :
    fallbacks (m.visit choice.index) items = (fallbacks m items).filter fun other =>
      choice.mode == .sticky || other.core.index != item.core.index :=
  apart.filter_visit member found _

end

/-- Items other than the one of an index stay. -/
theorem Apart.filter_eq_self (apart : Apart items) (member : item ∈ items) {some : List Cell}
    (sublist : some.Sublist items) (absent : item ∉ some) :
    some.filter (fun other => other.core.index != item.core.index) = some := by
  rw [List.filter_eq_self]
  intro other inside
  rw [bne_iff_ne]
  intro same
  exact absent (apart.eq (sublist.subset inside) member same ▸ inside)

theorem isFallback_of_mem_regular (member : item ∈ regular m items) : item.isFallback = false := by
  simpa using (Bool.and_eq_true_iff.1 (List.mem_filter.1 member).2).2

theorem isFallback_of_mem_fallbacks (member : item ∈ fallbacks m items) : item.isFallback = true :=
  (Bool.and_eq_true_iff.1 (List.mem_filter.1 member).2).2

/-- What is listed is one of the two kinds. -/
theorem listed_eq (m : Memory) (items : List Cell) :
    listed m items = regular m items ∨ listed m items = fallbacks m items := by
  unfold listed
  split
  · exact .inr rfl
  · exact .inl rfl

/-- Taking an option takes it out of its kind, unless it is sticky, and leaves the other kind. -/
theorem Apart.visit_listed (apart : Apart items) {i : Nat}
    (shown : (listed m items)[i]? = some item) (found : item.choice? = some choice) :
    regular (m.visit choice.index) items =
        (if choice.mode = .once then (regular m items).eraseIdx i else regular m items) ∧
      fallbacks (m.visit choice.index) items =
        if choice.mode = .fallback then (fallbacks m items).eraseIdx i else fallbacks m items := by
  have member : item ∈ items := listed_sublist.subset (List.mem_of_getElem? shown)
  have kind := isFallback_of_choice? found
  rw [apart.regular_visit member found, apart.fallbacks_visit member found]
  cases mode : choice.mode with
  | sticky => exact ⟨List.filter_eq_self.2 fun _ _ => rfl, List.filter_eq_self.2 fun _ _ => rfl⟩
  | once =>
      have absent : item ∉ fallbacks m items := fun inside => by
        rw [isFallback_of_mem_fallbacks inside, mode] at kind
        cases kind
      obtain kept | kept := listed_eq m items
      · rw [kept] at shown
        exact ⟨(apart.sublist List.filter_sublist).filter_eq_eraseIdx shown,
          apart.filter_eq_self member List.filter_sublist absent⟩
      · exact absurd (List.mem_of_getElem? (kept ▸ shown)) absent
  | fallback =>
      have absent : item ∉ regular m items := fun inside => by
        rw [isFallback_of_mem_regular inside, mode] at kind
        cases kind
      obtain kept | kept := listed_eq m items
      · exact absurd (List.mem_of_getElem? (kept ▸ shown)) absent
      · rw [kept] at shown
        exact ⟨apart.filter_eq_self member List.filter_sublist absent,
          (apart.sublist List.filter_sublist).filter_eq_eraseIdx shown⟩

end Cell

namespace Memory

/-- A flag and the number of options do not meet. -/
theorem visit_counting (m : Memory) (count : Nat) (index : UInt64) :
    (m.counting count).visit index = (m.visit index).counting count := rfl

theorem max_ofNat_zero {n : Nat} (small : n < 2 ^ 63) : max (Int64.ofNat n) 0 = Int64.ofNat n := by
  by_cases none : Int64.ofNat n ≤ 0
  · obtain rfl : n = 0 := Nat.le_zero.1 ((Variation.ofNat_le_ofNat small (by decide)).1 none)
    rfl
  · exact if_neg none

end Memory

namespace Session

/-- The items of a list that a session stands at have indices of their own. -/
theorem Plays.apart {d : Document} {s : Session} (plays : s.Plays (Script.ofDocument d))
    {header : Option String} {marks : Marks} {items : List Cell} {cursor : Nat} {below : List Frame}
    (stack : s.stack = ⟨.options header marks items, cursor⟩ :: below)
    (small : items.length < UInt64.size) : Cell.Apart items := by
  have there := (stack ▸ plays.stacked).hasPlace
  cases there with
  | options has =>
      obtain ⟨index, node, same⟩ := Script.ofNode_of_has has
      cases node with
      | options name marks nodes =>
          obtain ⟨-, -, -, rfl⟩ := Cell.options.inj same
          have length : (Cell.ofNodes (Cell.itemIndex index) 0 nodes).length = nodes.length := by
            simpa using congrArg List.length (Cell.map_index_ofNodes (Cell.itemIndex index) 0 nodes)
          exact Cell.apart_ofNodes (length ▸ small)
      | _ => cases same

/-- Where a number of options was noted, taking one sets its flag, counts it out unless it is
sticky, and then does its actions. -/
theorem select_counting {s : Session} {m : Memory} {count : Nat}
    (counted : s.memory = m.counting count) (some : 0 < count) (small : count < 2 ^ 63)
    (choice : Choice) :
    let flagged := (m.visit choice.index).counting
      (if choice.mode = .sticky then count else count - 1)
    (s.select choice).1.memory = (Action.runAll flagged choice.actions).memory ∧
      (s.select choice).2 = (Action.runAll flagged choice.actions).events := by
  have noted : (m.counting count).count? Memory.optionsCount = .some (Int64.ofNat count) :=
    Memory.count?_note_self m Memory.optionsCount _
  by_cases sticky : choice.mode = .sticky
  · simp only [select, sticky, counted, Memory.visit_counting]
    exact ⟨rfl, rfl⟩
  · have single : (choice.mode == .sticky) = false := beq_eq_false_iff_ne.2 sticky
    obtain ⟨left, rfl⟩ : ∃ left, count = left + 1 := ⟨count - 1, by omega⟩
    have fewer : max (Int64.ofNat (left + 1) - 1) 0 = Int64.ofNat left := by
      rw [Variation.ofNat_succ_sub_one, Memory.max_ofNat_zero (by omega)]
    have seen : ((m.counting (left + 1)).visit choice.index).count? Memory.optionsCount =
        .some (Int64.ofNat (left + 1)) := noted
    have counting : ((m.counting (left + 1)).visit choice.index).note Memory.optionsCount
        (.count (Int64.ofNat left)) = (m.visit choice.index).counting left :=
      (m.visit choice.index).counting_counting (left + 1) left
    simp only [select, counted, single, seen, Option.getD_some, fewer, counting, sticky,
      Bool.false_eq_true, if_false, Nat.add_sub_cancel]
    exact ⟨rfl, trivial⟩

/-- Choosing takes exactly the chosen option from its list. In every session over a document that
stands at a list, and whatever the conditions of the list look at: what can be chosen afterwards, of
the once and sticky options and of the fallbacks, is what could be chosen before, in its order and
without the chosen option unless it is sticky, if no actions stand around it. Such actions are done
once each, from the outermost on, after the flag of the option is set and the option is counted
out. -/
theorem choose_takes (d : Document) (random : UInt32) (dictionary : Std.ExtTreeMap String String)
    (data : Option Memory) (ops : List Operation) {header : Option String} {marks : Marks}
    {items : List Cell} {cursor : Nat} {below : List Frame} (index : Nat) :
    let s := ((ofScript (Script.ofDocument d) random dictionary data).run ops).2
    s.stack = ⟨.options header marks items, cursor⟩ :: below → items.length < 2 ^ 63 →
    (s.choose index).result = .ok () →
    let t := (s.choose index).session
    let before := s.memory.counting items.length
    let after := t.memory.counting items.length
    let shown := Cell.listed before items
    ∃ item choice, shown[index]? = some item ∧ item.choice? = some choice ∧
      (item.actions = [] →
        Cell.regular after items =
          (if choice.mode = .once then (Cell.regular before items).eraseIdx index
            else Cell.regular before items) ∧
        Cell.fallbacks after items =
          if choice.mode = .fallback then (Cell.fallbacks before items).eraseIdx index
            else Cell.fallbacks before items) ∧
      let flagged := (s.memory.visit choice.index).counting
        (if choice.mode = .sticky then shown.length else shown.length - 1)
      t.memory = (Action.runAll flagged item.actions).memory ∧
        (s.choose index).events = (Action.runAll flagged item.actions).events := by
  intro s stack small chosen t before after shown
  have plays : s.Plays (Script.ofDocument d) := (plays_ofScript _ random dictionary data).run ops
  have apart := plays.apart stack (Nat.lt_trans small (by decide))
  have choosing := choose_of_offer stack (Choice.offer_eq s.memory items) index
  cases found : (shown.filterMap Cell.choice?)[index]? with
  | none =>
      rw [choosing, found] at chosen
      cases chosen
  | some choice =>
      obtain ⟨item, listed, opened⟩ := Cell.exists_listed found
      rw [found] at choosing
      have some : 0 < shown.length := Nat.zero_lt_of_lt (List.getElem?_eq_some_iff.1 listed).1
      have fewer : shown.length < 2 ^ 63 :=
        Nat.lt_of_le_of_lt Cell.listed_sublist.length_le small
      obtain ⟨memory, events⟩ := select_counting
        (s := { s with memory := s.memory.counting shown.length }) rfl some fewer choice
      rw [Cell.actions_of_choice? opened] at memory events
      have left : t.memory = _ := (congrArg (fun out => out.session.memory) choosing).trans memory
      have said := (congrArg Outcome.events choosing).trans events
      refine ⟨item, choice, listed, opened, fun bare => ?_, left, said⟩
      have flagged : after = before.visit choice.index := by
        simp only [after, left, bare, Action.runAll, Memory.counting_counting]
        rfl
      rw [flagged]
      exact apart.visit_listed listed opened

/-- Options of every kind, one with an action around it. -/
def tray : Document where
  content := [.options none {} [
    .option "Cake" .once {} [],
    .acting (.trigger ["crumbs"]) (.option "Pie" .once {} []),
    .option "Leave" .sticky {} [],
    .option "Wait" .fallback {} []]]

/-- The cake is gone, and the pie announces what its action triggers. -/
theorem choose_takes_tray :
    let s := ((ofScript (Script.ofDocument tray) 1).run [.next 1]).2
    ∃ items cursor below, s.stack = ⟨.options none {} items, cursor⟩ :: below ∧
      items.length = 4 ∧ (s.choose 0).result = .ok () ∧ (s.choose 1).result = .ok () ∧
      let before := s.memory.counting 4
      let after := (s.choose 0).session.memory.counting 4
      (Cell.regular before items).length = 3 ∧
      Cell.regular after items = (Cell.regular before items).eraseIdx 0 ∧
      Cell.fallbacks after items = Cell.fallbacks before items ∧
      (s.choose 1).events = [.triggered "crumbs"] := by
  intro s
  refine ⟨_, _, _, rfl, rfl, rfl, rfl, rfl, ?_⟩
  obtain ⟨cake, choice, listed, opened, kept, -⟩ :=
    choose_takes tray 1 ∅ none [.next 1] 0 rfl (by decide) rfl
  obtain ⟨pie, other, also, inside, -, -, said⟩ :=
    choose_takes tray 1 ∅ none [.next 1] 1 rfl (by decide) rfl
  obtain rfl := Option.some.inj listed
  obtain rfl := Option.some.inj opened
  obtain rfl := Option.some.inj also
  obtain ⟨regular, fallbacks⟩ := kept rfl
  exact ⟨regular, fallbacks, said⟩

end Session
end Dialogue
