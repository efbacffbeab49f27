import Dialogue.Proofs.Returning

/-! What a list of options shows, read off its items. An item is available if the conditions around
its option hold while the number of options counts all items, and the option is sticky or has no
flag. Shown are the available items that are no fallbacks, or else those that are. Looking at a list
notes how many it shows, and changes nothing else. -/
namespace Dialogue

namespace Memory

/-- A memory in which the number of options is noted. -/
def counting (m : Memory) (count : Nat) : Memory :=
  m.note optionsCount (.count (Int64.ofNat count))

@[simp] theorem accessed_counting (m : Memory) (count : Nat) (index : UInt64) :
    (m.counting count).accessed index = m.accessed index := rfl

theorem counting_counting (m : Memory) (count other : Nat) :
    (m.counting count).counting other = m.counting other := note_note m _ _ _

theorem get_counting (m : Memory) {count : Nat} (small : count < 2 ^ 63) (default : Value) :
    (m.counting count).get optionsCount default = .number (Float.ofInt count) := by
  have noted : (m.counting count).count? optionsCount = some (Int64.ofNat count) :=
    count?_note_self m optionsCount _
  simp only [get, BEq.rfl, if_true, noted, Int64.toInt_ofNat_of_lt small]

end Memory

namespace Cell

/-- The option inside conditions and actions, with these actions. -/
def choice? (item : Cell) : Option Choice :=
  match item.core with
  | .option index name mode marks cells =>
      some { index, name, mode, marks, content := cells, actions := item.actions }
  | _ => none

/-- Whether an item has a fallback inside. -/
def isFallback (item : Cell) : Bool := item.choice?.any fun choice => choice.mode == .fallback

/-- Whether the option of an item can be chosen. -/
def isAvailable (m : Memory) (item : Cell) : Bool :=
  item.conditions.all (·.holds m) &&
    item.choice?.any fun choice => choice.mode == .sticky || !m.accessed choice.index

/-- The items with a once or sticky option that can be chosen. -/
def regular (m : Memory) (items : List Cell) : List Cell :=
  items.filter fun item => item.isAvailable m && !item.isFallback

/-- The items with a fallback that can be chosen. -/
def fallbacks (m : Memory) (items : List Cell) : List Cell :=
  items.filter fun item => item.isAvailable m && item.isFallback

/-- The items that are shown. -/
def listed (m : Memory) (items : List Cell) : List Cell :=
  if regular m items = [] then fallbacks m items else regular m items

variable {m : Memory} {item : Cell} {items : List Cell}

theorem choice?_acting (index : UInt64) (action : Action) (body : Cell) :
    (acting index action body).choice? =
      body.choice?.map fun choice => { choice with actions := action :: choice.actions } := by
  simp only [choice?, core, actions]
  split <;> rfl

theorem exists_choice? (free : item.isAvailable m) : ∃ choice, item.choice? = some choice := by
  rw [isAvailable, Bool.and_eq_true, Option.any_eq_true] at free
  obtain ⟨-, choice, found, -⟩ := free
  exact ⟨choice, found⟩

theorem exists_choice?_of_isFallback (fallback : item.isFallback) :
    ∃ choice, item.choice? = some choice := by
  obtain ⟨choice, found, -⟩ := (Option.any_eq_true _ _).1 fallback
  exact ⟨choice, found⟩

theorem isFallback_of_choice? {choice : Choice} (found : item.choice? = some choice) :
    item.isFallback = (choice.mode == .fallback) := by
  rw [isFallback, found, Option.any_some]

theorem isAvailable_of_mem_regular (member : item ∈ regular m items) : item.isAvailable m :=
  (Bool.and_eq_true_iff.1 (List.mem_filter.1 member).2).1

theorem isAvailable_of_mem_listed (member : item ∈ listed m items) : item.isAvailable m := by
  unfold listed at member
  split at member
  · exact (Bool.and_eq_true_iff.1 (List.mem_filter.1 member).2).1
  · exact isAvailable_of_mem_regular member

theorem listed_sublist : (listed m items).Sublist items := by
  unfold listed
  split <;> exact List.filter_sublist

/-- Available items have an option each. -/
theorem map_some_filterMap_choice? (free : ∀ item ∈ items, item.isAvailable m) :
    (items.filterMap choice?).map some = items.map choice? := by
  induction items with
  | nil => rfl
  | cons first rest ih =>
      obtain ⟨choice, found⟩ := exists_choice? (free first List.mem_cons_self)
      rw [List.filterMap_cons_some found, List.map_cons, List.map_cons, found,
        ih fun item member => free item (List.mem_cons_of_mem first member)]

theorem length_filterMap_choice? (free : ∀ item ∈ items, item.isAvailable m) :
    (items.filterMap choice?).length = items.length := by
  simpa using congrArg List.length (map_some_filterMap_choice? free)

theorem length_choices (m : Memory) (items : List Cell) :
    ((listed m items).filterMap choice?).length = (listed m items).length :=
  length_filterMap_choice? fun _ => isAvailable_of_mem_listed

/-- The option at a place among those that are listed is the one in the item at that place. -/
theorem exists_listed {i : Nat} {choice : Choice}
    (found : ((listed m items).filterMap choice?)[i]? = some choice) :
    ∃ item, (listed m items)[i]? = some item ∧ item.choice? = some choice := by
  have free : ∀ item ∈ listed m items, item.isAvailable m := fun item => isAvailable_of_mem_listed
  have there := congrArg (·[i]?) (map_some_filterMap_choice? free)
  simp only [List.getElem?_map, found, Option.map_some] at there
  exact Option.map_eq_some_iff.1 there.symm

end Cell

namespace Choice

variable {m : Memory} {items : List Cell}

theorem find?_eq (m : Memory) (item : Cell) :
    find? m item = if item.conditions.all (·.holds m) then item.choice? else none := by
  fun_induction find? m item with
  | case1 index name mode marks content => rfl
  | case2 index condition body held ih =>
      rw [Cell.conditions, List.all_cons, held, Bool.true_and]
      exact ih
  | case3 index condition body failed => simp [Cell.conditions, failed]
  | case4 index action body ih =>
      rw [ih, Cell.choice?_acting, Cell.conditions]
      split <;> rfl
  | case5 item notOption notConditional notActing =>
      cases item with
      | option index name mode marks content => exact absurd rfl (notOption _ _ _ _ _)
      | conditional index condition body => exact absurd rfl (notConditional _ _ _)
      | acting index action body => exact absurd rfl (notActing _ _ _)
      | _ => rfl

/-- The options of a kind that can be chosen are those of the available items of that kind. -/
theorem filter_candidates (keep : Choice → Bool) :
    (candidates m items).filter keep =
      (items.filter fun item => item.isAvailable m && item.choice?.any keep).filterMap
        Cell.choice? := by
  simp only [candidates, List.filter_filterMap, List.filterMap_filter]
  congr 1
  funext item
  rw [find?_eq, Cell.isAvailable]
  cases item.conditions.all (·.holds m) with
  | false => rfl
  | true =>
      cases item.choice? with
      | none => rfl
      | some choice =>
          cases free : choice.mode == .sticky || !m.accessed choice.index with
          | false => simp [Option.filter, available, free]
          | true => simp [Option.filter, available, free]

/-- The options that are shown are those of the listed items. -/
theorem visible_eq : visible m items = (Cell.listed m items).filterMap Cell.choice? := by
  have regular : (candidates m items).filter (fun choice => choice.mode != .fallback) =
      (Cell.regular m items).filterMap Cell.choice? := by
    rw [filter_candidates, Cell.regular]
    congr 1
    refine List.filter_congr fun item member => ?_
    rw [Cell.isAvailable, Cell.isFallback]
    cases item.choice? with
    | none => simp
    | some choice => rfl
  have fallbacks : (candidates m items).filter (fun choice => choice.mode == .fallback) =
      (Cell.fallbacks m items).filterMap Cell.choice? := filter_candidates _
  have length : ((Cell.regular m items).filterMap Cell.choice?).length =
      (Cell.regular m items).length :=
    Cell.length_filterMap_choice? fun item => Cell.isAvailable_of_mem_regular
  unfold visible Cell.listed
  simp only [regular, fallbacks, List.isEmpty_iff, ← List.length_eq_zero_iff, length]
  split <;> rfl

/-- While the conditions are looked at all items count, and afterwards those that are listed. -/
theorem offer_eq (m : Memory) (items : List Cell) :
    offer m items = ((Cell.listed (m.counting items.length) items).filterMap Cell.choice?,
      m.counting (Cell.listed (m.counting items.length) items).length) := by
  have noted : offer m items = (visible (m.counting items.length) items,
    (m.counting items.length).counting (visible (m.counting items.length) items).length) := rfl
  rw [noted, visible_eq, Cell.length_choices, Memory.counting_counting]

end Choice

namespace Session

/-- The session at the list of options that entering a cell leads to, with what is announced on the
way there. -/
def list? (s : Session) : Cell → Option (Session × List Event)
  | .options _ name marks items => some (s.push (.options name marks items), [])
  | .conditional _ condition body => if condition.holds s.memory then s.list? body else none
  | .acting _ action body =>
      ({ s with memory := (action.run s.memory).memory }.list? body).map fun (there, events) =>
        (there, (action.run s.memory).events ++ events)
  | _ => none

/-- The session at the list of options that the next step looks at. -/
def atList? (s : Session) : Option (Session × List Event) :=
  match s.stack with
  | [] => none
  | ⟨.options .., _⟩ :: _ => some (s, [])
  | frame :: below =>
      frame.place.cells[frame.cursor]?.bind
        { s with stack := { frame with cursor := frame.cursor + 1 } :: below }.list?

/-- A step that something was announced before. -/
def Step.following (step : Step) (events : List Event) : Step :=
  { step with events := events ++ step.events }

theorem enter_of_list? {s there : Session} {cell : Cell} {events : List Event}
    (opened : s.list? cell = some (there, events)) :
    ∃ header marks items cursor below,
      there.stack = ⟨.options header marks items, cursor⟩ :: below ∧
        s.enter cell = (there.present header marks items).following events := by
  fun_induction list? s cell generalizing there events with
  | case1 s index name marks items =>
      obtain ⟨rfl, rfl⟩ := Prod.mk.inj (Option.some.inj opened)
      exact ⟨name, marks, items, 0, s.stack, rfl, rfl⟩
  | case2 s index condition body held ih =>
      rw [enter, if_pos held]
      exact ih opened
  | case3 => cases opened
  | case4 s index action body ih =>
      obtain ⟨⟨inside, later⟩, found, same⟩ := Option.map_eq_some_iff.1 opened
      obtain ⟨rfl, rfl⟩ := Prod.mk.inj same
      obtain ⟨header, marks, items, cursor, below, stack, entered⟩ := ih found
      refine ⟨header, marks, items, cursor, below, stack, ?_⟩
      rw [enter, entered]
      simp only [Step.following, List.append_assoc]
  | case5 => cases opened

theorem isSome_list? {s : Session} {cell : Cell} (shown : (s.enter cell).flow.isOptions = true) :
    (s.list? cell).isSome := by
  fun_induction enter s cell with
  | case3 s index name marks items => rfl
  | case5 s index target =>
      have made := makes_divert s target
      cases made with
      | nothing access quiet => cases shown.symm.trans quiet
  | case7 s index condition body held ih => simpa [list?, held] using ih shown
  | case9 s index action body effect step ih => simpa [list?] using ih shown
  | _ => cases shown

theorem atList?_of_walked {s : Session} {frame : Frame} {below : List Frame}
    (stack : s.stack = frame :: below) (walked : frame.place.isList = false) :
    s.atList? = frame.place.cells[frame.cursor]?.bind
      { s with stack := { frame with cursor := frame.cursor + 1 } :: below }.list? := by
  obtain ⟨place, cursor⟩ := frame
  cases place with
  | options header marks items => cases walked
  | document cells | block name cells | content cells => simp only [atList?, stack]

theorem step_of_atList? {s there : Session} {events : List Event}
    (opened : s.atList? = some (there, events)) :
    ∃ header marks items cursor below,
      there.stack = ⟨.options header marks items, cursor⟩ :: below ∧
        s.step = (there.present header marks items).following events := by
  match stack : s.stack with
  | [] => simp [atList?, stack] at opened
  | ⟨.options header marks items, cursor⟩ :: below =>
      simp only [atList?, stack, Option.some.injEq, Prod.mk.injEq] at opened
      obtain ⟨rfl, rfl⟩ := opened
      exact ⟨header, marks, items, cursor, below, stack, step_of_list stack⟩
  | ⟨.document cells, cursor⟩ :: below
  | ⟨.block name cells, cursor⟩ :: below
  | ⟨.content cells, cursor⟩ :: below =>
      rw [atList?_of_walked stack rfl] at opened
      obtain ⟨cell, entered, inside⟩ := Option.bind_eq_some_iff.1 opened
      rw [step_of_cell stack entered]
      exact enter_of_list? inside

theorem isSome_atList? {s : Session} (shown : s.step.flow.isOptions = true) : s.atList?.isSome := by
  match stack : s.stack with
  | [] => simp [step, stack, Flow.isOptions] at shown
  | ⟨.options header marks items, cursor⟩ :: below => simp [atList?, stack]
  | ⟨.document cells, cursor⟩ :: below
  | ⟨.block name cells, cursor⟩ :: below
  | ⟨.content cells, cursor⟩ :: below =>
      rw [atList?_of_walked stack rfl]
      simp only [step, stack, Place.cells] at shown ⊢
      cases entered : cells[cursor]? with
      | some cell =>
          rw [entered] at shown
          exact isSome_list? shown
      | none =>
          rw [entered] at shown
          cases below <;> cases shown

section
variable (s : Session) (header : Option String) (marks : Marks) {items : List Cell}

/-- A session that has looked at a list. -/
def looked (s : Session) (items : List Cell) : Session :=
  { s with
    memory := s.memory.counting (Cell.listed (s.memory.counting items.length) items).length }

theorem present_of_nil (none : Cell.listed (s.memory.counting items.length) items = []) :
    s.present header marks items =
      proceed { s.looked items with stack := s.stack.tail } := by
  simp only [present, Choice.offer_eq, looked, none, List.filterMap_nil]

theorem present_of_fallback {only : Cell} {choice : Choice}
    (lone : Cell.listed (s.memory.counting items.length) items = [only])
    (found : only.choice? = some choice) (fallback : only.isFallback) :
    s.present header marks items =
      proceed ((s.looked items).select choice).1 ((s.looked items).select choice).2 := by
  have mode : (choice.mode == .fallback) = true :=
    (Cell.isFallback_of_choice? found).symm.trans fallback
  simp only [present, Choice.offer_eq, looked, lone, List.filterMap_cons_some found,
    List.filterMap_nil, mode, if_true]

theorem present_of_listed (some : Cell.listed (s.memory.counting items.length) items ≠ [])
    (choosable : ∀ only, Cell.listed (s.memory.counting items.length) items = [only] →
      only.isFallback = false) :
    s.present header marks items =
      ⟨.beat (.options (header.map ((s.looked items).render marks.id)) marks
        (((Cell.listed (s.memory.counting items.length) items).filterMap Cell.choice?).map
          (s.looked items).label)), s.looked items, []⟩ := by
  have free : ∀ item ∈ Cell.listed (s.memory.counting items.length) items,
      item.isAvailable (s.memory.counting items.length) :=
    fun item => Cell.isAvailable_of_mem_listed
  simp only [present, Choice.offer_eq, looked]
  generalize Cell.listed (s.memory.counting items.length) items = shown at some choosable free ⊢
  match shown with
  | [] => exact absurd rfl some
  | [only] =>
      obtain ⟨choice, found⟩ := Cell.exists_choice? (free only List.mem_cons_self)
      have mode : (choice.mode == .fallback) = false :=
        (Cell.isFallback_of_choice? found).symm.trans (choosable only rfl)
      simp only [List.filterMap_cons_some found, List.filterMap_nil, mode, Bool.false_eq_true,
        if_false]
  | first :: second :: rest =>
      have later : second ∈ first :: second :: rest := List.mem_cons_of_mem first List.mem_cons_self
      obtain ⟨choice, found⟩ := Cell.exists_choice? (free first List.mem_cons_self)
      obtain ⟨other, also⟩ := Cell.exists_choice? (free second later)
      simp only [List.filterMap_cons_some found, List.filterMap_cons_some also]

end

/-- A list that gives a beat lists options, and not just a fallback. -/
theorem listed_of_present {s : Session} {header : Option String} {marks : Marks}
    {items : List Cell} {beat : Beat} (flow : (s.present header marks items).flow = .beat beat) :
    Cell.listed (s.memory.counting items.length) items ≠ [] ∧
      ∀ only, Cell.listed (s.memory.counting items.length) items = [only] →
        only.isFallback = false := by
  refine ⟨fun none => ?_, fun only lone => ?_⟩
  · rw [present_of_nil s header marks none] at flow
    cases flow
  · by_contra fallback
    rw [Bool.not_eq_false] at fallback
    obtain ⟨choice, found⟩ := Cell.exists_choice?_of_isFallback fallback
    rw [present_of_fallback s header marks lone found fallback] at flow
    cases flow

/-- A beat is that of the last of the steps that a request takes, after steps without a beat. -/
theorem after_of_beat {s : Session} {allowance : Nat} {beat : Beat}
    (shown : (s.next allowance).result = .beat beat) :
    ∃ n < allowance, (∀ m < n, (s.after m).step.flow = .proceed) ∧
      (s.after n).step.flow = .beat beat ∧
      (s.next allowance).session = (s.after n).step.session := by
  induction allowance generalizing s with
  | zero => simp [next] at shown
  | succ allowance ih =>
      cases flow : s.step.flow with
      | beat first =>
          simp only [next, flow, Reply.beat.injEq] at shown ⊢
          refine ⟨0, Nat.succ_pos _, ?_, shown ▸ flow, rfl⟩
          exact fun m none => absurd none (Nat.not_lt_zero m)
      | proceed =>
          simp only [next, flow] at shown ⊢
          obtain ⟨n, inside, silent, last, left⟩ := ih shown
          refine ⟨n + 1, Nat.succ_lt_succ inside, ?_, last, left⟩
          exact Nat.forall_lt_succ_left.2 ⟨flow, silent⟩
      | finished => simp [next, flow] at shown
      | failed fault => simp [next, flow] at shown

/-- A list shows its available options. The beat comes from a step that gets to the list. It shows
the options of the items that are listed there, in their order, at least one and never a lone
fallback. Nothing is done but to note their number, which is read as it is, since lists in memory
are shorter than `2 ^ 63`. A step that gets to a list that shows nothing leaves it, and one that
gets to a lone fallback takes it, both without a beat. -/
theorem listed_of_shown (s : Session) (allowance : Nat) :
    (∀ title marks labels, (s.next allowance).result = .beat (.options title marks labels) →
      let t := (s.next allowance).session
      ∃ n there events header items cursor below,
        n < allowance ∧ (∀ m < n, (s.after m).step.flow = .proceed) ∧
        (s.after n).atList? = some (there, events) ∧
        there.stack = ⟨.options header marks items, cursor⟩ :: below ∧
        let shown := Cell.listed (there.memory.counting items.length) items
        labels = (shown.filterMap Cell.choice?).map t.label ∧ labels.length = shown.length ∧
        shown.Sublist items ∧ shown ≠ [] ∧ (∀ only, shown = [only] → only.isFallback = false) ∧
        t = { there with memory := there.memory.counting labels.length } ∧
        (s.after n).step.events = events ∧
        (items.length < 2 ^ 63 →
          (there.memory.counting items.length).get Memory.optionsCount .null =
            .number (Float.ofInt items.length) ∧
          t.get Memory.optionsCount = .number (Float.ofInt labels.length))) ∧
    ∀ there events header marks items cursor below, s.atList? = some (there, events) →
      there.stack = ⟨.options header marks items, cursor⟩ :: below →
      let shown := Cell.listed (there.memory.counting items.length) items
      let t : Session := { there with memory := there.memory.counting shown.length }
      (shown = [] → s.step = ⟨.proceed, { t with stack := below }, events⟩) ∧
      ∀ only, shown = [only] → only.isFallback → ∃ choice, only.choice? = some choice ∧
        s.step = ⟨.proceed, (t.select choice).1, events ++ (t.select choice).2⟩ := by
  constructor
  · intro title marks labels beat t
    obtain ⟨n, inside, silent, flow, left⟩ := after_of_beat beat
    have some : (s.after n).atList?.isSome := isSome_atList? (by rw [flow]; rfl)
    obtain ⟨⟨there, events⟩, opened⟩ := Option.isSome_iff_exists.1 some
    obtain ⟨header, written, items, cursor, below, stack, stepped⟩ := step_of_atList? opened
    rw [stepped] at flow left
    obtain ⟨nonempty, choosable⟩ := listed_of_present flow
    have presented := present_of_listed there header written nonempty choosable
    rw [Step.following, presented] at flow left stepped
    obtain ⟨rfl, rfl, rfl⟩ := Beat.options.inj (Flow.beat.inj flow)
    have same : t = there.looked items := left
    have count : (((Cell.listed (there.memory.counting items.length) items).filterMap
        Cell.choice?).map (there.looked items).label).length =
        (Cell.listed (there.memory.counting items.length) items).length := by
      rw [List.length_map, Cell.length_choices]
    refine ⟨n, there, events, header, items, cursor, below, inside, silent, opened, ?_⟩
    clear_value t
    subst same
    refine ⟨stack, rfl, count, Cell.listed_sublist, nonempty, choosable, by rw [count]; rfl, ?_, ?_⟩
    · rw [stepped, List.append_nil]
    · intro small
      have fewer : (Cell.listed (there.memory.counting items.length) items).length ≤ items.length :=
        Cell.listed_sublist.length_le
      rw [count]
      exact ⟨Memory.get_counting _ small .null,
        Memory.get_counting _ (Nat.lt_of_le_of_lt fewer small) .null⟩
  · intro there events header marks items cursor below opened stack shown t
    obtain ⟨header', marks', items', cursor', below', stack', stepped⟩ := step_of_atList? opened
    obtain ⟨⟨⟨rfl, rfl, rfl⟩, rfl⟩, rfl⟩ : ((header' = header ∧ marks' = marks ∧ items' = items) ∧
        cursor' = cursor) ∧ below' = below := by simpa using stack'.symm.trans stack
    constructor
    · intro none
      rw [stepped, present_of_nil there header' marks' none, stack]
      simp only [Step.following, proceed, List.append_nil]
      rfl
    · intro only lone fallback
      obtain ⟨choice, found⟩ := Cell.exists_choice?_of_isFallback fallback
      refine ⟨choice, found, ?_⟩
      rw [stepped, present_of_fallback there header' marks' lone found fallback]
      rfl

/-- A list of three items: one is offered while all three count, one is no option, and one is a
fallback. -/
def stall : Document where
  content := [.options none {} [
    .conditional (.binary .equal (.variable Memory.optionsCount) (.constant (.number 3)))
      (.acting (.trigger ["coins"]) (.option "Buy" .once {} [])),
    .line "Bread" {},
    .option "Leave" .fallback {} []]]

theorem listed_of_shown_stall :
    let s := ofScript (Script.ofDocument stall) 1
    let t := (s.next 1).session
    (s.next 1).result = .beat (.options none {} [⟨"Buy", {}⟩]) ∧
      (s.next 1).events = [] ∧ t.memory.values = ∅ ∧ t.memory.access = ∅ ∧
      t.get Memory.optionsCount = .number (Float.ofInt 1) := by
  intro s t
  have shown : (s.next 1).result = .beat (.options none {} [⟨"Buy", {}⟩]) := by
    have buy : ∀ lookup, Template.fill lookup "Buy" = "Buy" := by
      intro lookup
      cbv
    change Reply.beat (.options none {} [⟨Template.fill _ "Buy", {}⟩]) = _
    rw [buy]
  obtain ⟨n, there, events, header, items, cursor, below, inside, -, opened, stack, -, -, -, -, -,
    left, quiet, counts⟩ := (listed_of_shown s 1).1 _ _ _ shown
  obtain rfl : n = 0 := Nat.lt_one_iff.1 inside
  obtain ⟨rfl, rfl⟩ := Prod.mk.inj (Option.some.inj opened)
  obtain ⟨-, -, rfl⟩ := Place.options.inj (Frame.mk.inj (List.cons.inj stack).1).1
  have values : t.memory.values = ∅ := congrArg (fun u : Session => u.memory.values) left
  have access : t.memory.access = ∅ := congrArg (fun u : Session => u.memory.access) left
  exact ⟨shown, rfl, values, access, (counts (by decide)).2⟩

end Session
end Dialogue
