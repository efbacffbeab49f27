import Dialogue.Proofs.Snapshot
import Dialogue.Proofs.Visits

/-! Visits that try again. A visit of a variation tries alternatives until one is not an unmet
condition, as many times as there are alternatives. In a mode that repeats, a visit that shows
nothing has missed with every try, and where it missed follows from the mode: a cycle goes once
around, and a round is drawn to its end and followed by the beginning of another. -/
namespace Dialogue

/-- The modes that start again after their last alternative. -/
def VariationMode.repeats : VariationMode → Bool
  | cycle | shuffle | shuffleCycle => true
  | _ => false

namespace Variation

variable {index : UInt64} {mode : VariationMode} {alternatives : List Cell} {length : Nat}

/-! A try leaves what conditions read. -/

theorem get_cursor (m : Memory) (datum : Datum) (name : String) (default : Value) :
    (m.note (cursorKey index) datum).get name default = m.get name default :=
  m.get_note_of_ne datum (optionsCount_ne_cursorKey index).symm name default

theorem get_visited (m : Memory) (datum : Datum) (name : String) (default : Value) :
    (m.note (visitedKey index) datum).get name default = m.get name default :=
  m.get_note_of_ne datum (optionsCount_ne_visitedKey index).symm name default

theorem get_shuffle (index : UInt64) (mode : VariationMode) (length : Nat) (m : Memory)
    (random : UInt32) (name : String) (default : Value) :
    (shuffle index mode length m random).2.1.get name default = m.get name default := by
  simp only [shuffle]
  repeat' split
  all_goals simp only [get_cursor, get_visited]

theorem get_next (index : UInt64) (mode : VariationMode) (length : Nat) (m : Memory)
    (random : UInt32) (name : String) (default : Value) :
    (next index mode length m random).2.1.get name default = m.get name default := by
  cases mode
  case sequence => exact get_cursor m _ name default
  case once | cycle =>
    simp only [next]
    split <;> simp only [get_cursor]
  all_goals exact get_shuffle index _ length m random name default

@[simp] theorem isUnmet_next (index : UInt64) (mode : VariationMode) (length : Nat) (m : Memory)
    (random : UInt32) (alternative : Cell) :
    isUnmet (next index mode length m random).2.1 alternative = isUnmet m alternative := by
  have same (e : Expr) : e.holds (next index mode length m random).2.1 = e.holds m :=
    Expr.holds_congr fun name _ => get_next index mode length m random name .null
  simp only [isUnmet, same]

/-! What a variation that repeats remembers. -/

/-- Whether the bookkeeping of a variation is that of a mode that repeats. -/
inductive Ready (index : UInt64) (length : Nat) : VariationMode → Memory → Prop
  | cycle {n : Nat} {m : Memory} (reached : n ≤ length) (passed : Passed index n m) :
      Ready index length .cycle m
  | round {mode : VariationMode} {picks : List Nat} {m : Memory} (renews : mode.renews = true)
      (drawn : Drawn index length picks m) : Ready index length mode m

/-- Memories in which a variation can be visited. At its first visit it has no bookkeeping yet, a
visit takes place in any random state, and all that is known of what happens after it is that it
does not touch the bookkeeping. -/
inductive Revisited (index : UInt64) (mode : VariationMode) (alternatives : List Cell) :
    Memory → Prop
  | unvisited {m : Memory} (uncounted : m.internal[cursorKey index]? = none)
      (unvisited : m.internal[visitedKey index]? = none) : Revisited index mode alternatives m
  | visit {before after : Memory} (revisited : Revisited index mode alternatives before)
      (random : UInt32)
      (kept : Untouched index
        (pick index mode alternatives alternatives.length before random).2.1 after) :
      Revisited index mode alternatives after

theorem Ready.of_untouched {before after : Memory} (ready : Ready index length mode before)
    (same : Untouched index before after) : Ready index length mode after := by
  cases ready with
  | cycle reached passed => exact .cycle reached (passed.of_untouched same)
  | round renews drawn => exact .round renews (drawn.of_untouched same)

/-- In a mode that repeats, every try gives an alternative. -/
theorem Ready.next {m : Memory} (ready : Ready index length mode m) (positive : 0 < length)
    (small : length < 2 ^ 63) (random : UInt32) :
    ∃ position < length, (Variation.next index mode length m random).1 = some position ∧
      Ready index length mode (Variation.next index mode length m random).2.1 := by
  cases ready with
  | @cycle n _ reached passed =>
      obtain ⟨tried, after⟩ := passed.next_cycle positive small reached random
      have inside : n % length < length := Nat.mod_lt n positive
      exact ⟨n % length, inside, tried, .cycle inside after⟩
  | @round _ picks _ renews drawn =>
      have draws := VariationMode.draws_of_renews renews
      by_cases left : picks.length < length
      · obtain ⟨pick, tried, after⟩ := drawn.next_left draws small left random
        exact ⟨pick, after.bounded pick (by simp), tried, .round renews after⟩
      · obtain ⟨pick, tried, after⟩ :=
          drawn.next_renewed renews positive small (Nat.le_of_not_lt left) random
        exact ⟨pick, after.bounded pick (by simp), tried, .round renews after⟩

/-! Tries that miss. -/

/-- Whether tries fall on unmet conditions one after the other, at these positions. -/
inductive Misses (index : UInt64) (mode : VariationMode) (alternatives : List Cell) :
    List Nat → Memory → UInt32 → Prop
  | nil (m : Memory) (random : UInt32) : Misses index mode alternatives [] m random
  | cons {m : Memory} {random : UInt32} {position : Nat} {alternative : Cell}
      {positions : List Nat}
      (tried : (next index mode alternatives.length m random).1 = some position)
      (found : alternatives[position]? = some alternative)
      (unmet : isUnmet m alternative = true)
      (rest : Misses index mode alternatives positions
        (next index mode alternatives.length m random).2.1
        (next index mode alternatives.length m random).2.2) :
      Misses index mode alternatives (position :: positions) m random

section
variable {m : Memory} {random : UInt32} {positions : List Nat}

theorem Misses.unmet (misses : Misses index mode alternatives positions m random) :
    ∀ position ∈ positions, ∃ alternative,
      alternatives[position]? = some alternative ∧ isUnmet m alternative = true := by
  induction misses with
  | nil m random => exact fun position member => absurd member List.not_mem_nil
  | cons tried found unmet rest ih =>
      intro other member
      rcases List.mem_cons.1 member with rfl | later
      · exact ⟨_, found, unmet⟩
      · simpa only [isUnmet_next] using ih other later

theorem Misses.bounded (misses : Misses index mode alternatives positions m random) :
    ∀ position ∈ positions, position < alternatives.length := by
  intro position member
  obtain ⟨alternative, found, -⟩ := misses.unmet position member
  exact (List.getElem?_eq_some_iff.1 found).1

/-- Tries end with an alternative to show, or all of them miss. -/
theorem Ready.shows_or_misses (ready : Ready index alternatives.length mode m)
    (positive : 0 < alternatives.length) (small : alternatives.length < 2 ^ 63) (tries : Nat)
    (random : UInt32) :
    (∃ alternative ∈ alternatives, isUnmet m alternative = false ∧
      (pick index mode alternatives tries m random).1 = some alternative) ∨
    ∃ positions, positions.length = tries ∧ Misses index mode alternatives positions m random := by
  induction tries generalizing m random with
  | zero => exact .inr ⟨[], rfl, .nil m random⟩
  | succ tries ih =>
      obtain ⟨position, inside, tried, after⟩ := ready.next positive small random
      have found : alternatives[position]? = some alternatives[position] :=
        List.getElem?_eq_getElem inside
      cases unmet : isUnmet m alternatives[position] with
      | false =>
          refine .inl ⟨alternatives[position], List.getElem_mem inside, unmet, ?_⟩
          simp [pick, tried, found, unmet]
      | true =>
          rcases ih after (Variation.next index mode alternatives.length m random).2.2 with
            ⟨alternative, member, met, shown⟩ | ⟨positions, count, misses⟩
          · rw [isUnmet_next] at met
            refine .inl ⟨alternative, member, met, ?_⟩
            simpa [pick, tried, found, unmet] using shown
          · exact .inr ⟨position :: positions, congrArg (· + 1) count,
              .cons tried found unmet misses⟩

/-- Whatever tries come to, the bookkeeping stays that of the mode. -/
theorem Ready.pick (ready : Ready index alternatives.length mode m)
    (positive : 0 < alternatives.length) (small : alternatives.length < 2 ^ 63) (tries : Nat)
    (random : UInt32) :
    Ready index alternatives.length mode
      (Variation.pick index mode alternatives tries m random).2.1 := by
  induction tries generalizing m random with
  | zero => exact ready
  | succ tries ih =>
      obtain ⟨position, inside, tried, after⟩ := ready.next positive small random
      simp only [Variation.pick, tried, Option.bind_some, List.getElem?_eq_getElem inside]
      split
      · exact ih after _
      · exact after

theorem Revisited.ready (revisited : Revisited index mode alternatives m)
    (repeats : mode.repeats = true) (positive : 0 < alternatives.length)
    (small : alternatives.length < 2 ^ 63) : Ready index alternatives.length mode m := by
  induction revisited with
  | unvisited uncounted unvisited =>
      cases mode
      case cycle => exact .cycle (Nat.zero_le _) (passed_of_uncounted uncounted)
      case shuffle | shuffleCycle => exact .round rfl (drawn_of_unvisited unvisited)
      all_goals cases repeats
  | visit revisited random kept ih => exact (ih.pick positive small _ random).of_untouched kept

/-! Where a visit missed. -/

/-- The tries of a cycle follow its cursor around. -/
theorem Misses.getElem?_of_passed {n : Nat}
    (misses : Misses index .cycle alternatives positions m random)
    (positive : 0 < alternatives.length) (small : alternatives.length < 2 ^ 63)
    (reached : n ≤ alternatives.length) (passed : Passed index n m) {i : Nat}
    (inside : i < positions.length) :
    positions[i]? = some ((n + i) % alternatives.length) := by
  induction misses generalizing n i with
  | nil m random => exact absurd inside (Nat.not_lt_zero i)
  | @cons m random position alternative positions tried found unmet rest ih =>
      obtain ⟨same, after⟩ := passed.next_cycle positive small reached random
      cases i with
      | zero => exact tried.symm.trans same
      | succ i =>
          have going : n % alternatives.length + 1 ≤ alternatives.length := Nat.mod_lt n positive
          rw [List.getElem?_cons_succ, ih going after (Nat.lt_of_succ_lt_succ inside),
            Nat.add_assoc, Nat.mod_add_mod, Nat.add_comm 1 i]

/-- A visit of a cycle that shows nothing has missed everywhere. -/
theorem Misses.mem_of_passed {n position : Nat}
    (misses : Misses index .cycle alternatives positions m random)
    (small : alternatives.length < 2 ^ 63) (reached : n ≤ alternatives.length)
    (passed : Passed index n m) (count : positions.length = alternatives.length)
    (inside : position < alternatives.length) : position ∈ positions := by
  have positive : 0 < alternatives.length := Nat.zero_lt_of_lt inside
  let turn := (position + (alternatives.length - n)) % alternatives.length
  have short : turn < positions.length := by
    rw [count]
    exact Nat.mod_lt _ positive
  have around : (n + turn) % alternatives.length = position := by
    calc (n + turn) % alternatives.length
        = (n + (position + (alternatives.length - n))) % alternatives.length :=
          Nat.add_mod_mod ..
      _ = (position + alternatives.length) % alternatives.length := by
          congr 1
          omega
      _ = position := by rw [Nat.add_mod_right, Nat.mod_eq_of_lt inside]
  have found := misses.getElem?_of_passed positive small reached passed short
  rw [around] at found
  exact List.mem_of_getElem? found

section
variable {picks : List Nat} (renews : mode.renews = true)
  (small : alternatives.length < 2 ^ 63)
include renews small

/-- Within a round no position is tried twice. -/
theorem Misses.nodup_of_drawn (misses : Misses index mode alternatives positions m random)
    (drawn : Drawn index alternatives.length picks m)
    (room : picks.length + positions.length ≤ alternatives.length) :
    (picks ++ positions).Nodup := by
  induction misses generalizing picks with
  | nil m random => simpa only [List.append_nil] using drawn.nodup
  | @cons m random position alternative positions tried found unmet rest ih =>
      rw [List.length_cons] at room
      obtain ⟨pick, same, after⟩ := drawn.next_left (VariationMode.draws_of_renews renews) small
        (by omega) random
      obtain rfl := Option.some.inj (tried.symm.trans same)
      rw [List.append_cons]
      exact ih after (by rw [List.length_append, List.length_singleton]; omega)

/-- The round after a full one begins with positions that differ. -/
theorem Misses.nodup_of_full (misses : Misses index mode alternatives positions m random)
    (drawn : Drawn index alternatives.length picks m)
    (full : picks.length = alternatives.length)
    (room : positions.length ≤ alternatives.length) : positions.Nodup := by
  cases misses with
  | nil m random => exact List.nodup_nil
  | @cons _ _ position alternative positions tried found unmet rest =>
      rw [List.length_cons] at room
      obtain ⟨pick, same, after⟩ := drawn.next_renewed renews (by omega) small
        (Nat.le_of_eq full.symm) random
      obtain rfl := Option.some.inj (tried.symm.trans same)
      exact rest.nodup_of_drawn renews small after (by rw [List.length_singleton]; omega)

/-- Tries that outlast a round end it and begin another. -/
theorem Misses.nodup_of_append {first second : List Nat}
    (misses : Misses index mode alternatives (first ++ second) m random)
    (drawn : Drawn index alternatives.length picks m)
    (full : picks.length + first.length = alternatives.length)
    (room : second.length ≤ alternatives.length) :
    (picks ++ first).Nodup ∧ second.Nodup := by
  induction first generalizing picks m random with
  | nil =>
      refine ⟨?_, misses.nodup_of_full renews small drawn full room⟩
      simpa only [List.append_nil] using drawn.nodup
  | cons position first ih =>
      rw [List.length_cons] at full
      rw [List.cons_append] at misses
      cases misses with
      | cons tried found unmet rest =>
          obtain ⟨pick, same, after⟩ := drawn.next_left (VariationMode.draws_of_renews renews)
            small (by omega) random
          obtain rfl := Option.some.inj (tried.symm.trans same)
          rw [List.append_cons]
          exact ih rest after (by rw [List.length_append, List.length_singleton]; omega)

/-- A visit that shows nothing has missed with the rest of the round, and with as many positions of
the next one as this one had drawn before. -/
theorem Misses.rounds (misses : Misses index mode alternatives positions m random)
    (drawn : Drawn index alternatives.length picks m)
    (count : positions.length = alternatives.length) :
    ∃ rest again, positions = rest ++ again ∧
      (picks ++ rest).Perm (List.range alternatives.length) ∧
      again.Nodup ∧ again.length = picks.length := by
  have fewer : picks.length ≤ alternatives.length := by
    have covered : picks ⊆ List.range alternatives.length :=
      fun pick member => List.mem_range.2 (drawn.bounded pick member)
    simpa using (List.subperm_of_subset drawn.nodup covered).length_le
  let split := alternatives.length - picks.length
  have parts : positions = positions.take split ++ positions.drop split :=
    (List.take_append_drop split positions).symm
  have full : picks.length + (positions.take split).length = alternatives.length := by
    rw [List.length_take]
    omega
  have again : (positions.drop split).length = picks.length := by
    rw [List.length_drop]
    omega
  have bounded := misses.bounded
  rw [parts] at misses
  obtain ⟨first, second⟩ := misses.nodup_of_append renews small drawn full (by omega)
  refine ⟨_, _, parts, perm_range first ?_ (by rw [List.length_append, full]), second, again⟩
  intro position member
  rcases List.mem_append.1 member with earlier | later
  · exact drawn.bounded position earlier
  · exact bounded position (List.mem_of_mem_take later)

end

/-- There are as many unmet conditions as there are different positions that missed. -/
theorem length_le_unmet {positions : List Nat} (nodup : positions.Nodup)
    (unmet : ∀ position ∈ positions, ∃ alternative,
      alternatives[position]? = some alternative ∧ isUnmet m alternative = true) :
    positions.length ≤ (alternatives.filter (isUnmet m)).length := by
  let entries := alternatives.zipIdx.filter fun entry => isUnmet m entry.1
  have covered : positions ⊆ entries.map Prod.snd := by
    intro position member
    obtain ⟨alternative, found, missed⟩ := unmet position member
    refine List.mem_map.2 ⟨(alternative, position), List.mem_filter.2 ⟨?_, missed⟩, rfl⟩
    exact List.mem_zipIdx_iff_getElem?.2 found
  have counted : entries.map Prod.fst = alternatives.filter (isUnmet m) := by
    rw [← List.zipIdx_map_fst 0 alternatives, List.filter_map]
    simp [entries, Function.comp_def]
  calc positions.length ≤ (entries.map Prod.snd).length :=
        (List.subperm_of_subset nodup covered).length_le
    _ = (entries.map Prod.fst).length := by rw [List.length_map, List.length_map]
    _ = (alternatives.filter (isUnmet m)).length := by rw [counted]

/-- The alternatives that are left of the round. -/
def left (index : UInt64) (alternatives : List Cell) (m : Memory) : List Cell :=
  (alternatives.zipIdx.filter fun entry =>
    !(m.positions (visitedKey index)).contains entry.2.toUInt64).map Prod.fst

theorem exists_of_mem_left {picks : List Nat} {alternative : Cell}
    (drawn : Drawn index alternatives.length picks m)
    (remains : alternative ∈ left index alternatives m) :
    ∃ position, alternatives[position]? = some alternative ∧ position ∉ picks := by
  obtain ⟨entry, kept, rfl⟩ := List.mem_map.1 remains
  obtain ⟨member, fresh⟩ := List.mem_filter.1 kept
  refine ⟨entry.2, List.mem_zipIdx_iff_getElem?.1 member, ?_⟩
  intro picked
  have visited : entry.2.toUInt64 ∈ m.positions (visitedKey index) := by
    rw [drawn.visited]
    exact List.mem_map_of_mem picked
  rw [List.contains_iff_mem.2 visited] at fresh
  cases fresh

/-- Whether a visit is sure to get to an alternative that can be shown. A round that ends during the
visit is followed by one that draws from all alternatives, also from those that were tried just now,
so that what is left of the round has to do, or the tries that are left for the next one. -/
def Reaches (index : UInt64) (mode : VariationMode) (alternatives : List Cell) (m : Memory) :
    Prop :=
  mode = .cycle ∨ (∃ alternative ∈ left index alternatives m, isUnmet m alternative = false) ∨
    (alternatives.filter (isUnmet m)).length < (m.positions (visitedKey index)).length

/-- The tries of a visit do not all miss where it is sure to get to an alternative. -/
theorem Ready.not_misses_of_reaches (ready : Ready index alternatives.length mode m)
    (small : alternatives.length < 2 ^ 63)
    (met : ∃ alternative ∈ alternatives, isUnmet m alternative = false)
    (reaches : Reaches index mode alternatives m)
    (count : positions.length = alternatives.length) :
    ¬ Misses index mode alternatives positions m random := by
  intro misses
  -- A position that was missed holds no alternative that can be shown.
  have missed : ∀ position ∈ positions, ∀ alternative, alternatives[position]? = some alternative →
      isUnmet m alternative ≠ false := by
    intro position member alternative found
    obtain ⟨other, same, unmet⟩ := misses.unmet position member
    obtain rfl := Option.some.inj (found.symm.trans same)
    simp [unmet]
  cases ready with
  | cycle reached passed =>
      obtain ⟨alternative, member, shown⟩ := met
      obtain ⟨position, inside, found⟩ := List.getElem_of_mem member
      have tried := misses.mem_of_passed small reached passed count inside
      exact missed position tried alternative (List.getElem?_eq_some_iff.2 ⟨inside, found⟩) shown
  | @round _ picks _ renews drawn =>
      obtain ⟨rest, again, rfl, round, nodup, same⟩ := misses.rounds renews small drawn count
      rcases reaches with rfl | ⟨alternative, remains, shown⟩ | fewer
      · cases renews
      · obtain ⟨position, found, fresh⟩ := exists_of_mem_left drawn remains
        have inside : position ∈ picks ++ rest :=
          round.mem_iff.2 (List.mem_range.2 (List.getElem?_eq_some_iff.1 found).1)
        rcases List.mem_append.1 inside with picked | tried
        · exact fresh picked
        · exact missed position (List.mem_append_left again tried) alternative found shown
      · have unmet := length_le_unmet (m := m) nodup
          fun position member => misses.unmet position (List.mem_append_right rest member)
        rw [drawn.visited, List.length_map] at fewer
        omega

end

end Variation

namespace Session

variable {index : UInt64} {mode : VariationMode} {alternatives : List Cell} {s : Session}

/-- A variation that repeats shows an alternative at every visit that is sure to get to one, however
often it was visited before and whatever happened in between. -/
theorem shows_of_revisited (small : alternatives.length < 2 ^ 63) (repeats : mode.repeats = true)
    (revisited : Variation.Revisited index mode alternatives s.memory)
    (met : ∃ alternative ∈ alternatives, Variation.isUnmet s.memory alternative = false)
    (reaches : Variation.Reaches index mode alternatives s.memory) :
    ∃ alternative ∈ alternatives, Variation.isUnmet s.memory alternative = false ∧
      (s.enter (.variations index mode alternatives)).session.stack =
        ⟨.content alternative.children, 0⟩ :: s.stack := by
  have positive : 0 < alternatives.length := by
    obtain ⟨alternative, member, -⟩ := met
    exact List.length_pos_of_mem member
  have ready := revisited.ready repeats positive small
  rcases ready.shows_or_misses positive small alternatives.length s.random with
    ⟨alternative, member, shown, picked⟩ | ⟨positions, count, misses⟩
  · refine ⟨alternative, member, shown, ?_⟩
    simp [enter, proceed, picked, push]
  · exact absurd misses (ready.not_misses_of_reaches small met reaches count)

theorem memory_enter_variations (s : Session) (index : UInt64) (mode : VariationMode)
    (alternatives : List Cell) :
    (s.enter (.variations index mode alternatives)).session.memory =
      (Variation.pick index mode alternatives alternatives.length s.memory s.random).2.1 := by
  simp only [enter, proceed]
  split <;> rfl

/-- Sun, or rain if it rains. -/
def weather : List Cell :=
  [.content 1000 [.line 10000 "Sun." {}],
    .content 1001 [.conditional 10010 (.variable "rain") (.line 10010 "Rain." {})]]

/-- A session that has visited the weather once, and was shown the sun. -/
def sunny : Session :=
  ((ofScript ⟨[.variations 10 .shuffle weather], []⟩ 4).enter
    (.variations 10 .shuffle weather)).session

/-- Whatever is done to other things, the sunny session can visit the weather again. -/
theorem revisited_of_sunny {m : Memory} (same : m.internal = sunny.memory.internal) :
    Variation.Revisited 10 .shuffle weather m :=
  .visit (.unvisited (m := ∅) rfl rfl) 4
    (.of_internal (same.trans (congrArg Memory.internal (memory_enter_variations ..))))

/-- Once it rains, the rain is left of the round. -/
theorem shows_of_revisited_rain :
    let rainy := (sunny.set "rain" (.bool true)).session
    Variation.Revisited 10 .shuffle weather rainy.memory ∧
      ∃ alternative ∈ weather, Variation.isUnmet rainy.memory alternative = false ∧
        (rainy.enter (.variations 10 .shuffle weather)).session.stack =
          ⟨.content alternative.children, 0⟩ :: rainy.stack := by
  intro rainy
  have revisited : Variation.Revisited 10 .shuffle weather rainy.memory := revisited_of_sunny rfl
  have rains : (Variation.left 10 weather rainy.memory).any
      (fun alternative => !Variation.isUnmet rainy.memory alternative) = true := by
    decide +kernel
  have remains : ∃ alternative ∈ Variation.left 10 weather rainy.memory,
      Variation.isUnmet rainy.memory alternative = false := by
    simpa only [List.any_eq_true, Bool.not_eq_true'] using rains
  have met : ∃ alternative ∈ weather, Variation.isUnmet rainy.memory alternative = false :=
    ⟨_, List.mem_cons_self, rfl⟩
  exact ⟨revisited, shows_of_revisited (by decide) rfl revisited met (.inr (.inl remains))⟩

/-- While it does not rain, the round of the sunny session ends with a try that misses, and the
other try draws the rain again from a new round, so that the sun is not shown. -/
theorem shows_nothing_of_sunny :
    Variation.Revisited 10 .shuffle weather sunny.memory ∧
      (∃ alternative ∈ weather, Variation.isUnmet sunny.memory alternative = false) ∧
      (sunny.enter (.variations 10 .shuffle weather)).session.stack = sunny.stack := by
  refine ⟨revisited_of_sunny rfl, ⟨_, List.mem_cons_self, rfl⟩, ?_⟩
  have nothing : (Variation.pick 10 .shuffle weather weather.length sunny.memory
      sunny.random).1.isNone = true := by
    decide +kernel
  simp [enter, proceed, Option.isNone_iff_eq_none.1 nothing]

end Session
end Dialogue
