import Dialogue.Proofs.Options
import Mathlib.Algebra.Group.Nat.Defs
import Mathlib.Data.List.Perm.Subperm
import Std.Data.String.ToNat

/-! Variations over visits of any number. The modes that go by a cursor are followed by how many
alternatives it has passed, and those that draw at random by the list of picks of the round. Both
are read from two entries of the bookkeeping, so that whatever happens between two visits counts
only if it touches these. -/
namespace Dialogue

namespace Random

theorem below_lt (bound : UInt32) (positive : 0 < bound) (state : UInt32) :
    (below bound positive state).1 < bound := by
  fun_induction below bound positive state with
  | case1 state next accepted => exact UInt32.mod_lt _ positive
  | case2 state next refused ih => exact ih

theorem draw_lt {length : Nat} (positive : 0 < length) (state : UInt32) :
    (draw length state).1 < length := by
  fun_cases draw length state with
  | case1 nonzero word after drawn =>
      have bounded := below_lt length.toUInt32 nonzero state
      rw [drawn, UInt32.lt_iff_toNat_lt] at bounded
      exact Nat.lt_of_lt_of_le bounded (Nat.mod_le length UInt32.size)
  | case2 => exact positive

end Random

namespace VariationMode

/-- Whether results number all positions below a length, each once. -/
def IsRound (length : Nat) (results : Nat → Option Nat) : Prop :=
  ((List.range length).map results).Perm ((List.range length).map some)

/-- What the results of visiting a variation again and again are, counted from zero. -/
def Promises (length : Nat) (results : Nat → Option Nat) : VariationMode → Prop
  | sequence => ∀ k, results k = some (min k (length - 1))
  | once => ∀ k, results k = if k < length then some k else none
  | cycle => ∀ k, results k = some (k % length)
  | shuffle | shuffleCycle => ∀ j, IsRound length fun i => results (j * length + i)
  | shuffleOnce => IsRound length results ∧ ∀ k, length ≤ k → results k = none
  | shuffleSequence =>
      IsRound length results ∧ ∀ k, length ≤ k → results k = results (length - 1)

/-- The modes that draw at random. -/
def draws : VariationMode → Bool
  | sequence | once | cycle => false
  | _ => true

/-- The modes that draw from all alternatives again after a round. -/
def renews : VariationMode → Bool
  | shuffle | shuffleCycle => true
  | _ => false

theorem draws_of_renews {mode : VariationMode} (renewing : mode.renews = true) :
    mode.draws = true := by
  cases mode
  case sequence | once | cycle => cases renewing
  all_goals rfl

end VariationMode

namespace Assignment

@[simp] theorem internal_run (m : Memory) (assignment : Assignment) :
    (run m assignment).memory.internal = m.internal := by
  induction assignment with
  | store name update value => rfl
  | chain name update next ih => exact ih

@[simp] theorem internal_runAll (m : Memory) (assignments : List Assignment) :
    (runAll m assignments).memory.internal = m.internal := by
  induction assignments generalizing m with
  | nil => rfl
  | cons first rest ih =>
      rw [runAll]
      exact (ih _).trans (internal_run m first)

end Assignment

namespace Action

@[simp] theorem internal_run (m : Memory) (action : Action) :
    (run m action).memory.internal = m.internal := by
  cases action with
  | assign assignments => exact Assignment.internal_runAll m assignments
  | trigger names => rfl

@[simp] theorem internal_runAll (m : Memory) (actions : List Action) :
    (runAll m actions).memory.internal = m.internal := by
  induction actions generalizing m with
  | nil => rfl
  | cons first rest ih =>
      rw [runAll]
      exact (ih _).trans (internal_run m first)

end Action

namespace Variation

/-- Whether the bookkeeping of a variation is the same in two memories. -/
def Untouched (index : UInt64) (before after : Memory) : Prop :=
  after.internal[cursorKey index]? = before.internal[cursorKey index]? ∧
    after.internal[visitedKey index]? = before.internal[visitedKey index]?

/-- Visits of a variation that was not visited before. Each takes place in a memory and a random
state of its own, and all that is known of what happened since the last one is that it did not touch
the bookkeeping. -/
structure Visits (index : UInt64) (mode : VariationMode) (length : Nat) where
  memory : Nat → Memory
  random : Nat → UInt32
  uncounted : (memory 0).internal[cursorKey index]? = none
  unvisited : (memory 0).internal[visitedKey index]? = none
  kept : ∀ k, Untouched index (next index mode length (memory k) (random k)).2.1 (memory (k + 1))

namespace Visits

variable {index : UInt64} {mode : VariationMode} {length : Nat}

def result (visits : Visits index mode length) (k : Nat) : Option Nat :=
  (next index mode length (visits.memory k) (visits.random k)).1

end Visits

/-! What does not touch the bookkeeping. -/

theorem cursorKey_inj {index other : UInt64} :
    cursorKey index = cursorKey other ↔ index = other := by
  simp only [cursorKey, String.append_left_inj, Nat.toString_eq_repr, Nat.repr_inj,
    UInt64.toNat_inj]

theorem visitedKey_inj {index other : UInt64} :
    visitedKey index = visitedKey other ↔ index = other := by
  simp only [visitedKey, String.append_left_inj, Nat.toString_eq_repr, Nat.repr_inj,
    UInt64.toNat_inj]

theorem cursorKey_ne_visitedKey (index other : UInt64) : cursorKey index ≠ visitedKey other := by
  intro same
  have last := congrArg (fun key => key.toList.getLast?) same
  simp [cursorKey, visitedKey] at last

theorem optionsCount_ne_cursorKey (index : UInt64) : Memory.optionsCount ≠ cursorKey index := by
  intro same
  have last := congrArg (fun key => key.toList.getLast?) same
  simp [cursorKey, Memory.optionsCount] at last

theorem optionsCount_ne_visitedKey (index : UInt64) : Memory.optionsCount ≠ visitedKey index := by
  intro same
  have last := congrArg (fun key => key.toList.getLast?) same
  simp [visitedKey, Memory.optionsCount] at last

variable {index other : UInt64} {length : Nat}

theorem Untouched.refl (index : UInt64) (m : Memory) : Untouched index m m := ⟨rfl, rfl⟩

theorem Untouched.trans {before middle after : Memory} (first : Untouched index before middle)
    (second : Untouched index middle after) : Untouched index before after :=
  ⟨second.1.trans first.1, second.2.trans first.2⟩

theorem Untouched.of_internal {before after : Memory} (same : after.internal = before.internal) :
    Untouched index before after := by
  rw [Untouched, same]
  exact ⟨rfl, rfl⟩

theorem untouched_cursor (different : other ≠ index) (m : Memory) (datum : Datum) :
    Untouched index m (m.note (cursorKey other) datum) := by
  constructor
  · exact Memory.internal_note_of_ne m datum (mt cursorKey_inj.1 different)
  · exact Memory.internal_note_of_ne m datum (cursorKey_ne_visitedKey other index)

theorem untouched_visited (different : other ≠ index) (m : Memory) (datum : Datum) :
    Untouched index m (m.note (visitedKey other) datum) := by
  constructor
  · exact Memory.internal_note_of_ne m datum (cursorKey_ne_visitedKey index other).symm
  · exact Memory.internal_note_of_ne m datum (mt visitedKey_inj.1 different)

theorem untouched_optionsCount (index : UInt64) (m : Memory) (datum : Datum) :
    Untouched index m (m.note Memory.optionsCount datum) := by
  constructor
  · exact Memory.internal_note_of_ne m datum (optionsCount_ne_cursorKey index)
  · exact Memory.internal_note_of_ne m datum (optionsCount_ne_visitedKey index)

theorem untouched_shuffle (different : other ≠ index) (mode : VariationMode) (length : Nat)
    (m : Memory) (random : UInt32) :
    Untouched index m (shuffle other mode length m random).2.1 := by
  simp only [shuffle]
  repeat' split
  all_goals try exact Untouched.refl index m
  all_goals exact (untouched_visited different m _).trans (untouched_cursor different _ _)

theorem untouched_next (different : other ≠ index) (mode : VariationMode) (length : Nat)
    (m : Memory) (random : UInt32) : Untouched index m (next other mode length m random).2.1 := by
  cases mode
  case sequence => exact untouched_cursor different m _
  case once =>
    simp only [next]
    split
    · exact Untouched.refl index m
    · exact untouched_cursor different m _
  case cycle =>
    simp only [next]
    split <;> exact untouched_cursor different m _
  all_goals exact untouched_shuffle different _ length m random

theorem untouched_offer (index : UInt64) (m : Memory) (items : List Cell) :
    Untouched index m (Choice.offer m items).2 :=
  (untouched_optionsCount index m _).trans (untouched_optionsCount index _ _)

theorem untouched_select (index : UInt64) (s : Session) (choice : Choice) :
    Untouched index s.memory (s.select choice).1.memory := by
  have chosen : Untouched index s.memory (s.memory.visit choice.index) :=
    Untouched.of_internal rfl
  simp only [Session.select, Session.push]
  split
  · exact chosen.trans (Untouched.of_internal (Action.internal_runAll _ _))
  · exact (chosen.trans (untouched_optionsCount index _ _)).trans
      (Untouched.of_internal (Action.internal_runAll _ _))

/-- What a playthrough does to its memory between two visits of a variation. Drawing random numbers
is not among these, since it does not go through the memory. -/
inductive Aside (index : UInt64) : Memory → Memory → Prop
  | next {other : UInt64} (different : other ≠ index) (mode : VariationMode) (length : Nat)
      (m : Memory) (random : UInt32) : Aside index m (next other mode length m random).2.1
  | write (m : Memory) (name : String) (value : Value) : Aside index m (m.write name value).1
  | act (m : Memory) (action : Action) : Aside index m (action.run m).memory
  | offer (m : Memory) (items : List Cell) : Aside index m (Choice.offer m items).2
  | select (s : Session) (choice : Choice) : Aside index s.memory (s.select choice).1.memory

theorem Aside.untouched {before after : Memory} (aside : Aside index before after) :
    Untouched index before after := by
  cases aside with
  | next different mode length m random => exact untouched_next different mode length before random
  | write m name value => exact Untouched.of_internal rfl
  | act m action => exact Untouched.of_internal (Action.internal_run before action)
  | offer m items => exact untouched_offer index before items
  | select s choice => exact untouched_select index s choice

/-- What holds at the first visit, is kept by a visit and depends on the bookkeeping only, holds at
every visit. -/
theorem Visits.holds {mode : VariationMode} {P : Nat → Memory → Prop}
    (visits : Visits index mode length) (start : P 0 (visits.memory 0))
    (stable : ∀ k before after, Untouched index before after → P k before → P k after)
    (visit : ∀ k m random, P k m → P (k + 1) (Variation.next index mode length m random).2.1)
    (k : Nat) : P k (visits.memory k) := by
  induction k with
  | zero => exact start
  | succ k ih => exact stable (k + 1) _ _ (visits.kept k) (visit k _ _ ih)

/-! Cursors. -/

/-- Whether the cursor has passed as many alternatives. -/
def Passed (index : UInt64) (n : Nat) (m : Memory) : Prop :=
  (m.count? (cursorKey index)).getD (-1) = Int64.ofNat n - 1

theorem passed_of_uncounted {m : Memory} (uncounted : m.internal[cursorKey index]? = none) :
    Passed index 0 m := by
  rw [Passed, Memory.count?, uncounted]
  rfl

theorem Passed.of_untouched {n : Nat} {before after : Memory}
    (same : Untouched index before after) (passed : Passed index n before) :
    Passed index n after := by
  rw [Passed, Memory.count?, same.1]
  exact passed

theorem ofNat_succ_sub_one (n : Nat) : Int64.ofNat (n + 1) - 1 = Int64.ofNat n := by
  rw [Int64.ofNat_add]
  exact Int64.add_sub_cancel _ _

theorem passed_note (m : Memory) (n : Nat) :
    Passed index (n + 1) (m.note (cursorKey index) (.count (Int64.ofNat n))) := by
  rw [Passed, Memory.count?_note_self, ofNat_succ_sub_one]
  rfl

theorem ofNat_le_ofNat {a b : Nat} (small : a < 2 ^ 63) (little : b < 2 ^ 63) :
    Int64.ofNat a ≤ Int64.ofNat b ↔ a ≤ b := by
  rw [Int64.le_iff_toInt_le, Int64.toInt_ofNat_of_lt small, Int64.toInt_ofNat_of_lt little]
  exact Int.ofNat_le

theorem position?_ofNat {n : Nat} (small : n < 2 ^ 63) : position? (Int64.ofNat n) = some n := by
  have nonnegative : 0 ≤ Int64.ofNat n := (ofNat_le_ofNat (by decide) small).2 (Nat.zero_le n)
  rw [position?, if_pos nonnegative, Int64.toNatClampNeg_ofNat_of_lt small]

theorem min_ofNat {a b : Nat} (small : a < 2 ^ 63) (little : b < 2 ^ 63) :
    min (Int64.ofNat a) (Int64.ofNat b) = Int64.ofNat (min a b) := by
  by_cases le : a ≤ b
  · rw [Nat.min_eq_left le]
    exact if_pos ((ofNat_le_ofNat small little).2 le)
  · rw [Nat.min_eq_right (Nat.le_of_not_le le)]
    exact if_neg (mt (ofNat_le_ofNat small little).1 le)

/-- The cursor has not passed the last alternative while there are some that it has not passed. -/
theorem last_le_iff {last n : Nat} (small : last + 1 < 2 ^ 63) (reached : n ≤ last + 1) :
    Int64.ofNat (last + 1) - 1 ≤ Int64.ofNat n - 1 ↔ last + 1 ≤ n := by
  rw [ofNat_succ_sub_one]
  cases n with
  | zero =>
      have above : ¬ Int64.ofNat last ≤ Int64.ofNat 0 - 1 := by
        rw [Int64.le_iff_toInt_le, Int64.toInt_ofNat_of_lt (by omega)]
        have minus : (Int64.ofNat 0 - 1).toInt = -1 := by decide
        omega
      exact iff_of_false above (by omega)
  | succ n =>
      rw [ofNat_succ_sub_one, ofNat_le_ofNat (by omega) (by omega)]
      omega

theorem next_sequence {last n : Nat} {m : Memory} (small : last + 1 < 2 ^ 63)
    (reached : n ≤ last + 1) (passed : Passed index n m) (random : UInt32) :
    next index .sequence (last + 1) m random =
      (some (min n last), m.note (cursorKey index) (.count (Int64.ofNat (min n last))),
        random) := by
  have pick : min (Int64.ofNat n - 1 + 1) (Int64.ofNat (last + 1) - 1) =
      Int64.ofNat (min n last) := by
    rw [Int64.sub_add_cancel, ofNat_succ_sub_one, min_ofNat (by omega) (by omega)]
  have position : position? (Int64.ofNat (min n last)) = some (min n last) :=
    position?_ofNat (by omega)
  unfold Passed at passed
  simp only [next, passed, pick, position]

theorem next_of_unpassed {last n : Nat} {m : Memory} {mode : VariationMode}
    (cursory : mode = .once ∨ mode = .cycle) (small : last + 1 < 2 ^ 63) (left : n < last + 1)
    (passed : Passed index n m) (random : UInt32) :
    next index mode (last + 1) m random =
      (some n, m.note (cursorKey index) (.count (Int64.ofNat n)), random) := by
  have before : ¬ Int64.ofNat (last + 1) - 1 ≤ Int64.ofNat n - 1 := by
    rw [last_le_iff small (by omega)]
    omega
  have position : position? (Int64.ofNat n) = some n := position?_ofNat (by omega)
  unfold Passed at passed
  rcases cursory with rfl | rfl <;>
    simp only [next, passed, before, if_false, Int64.sub_add_cancel, position]

theorem next_once_of_passed {last : Nat} {m : Memory} (small : last + 1 < 2 ^ 63)
    (passed : Passed index (last + 1) m) (random : UInt32) :
    next index .once (last + 1) m random = (none, m, random) := by
  have ended := (last_le_iff small (Nat.le_refl _)).2 (Nat.le_refl (last + 1))
  unfold Passed at passed
  simp only [next, passed, ended, if_true]

theorem next_cycle_of_passed {last : Nat} {m : Memory} (small : last + 1 < 2 ^ 63)
    (passed : Passed index (last + 1) m) (random : UInt32) :
    next index .cycle (last + 1) m random =
      (some 0, m.note (cursorKey index) (.count (Int64.ofNat 0)), random) := by
  have ended := (last_le_iff small (Nat.le_refl _)).2 (Nat.le_refl (last + 1))
  have position : position? (Int64.ofNat 0) = some 0 := position?_ofNat (by decide)
  unfold Passed at passed
  simp only [next, passed, ended, if_true]
  exact congrArg (·, _, random) position

/-- A cycle goes on from its cursor, and from its end to its beginning. -/
theorem Passed.next_cycle {n : Nat} {m : Memory} (passed : Passed index n m)
    (positive : 0 < length) (small : length < 2 ^ 63) (reached : n ≤ length) (random : UInt32) :
    (next index .cycle length m random).1 = some (n % length) ∧
      Passed index (n % length + 1) (next index .cycle length m random).2.1 := by
  obtain ⟨last, rfl⟩ := Nat.exists_eq_add_one.2 positive
  by_cases left : n < last + 1
  · rw [Nat.mod_eq_of_lt left, next_of_unpassed (.inr rfl) small left passed]
    exact ⟨rfl, passed_note m n⟩
  · obtain rfl : n = last + 1 := by omega
    rw [Nat.mod_self, next_cycle_of_passed small passed]
    exact ⟨rfl, passed_note m 0⟩

namespace Visits

theorem passed_sequence {last : Nat} (visits : Visits index .sequence (last + 1))
    (small : last + 1 < 2 ^ 63) (k : Nat) :
    Passed index (min k (last + 1)) (visits.memory k) := by
  refine visits.holds (P := fun k m => Passed index (min k (last + 1)) m)
    (passed_of_uncounted visits.uncounted) (fun _ _ _ => Passed.of_untouched) ?_ k
  intro k m random passed
  have count : min (k + 1) (last + 1) = min (min k (last + 1)) last + 1 := by omega
  rw [next_sequence small (Nat.min_le_right _ _) passed, count]
  exact passed_note m _

theorem passed_once {last : Nat} (visits : Visits index .once (last + 1))
    (small : last + 1 < 2 ^ 63) (k : Nat) :
    Passed index (min k (last + 1)) (visits.memory k) := by
  refine visits.holds (P := fun k m => Passed index (min k (last + 1)) m)
    (passed_of_uncounted visits.uncounted) (fun _ _ _ => Passed.of_untouched) ?_ k
  intro k m random passed
  by_cases left : k < last + 1
  · rw [Nat.min_eq_left (by omega)] at passed
    rw [next_of_unpassed (.inl rfl) small left passed, Nat.min_eq_left (by omega)]
    exact passed_note m k
  · rw [Nat.min_eq_right (by omega)] at passed
    rw [next_once_of_passed small passed, Nat.min_eq_right (by omega)]
    exact passed

/-- The cursor of a cycle has passed all alternatives before it starts again, so that what it has
passed is known up to whole rounds only. -/
theorem passed_cycle (visits : Visits index .cycle length) (positive : 0 < length)
    (small : length < 2 ^ 63) (k : Nat) :
    ∃ n ≤ length, n % length = k % length ∧ Passed index n (visits.memory k) := by
  refine visits.holds (P := fun k m => ∃ n ≤ length, n % length = k % length ∧ Passed index n m)
    ⟨0, Nat.zero_le _, rfl, passed_of_uncounted visits.uncounted⟩ ?_ ?_ k
  · rintro k before after same ⟨n, reached, round, passed⟩
    exact ⟨n, reached, round, passed.of_untouched same⟩
  · rintro k m random ⟨n, reached, round, passed⟩
    have inside : n % length < length := Nat.mod_lt n positive
    have once : n % length % length = k % length := (Nat.mod_mod n length).trans round
    exact ⟨n % length + 1, inside, Nat.add_mod_eq_add_mod_right 1 once,
      (passed.next_cycle positive small reached random).2⟩

end Visits

/-! Rounds. -/

/-- Whether the picks of a round are what the bookkeeping says. -/
structure Drawn (index : UInt64) (length : Nat) (picks : List Nat) (m : Memory) : Prop where
  visited : m.positions (visitedKey index) = picks.map Nat.toUInt64
  nodup : picks.Nodup
  bounded : ∀ pick ∈ picks, pick < length
  last : ∀ pick, picks.getLast? = some pick →
    m.count? (cursorKey index) = some (Int64.ofNat pick)

theorem drawn_of_unvisited {m : Memory} (unvisited : m.internal[visitedKey index]? = none) :
    Drawn index length [] m where
  visited := by
    rw [Memory.positions, unvisited]
    rfl
  nodup := List.nodup_nil
  bounded pick member := by cases member
  last pick found := by cases found

theorem Drawn.of_untouched {picks : List Nat} {before after : Memory}
    (same : Untouched index before after) (drawn : Drawn index length picks before) :
    Drawn index length picks after where
  visited := by
    rw [Memory.positions, same.2]
    exact drawn.visited
  nodup := drawn.nodup
  bounded := drawn.bounded
  last pick found := by
    rw [Memory.count?, same.1]
    exact drawn.last pick found

theorem contains_map_toUInt64 {picks : List Nat} {i : Nat} (small : i < UInt64.size)
    (bounded : ∀ pick ∈ picks, pick < UInt64.size) :
    (picks.map Nat.toUInt64).contains i.toUInt64 = picks.contains i := by
  rw [Bool.eq_iff_iff, List.contains_iff_mem, List.contains_iff_mem, List.mem_map]
  constructor
  · rintro ⟨pick, member, same⟩
    have equal := congrArg UInt64.toNat same
    rw [Nat.toUInt64_eq, Nat.toUInt64_eq, UInt64.toNat_ofNat_of_lt' small,
      UInt64.toNat_ofNat_of_lt' (bounded pick member)] at equal
    exact equal ▸ member
  · intro member
    exact ⟨i, member, rfl⟩

/-- While a round has picks left, one of them is drawn. -/
theorem exists_draw {picks : List Nat} (small : length < 2 ^ 63)
    (bounded : ∀ pick ∈ picks, pick < length) (left : picks.length < length) (random : UInt32) :
    let remaining := (List.range length).filter fun i =>
      !(picks.map Nat.toUInt64).contains i.toUInt64
    ∃ pick, remaining[(Random.draw remaining.length random).1]? = some pick ∧ pick < length ∧
      pick ∉ picks := by
  intro remaining
  have little : length < UInt64.size := Nat.lt_trans small (by decide)
  have unvisited : remaining = (List.range length).filter fun i => !picks.contains i := by
    apply List.filter_congr
    intro i member
    rw [contains_map_toUInt64 (Nat.lt_trans (List.mem_range.1 member) little)
      (fun pick inside => Nat.lt_trans (bounded pick inside) little)]
  have positive : 0 < remaining.length := by
    rw [List.length_pos_iff]
    intro empty
    have covered : List.range length ⊆ picks := by
      intro i member
      have gone := List.filter_eq_nil_iff.1 (unvisited.symm.trans empty) i member
      simpa using gone
    have long := (List.subperm_of_subset List.nodup_range covered).length_le
    rw [List.length_range] at long
    omega
  have drawn := Random.draw_lt positive random
  obtain ⟨pick, found⟩ : ∃ pick, remaining[(Random.draw remaining.length random).1]? = some pick :=
    ⟨_, List.getElem?_eq_getElem drawn⟩
  have member := List.mem_of_getElem? found
  rw [unvisited] at member
  obtain ⟨inside, fresh⟩ := List.mem_filter.1 member
  refine ⟨pick, found, ?_, ?_⟩
  · exact List.mem_range.1 inside
  · simpa using fresh

theorem next_of_draws {mode : VariationMode} (draws : mode.draws = true) (m : Memory)
    (random : UInt32) :
    next index mode length m random = shuffle index mode length m random := by
  cases mode
  case sequence | once | cycle => cases draws
  all_goals rfl

theorem Drawn.note {kept : List Nat} {m : Memory} {pick : Nat} (nodup : kept.Nodup)
    (bounded : ∀ earlier ∈ kept, earlier < length) (fresh : pick ∉ kept) (inside : pick < length) :
    Drawn index length (kept ++ [pick])
      ((m.note (visitedKey index) (.positions (kept.map Nat.toUInt64 ++ [pick.toUInt64]))).note
        (cursorKey index) (.count (Int64.ofNat pick))) where
  visited := by
    rw [Memory.positions_note_of_ne _ _ (cursorKey_ne_visitedKey index index), Memory.positions,
      Memory.internal_note_self, List.map_append]
    rfl
  nodup := by
    rw [List.nodup_append]
    refine ⟨nodup, List.pairwise_singleton _ pick, ?_⟩
    intro earlier member last same
    rw [List.mem_singleton.1 same]
    exact fun equal => fresh (equal ▸ member)
  bounded := by
    intro earlier member
    rcases List.mem_append.1 member with old | new
    · exact bounded earlier old
    · rw [List.mem_singleton.1 new]
      exact inside
  last last found := by
    rw [List.getLast?_concat] at found
    rw [Memory.count?_note_self, Option.some.inj found]

/-- A visit draws a pick that is not among those kept of the round, unless the mode closes. -/
theorem exists_pick {mode : VariationMode} {kept : List Nat} {m : Memory}
    (draws : mode.draws = true) (small : length < 2 ^ 63) (nodup : kept.Nodup)
    (bounded : ∀ earlier ∈ kept, earlier < length) (left : kept.length < length)
    (going : (m.positions (visitedKey index)).length < length ∨ mode.renews = true)
    (start : (if length ≤ (m.positions (visitedKey index)).length then []
      else m.positions (visitedKey index)) = kept.map Nat.toUInt64) (random : UInt32) :
    ∃ pick, (next index mode length m random).1 = some pick ∧
      Drawn index length (kept ++ [pick]) (next index mode length m random).2.1 := by
  have closing : ∀ closed : VariationMode, closed.renews = false →
      (decide (length ≤ (m.positions (visitedKey index)).length) && mode == closed) = false := by
    intro closed closes
    rw [Bool.and_eq_false_iff]
    rcases going with short | renewing
    · exact .inl (decide_eq_false (by omega))
    · refine .inr (beq_eq_false_iff_ne.2 ?_)
      rintro rfl
      rw [closes] at renewing
      cases renewing
  obtain ⟨pick, found, inside, fresh⟩ := exists_draw small bounded left random
  refine ⟨pick, ?_⟩
  simp only [next_of_draws draws, shuffle, closing .shuffleOnce rfl, closing .shuffleSequence rfl,
    Bool.false_eq_true, if_false, start, found, true_and]
  exact Drawn.note nodup bounded fresh inside

section
variable {mode : VariationMode} {picks : List Nat} {m : Memory}

theorem Drawn.next_left (drawn : Drawn index length picks m) (draws : mode.draws = true)
    (small : length < 2 ^ 63) (left : picks.length < length) (random : UInt32) :
    ∃ pick, (next index mode length m random).1 = some pick ∧
      Drawn index length (picks ++ [pick]) (next index mode length m random).2.1 := by
  have short : (m.positions (visitedKey index)).length < length := by
    rwa [drawn.visited, List.length_map]
  refine exists_pick draws small drawn.nodup drawn.bounded left (.inl short) ?_ random
  rw [if_neg (Nat.not_le_of_lt short), drawn.visited]

theorem Drawn.next_renewed (drawn : Drawn index length picks m) (renews : mode.renews = true)
    (positive : 0 < length) (small : length < 2 ^ 63) (full : length ≤ picks.length)
    (random : UInt32) :
    ∃ pick, (next index mode length m random).1 = some pick ∧
      Drawn index length [pick] (next index mode length m random).2.1 := by
  have draws := VariationMode.draws_of_renews renews
  have long : length ≤ (m.positions (visitedKey index)).length := by
    rwa [drawn.visited, List.length_map]
  refine exists_pick draws small List.nodup_nil (List.forall_mem_nil _) positive (.inr renews) ?_
    random
  rw [if_pos long, List.map_nil]

theorem Drawn.next_once (drawn : Drawn index length picks m)
    (full : length ≤ picks.length) (random : UInt32) :
    Variation.next index .shuffleOnce length m random = (none, m, random) := by
  simp [Variation.next, shuffle, drawn.visited, full]

theorem Drawn.next_sequence (drawn : Drawn index length picks m) (small : length < 2 ^ 63)
    (full : length ≤ picks.length) {last : Nat} (latest : picks.getLast? = some last)
    (random : UInt32) :
    Variation.next index .shuffleSequence length m random = (some last, m, random) := by
  have bounded := drawn.bounded last (List.mem_of_getLast? latest)
  have position : position? (Int64.ofNat last) = some last := position?_ofNat (by omega)
  simp [Variation.next, shuffle, drawn.visited, full, drawn.last last latest, position]

end

/-- A full round numbers all positions. -/
theorem perm_range {picks : List Nat} (nodup : picks.Nodup)
    (bounded : ∀ pick ∈ picks, pick < length) (full : picks.length = length) :
    picks.Perm (List.range length) := by
  have covered : picks ⊆ List.range length :=
    fun pick member => List.mem_range.2 (bounded pick member)
  have fewer := List.subperm_of_subset nodup covered
  have longer : (List.range length).length ≤ picks.length := by simp [full]
  exact fewer.perm_of_length_le longer

namespace Visits

variable {mode : VariationMode}

/-- Whether a visit is the first of a round. -/
def Opens (visits : Visits index mode length) (start : Nat) : Prop :=
  ∃ first, visits.result start = some first ∧ Drawn index length [first] (visits.memory (start + 1))

/-- The picks of a round, up to a visit of it. -/
theorem Opens.picks {visits : Visits index mode length} {start : Nat} (opens : visits.Opens start)
    (draws : mode.draws = true) (small : length < 2 ^ 63) (i : Nat) (inside : i < length) :
    ∃ picks, picks.length = i + 1 ∧ Drawn index length picks (visits.memory (start + (i + 1))) ∧
      (List.range (i + 1)).map (fun j => visits.result (start + j)) = picks.map some := by
  induction i with
  | zero =>
      obtain ⟨first, result, drawn⟩ := opens
      exact ⟨[first], rfl, drawn, by simpa using result⟩
  | succ i ih =>
      obtain ⟨picks, count, drawn, results⟩ := ih (by omega)
      obtain ⟨pick, result, after⟩ :=
        drawn.next_left draws small (by omega) (visits.random (start + (i + 1)))
      refine ⟨picks ++ [pick], by rw [List.length_append, count]; rfl,
        after.of_untouched (visits.kept (start + (i + 1))), ?_⟩
      rw [List.range_succ, List.map_append, results, List.map_append]
      exact congrArg (picks.map some ++ [·]) result

/-- A round that was opened runs to its end, numbers all positions, and ends with the last pick. -/
theorem Opens.round {visits : Visits index mode length} {start : Nat} (opens : visits.Opens start)
    (draws : mode.draws = true) (positive : 0 < length) (small : length < 2 ^ 63) :
    VariationMode.IsRound length (fun i => visits.result (start + i)) ∧
      ∃ picks last, picks.length = length ∧
        Drawn index length picks (visits.memory (start + length)) ∧
        picks.getLast? = some last ∧ visits.result (start + (length - 1)) = some last := by
  obtain ⟨last, rfl⟩ := Nat.exists_eq_add_one.2 positive
  obtain ⟨picks, count, drawn, results⟩ := opens.picks draws small last (Nat.lt_succ_self last)
  have nonempty : picks ≠ [] := List.ne_nil_of_length_pos (by omega)
  have found := List.getLast?_eq_some_getLast nonempty
  refine ⟨?_, picks, picks.getLast nonempty, count, drawn, found, ?_⟩
  · rw [VariationMode.IsRound, results]
    exact (perm_range drawn.nodup drawn.bounded count).map some
  · have latest := congrArg List.getLast? results
    rw [List.range_succ, List.map_append, List.map_singleton, List.getLast?_concat,
      List.getLast?_map, found] at latest
    exact Option.some.inj latest

theorem opens_zero (visits : Visits index mode length) (draws : mode.draws = true)
    (positive : 0 < length) (small : length < 2 ^ 63) : visits.Opens 0 := by
  have nothing : Drawn index length [] (visits.memory 0) := drawn_of_unvisited visits.unvisited
  obtain ⟨first, result, drawn⟩ := nothing.next_left draws small positive (visits.random 0)
  exact ⟨first, result, drawn.of_untouched (visits.kept 0)⟩

theorem opens_mul (visits : Visits index mode length) (renews : mode.renews = true)
    (positive : 0 < length) (small : length < 2 ^ 63) (j : Nat) :
    visits.Opens (j * length) := by
  have draws := VariationMode.draws_of_renews renews
  induction j with
  | zero =>
      rw [Nat.zero_mul]
      exact visits.opens_zero draws positive small
  | succ j ih =>
      obtain ⟨-, picks, last, count, drawn, -⟩ := ih.round draws positive small
      rw [Nat.succ_mul]
      obtain ⟨first, result, after⟩ := drawn.next_renewed renews positive small
        (Nat.le_of_eq count.symm) (visits.random (j * length + length))
      exact ⟨first, result, after.of_untouched (visits.kept _)⟩

/-- A round that closes the bookkeeping is never followed by another. -/
theorem drawn_of_closed {picks : List Nat} (visits : Visits index mode length)
    (drawn : Drawn index length picks (visits.memory length))
    (closed : ∀ m random, Drawn index length picks m →
      (Variation.next index mode length m random).2.1 = m) (more : Nat) :
    Drawn index length picks (visits.memory (length + more)) := by
  induction more with
  | zero => exact drawn
  | succ more ih =>
      have same := visits.kept (length + more)
      rw [closed _ _ ih] at same
      exact ih.of_untouched same

end Visits

section
variable (positive : 0 < length)
include positive

theorem promises_sequence (visits : Visits index .sequence length) (small : length < 2 ^ 63) :
    VariationMode.sequence.Promises length visits.result := by
  intro k
  obtain ⟨last, rfl⟩ := Nat.exists_eq_add_one.2 positive
  rw [Visits.result, next_sequence small (Nat.min_le_right _ _) (visits.passed_sequence small k)]
  exact congrArg some (by omega)

theorem promises_once (visits : Visits index .once length) (small : length < 2 ^ 63) :
    VariationMode.once.Promises length visits.result := by
  intro k
  obtain ⟨last, rfl⟩ := Nat.exists_eq_add_one.2 positive
  have passed := visits.passed_once small k
  by_cases left : k < last + 1
  · rw [Nat.min_eq_left (by omega)] at passed
    rw [Visits.result, next_of_unpassed (.inl rfl) small left passed, if_pos left]
  · rw [Nat.min_eq_right (by omega)] at passed
    rw [Visits.result, next_once_of_passed small passed, if_neg left]

theorem promises_cycle (visits : Visits index .cycle length) (small : length < 2 ^ 63) :
    VariationMode.cycle.Promises length visits.result := by
  intro k
  obtain ⟨n, reached, round, passed⟩ := visits.passed_cycle positive small k
  rw [Visits.result, (passed.next_cycle positive small reached _).1, round]

theorem promises_shuffleOnce (visits : Visits index .shuffleOnce length)
    (small : length < 2 ^ 63) :
    VariationMode.shuffleOnce.Promises length visits.result := by
  obtain ⟨round, picks, last, count, drawn, -⟩ :=
    (visits.opens_zero rfl positive small).round rfl positive small
  simp only [Nat.zero_add] at round drawn
  have full : length ≤ picks.length := Nat.le_of_eq count.symm
  refine ⟨round, ?_⟩
  intro k later
  obtain ⟨more, rfl⟩ := Nat.exists_eq_add_of_le later
  have still := visits.drawn_of_closed drawn
    (fun m random closed => by rw [closed.next_once full]) more
  rw [Visits.result, still.next_once full]

theorem promises_shuffleSequence (visits : Visits index .shuffleSequence length)
    (small : length < 2 ^ 63) :
    VariationMode.shuffleSequence.Promises length visits.result := by
  obtain ⟨round, picks, last, count, drawn, found, latest⟩ :=
    (visits.opens_zero rfl positive small).round rfl positive small
  simp only [Nat.zero_add] at round drawn latest
  have full : length ≤ picks.length := Nat.le_of_eq count.symm
  refine ⟨round, ?_⟩
  intro k later
  obtain ⟨more, rfl⟩ := Nat.exists_eq_add_of_le later
  have still := visits.drawn_of_closed drawn
    (fun m random closed => by rw [closed.next_sequence small full found]) more
  rw [latest, Visits.result, still.next_sequence small full found]

end

/-- Each mode keeps its promise over visits of any number, whatever happens in between that does not
touch the bookkeeping of the variation; and nothing that a playthrough does there touches it. -/
theorem promises_of_visits {mode : VariationMode} (visits : Visits index mode length)
    (positive : 0 < length) (small : length < 2 ^ 32) :
    mode.Promises length visits.result ∧
      ∀ before after, Aside index before after → Untouched index before after := by
  refine ⟨?_, fun before after aside => aside.untouched⟩
  have little : length < 2 ^ 63 := Nat.lt_trans small (by decide)
  cases mode with
  | sequence => exact promises_sequence positive visits little
  | once => exact promises_once positive visits little
  | cycle => exact promises_cycle positive visits little
  | shuffle | shuffleCycle =>
      intro j
      exact ((visits.opens_mul rfl positive little j).round rfl positive little).1
  | shuffleOnce => exact promises_shuffleOnce positive visits little
  | shuffleSequence => exact promises_shuffleSequence positive visits little

/-- Visits of two alternatives. After each of them a variable is written and a variation of the
next index is visited. -/
def coinState : Nat → Memory × UInt32
  | 0 => (∅, 7)
  | k + 1 =>
      let out := next 12 .shuffleSequence 2 (coinState k).1 (coinState k).2
      ((next 13 .cycle 3 (out.2.1.write "coin" (.bool true)).1 0).2.1, out.2.2)

def coinVisits : Visits 12 .shuffleSequence 2 where
  memory k := (coinState k).1
  random k := (coinState k).2
  uncounted := rfl
  unvisited := rfl
  kept k := by
    have different : (13 : UInt64) ≠ 12 := by decide
    exact (Aside.write _ "coin" (.bool true)).untouched.trans
      (Aside.next different .cycle 3 _ 0).untouched

theorem promises_of_visits_coinVisits :
    0 < 2 ∧ 2 < 2 ^ 32 ∧ VariationMode.shuffleSequence.Promises 2 coinVisits.result :=
  ⟨by decide, by decide, (promises_of_visits coinVisits (by decide) (by decide)).1⟩

end Variation
end Dialogue
