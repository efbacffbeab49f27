/-! Random numbers from a 32-bit state. The state walks through all 32-bit words in steps of one
odd constant, and each word is mixed into a number. -/
namespace Dialogue.Random

/-- The step from one state to the next. -/
def stride : UInt32 := 0x6d2b79f5

/-- The number that belongs to a state. -/
def mix (state : UInt32) : UInt32 :=
  let a := (state ^^^ (state >>> 15)) * (state ||| 1)
  let b := a ^^^ (a + (a ^^^ (a >>> 7)) * (a ||| 61))
  b ^^^ (b >>> 14)

/-- The largest multiple of a bound within 32 bits. Numbers from there on are drawn again, so that
every remainder is equally likely. -/
def limit (bound : UInt32) : Nat := UInt32.size / bound.toNat * bound.toNat

/-- Times this, a step of the state is a step down by one. -/
def countdown : UInt32 := 598168995

theorem add_stride_mul_countdown (state : UInt32) :
    (state + stride) * countdown = state * countdown - 1 := by
  simp only [stride, countdown]
  grind

theorem eq_zero_of_mul_countdown {state : UInt32} (h : state * countdown = 0) : state = 0 := by
  have inverse : state * countdown * 2463401483 = state := by
    simp only [countdown]
    grind
  rw [← inverse, h]
  decide

theorem mix_zero : mix 0 = 0 := by decide

theorem limit_pos {bound : UInt32} (positive : 0 < bound) : 0 < limit bound := by
  have nonzero : 0 < bound.toNat := positive
  have small : bound.toNat ≤ UInt32.size := Nat.le_of_lt bound.toNat_lt
  exact Nat.mul_pos (Nat.div_pos small nonzero) nonzero

/-- A refused number leaves fewer states before the one whose number is zero. -/
theorem countdown_lt {bound state : UInt32} (positive : 0 < bound)
    (refused : ¬ (mix (state + stride)).toNat < limit bound) :
    ((state + stride) * countdown - 1).toNat < (state * countdown - 1).toNat := by
  have nonzero : (state + stride) * countdown ≠ 0 := by
    intro h
    rw [eq_zero_of_mul_countdown h, mix_zero] at refused
    exact refused (limit_pos positive)
  rw [add_stride_mul_countdown] at nonzero ⊢
  generalize state * countdown - 1 = word at nonzero ⊢
  have positive : word.toNat ≠ 0 := fun h => nonzero (UInt32.toNat_inj.1 h)
  have one : (1 : UInt32) ≤ word := by
    rw [UInt32.le_iff_toNat_le]
    exact Nat.one_le_iff_ne_zero.2 positive
  rw [UInt32.toNat_sub_of_le _ _ one]
  exact Nat.sub_lt (Nat.pos_of_ne_zero positive) Nat.one_pos

/-- A number below the bound, and the state after the draws it took. -/
def below (bound : UInt32) (positive : 0 < bound) (state : UInt32) : UInt32 × UInt32 :=
  let next := state + stride
  if (mix next).toNat < limit bound then (mix next % bound, next) else below bound positive next
termination_by (state * countdown - 1).toNat
decreasing_by exact countdown_lt positive ‹_›

/-- A position below a length, and the state after it. No position is drawn where there is none. -/
def draw (length : Nat) (state : UInt32) : Nat × UInt32 :=
  if positive : 0 < length.toUInt32 then
    let (word, state) := below length.toUInt32 positive state
    (word.toNat, state)
  else (0, state)

end Dialogue.Random
