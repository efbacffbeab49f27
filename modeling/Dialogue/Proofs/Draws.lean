import Dialogue.Proofs.Visits
import Mathlib.Data.Set.Card

/-! Draws below a bound. Numbers are drawn until one is accepted. That comes to an end, because each
try that is refused leaves fewer states before the one whose number is zero; and it favours no
result, because as many words are accepted for one remainder as for another. -/
namespace Dialogue.Random

/-- Whether a number is accepted in a draw below a bound. -/
def Accepted (bound word : UInt32) : Prop := word.toNat < limit bound

instance (bound word : UInt32) : Decidable (Accepted bound word) :=
  inferInstanceAs (Decidable (word.toNat < limit bound))

/-- What a draw below a bound comes to after a number of tries: each try takes the next state, and
the first number that is accepted gives the result. -/
inductive Draws (bound : UInt32) : UInt32 → Nat → UInt32 × UInt32 → Prop
  | accepted {state : UInt32} (small : Accepted bound (mix (state + stride))) :
      Draws bound state 1 (mix (state + stride) % bound, state + stride)
  | refused {state : UInt32} {tries : Nat} {out : UInt32 × UInt32}
      (large : ¬ Accepted bound (mix (state + stride)))
      (again : Draws bound (state + stride) tries out) : Draws bound state (tries + 1) out

variable {bound : UInt32}

/-- The states that are left before the one whose number is zero bound the tries. -/
theorem exists_draws (positive : 0 < bound) (state : UInt32) :
    ∃ tries ≤ (state * countdown - 1).toNat + 1,
      Draws bound state tries (below bound positive state) := by
  fun_induction below bound positive state with
  | case1 state next small => exact ⟨1, Nat.le_add_left 1 _, .accepted small⟩
  | case2 state next large ih =>
      obtain ⟨tries, few, draws⟩ := ih
      have fewer := countdown_lt positive large
      exact ⟨tries + 1, Nat.succ_le_succ (Nat.le_trans few fewer), .refused large draws⟩

/-- The accepted words of a remainder, in ascending order. -/
def nthAccepted (bound remainder : UInt32) (i : Nat) : UInt32 :=
  UInt32.ofNat (i * bound.toNat + remainder.toNat)

section
variable {remainder : UInt32} (small : remainder < bound)
include small

theorem lt_limit_iff (i : Nat) :
    i * bound.toNat + remainder.toNat < limit bound ↔ i < UInt32.size / bound.toNat := by
  have below : remainder.toNat < bound.toNat := small
  rw [limit]
  constructor
  · intro inside
    by_contra beyond
    have most := Nat.mul_le_mul_right bound.toNat (Nat.le_of_not_lt beyond)
    omega
  · intro inside
    calc i * bound.toNat + remainder.toNat < (i + 1) * bound.toNat := by
          rw [Nat.succ_mul]
          omega
      _ ≤ UInt32.size / bound.toNat * bound.toNat := Nat.mul_le_mul_right _ inside

theorem toNat_nthAccepted {i : Nat} (inside : i < UInt32.size / bound.toNat) :
    (nthAccepted bound remainder i).toNat = i * bound.toNat + remainder.toNat := by
  have within : i * bound.toNat + remainder.toNat < limit bound := (lt_limit_iff small i).2 inside
  exact UInt32.toNat_ofNat_of_lt' (Nat.lt_of_lt_of_le within (Nat.div_mul_le_self _ _))

/-- As many words are accepted for a remainder as the bound goes into the number of words. -/
theorem ncard_accepted :
    {word : UInt32 | Accepted bound word ∧ word % bound = remainder}.ncard =
      2 ^ 32 / bound.toNat := by
  have below : remainder.toNat < bound.toNat := small
  refine Set.ncard_eq_of_bijective (fun i _ => nthAccepted bound remainder i) ?_ ?_ ?_
  · rintro word ⟨within, rfl⟩
    have split : word.toNat / bound.toNat * bound.toNat + (word % bound).toNat = word.toNat := by
      rw [UInt32.toNat_mod]
      exact Nat.div_add_mod' word.toNat bound.toNat
    have inside : word.toNat / bound.toNat < UInt32.size / bound.toNat := by
      rw [← lt_limit_iff small, split]
      exact within
    refine ⟨word.toNat / bound.toNat, inside, UInt32.toNat_inj.1 ?_⟩
    rw [toNat_nthAccepted small inside, split]
  · intro i inside
    have value := toNat_nthAccepted small inside
    refine ⟨?_, UInt32.toNat_inj.1 ?_⟩
    · rw [Accepted, value]
      exact (lt_limit_iff small i).2 inside
    · rw [UInt32.toNat_mod, value, Nat.mul_add_mod_self_right, Nat.mod_eq_of_lt below]
  · intro i j inside within same
    have equal := congrArg UInt32.toNat same
    rw [toNat_nthAccepted small inside, toNat_nthAccepted small within] at equal
    exact Nat.eq_of_mul_eq_mul_right (Nat.zero_lt_of_lt below) (Nat.add_right_cancel equal)

end

/-- A draw below a bound ends from every state, after no more tries than there are states, with a
number below the bound; and no remainder is favoured by the words that are accepted. -/
theorem draws_of_pos (positive : 0 < bound) :
    (∀ state, (∃ tries ≤ 2 ^ 32, Draws bound state tries (below bound positive state)) ∧
      (below bound positive state).1 < bound) ∧
    ∀ remainder < bound,
      {word : UInt32 | Accepted bound word ∧ word % bound = remainder}.ncard =
        2 ^ 32 / bound.toNat := by
  refine ⟨fun state => ⟨?_, below_lt bound positive state⟩, fun remainder => ncard_accepted⟩
  obtain ⟨tries, few, draws⟩ := exists_draws positive state
  exact ⟨tries, Nat.le_trans few (UInt32.toNat_lt _), draws⟩

/-- Below the bound that refuses the most words, the first number from state 1 is refused. -/
theorem draws_of_pos_half : (0 : UInt32) < 0x80000001 ∧
    ¬ Accepted 0x80000001 (mix (1 + stride)) ∧
    (∃ tries ≤ 2 ^ 32, Draws 0x80000001 1 tries (below 0x80000001 (by decide) 1)) ∧
    (0x80000000 : UInt32) < 0x80000001 ∧
    {word : UInt32 | Accepted 0x80000001 word ∧ word % 0x80000001 = 0x80000000}.ncard = 1 := by
  obtain ⟨ends, unbiased⟩ := draws_of_pos (show (0 : UInt32) < 0x80000001 by decide)
  exact ⟨by decide, by decide, (ends 1).1, by decide, unbiased 0x80000000 (by decide)⟩

end Dialogue.Random
