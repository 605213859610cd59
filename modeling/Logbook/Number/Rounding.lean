set_option autoImplicit false

/-!
# Rounding a quotient to a natural number

The quotient of two natural numbers is rounded to the nearest one; a quotient halfway between two
goes to the even one or away from zero.
-/
namespace Logbook.Number

inductive Tie where
  | even
  | away
  deriving DecidableEq

def roundDiv (tie : Tie) (num den : Nat) : Nat :=
  let down := num / den
  let twice := 2 * (num % den)
  if twice < den then down
  else if den < twice then down + 1
  else
    match tie with
    | .even => down + down % 2
    | .away => down + 1

/-- The rounded quotient is at most half a unit away. -/
theorem roundDiv_close (tie : Tie) (num den : Nat) (h : 0 < den) :
    2 * num ≤ 2 * (roundDiv tie num den * den) + den ∧
      2 * (roundDiv tie num den * den) ≤ 2 * num + den := by
  have hq := Nat.div_add_mod num den
  have hm := Nat.mod_lt num h
  have hc : den * (num / den) = num / den * den := Nat.mul_comm _ _
  have hs : (num / den + 1) * den = num / den * den + den := Nat.succ_mul _ _
  unfold roundDiv
  simp only
  split
  · omega
  · split
    · rw [hs]
      omega
    · cases tie
      · rcases Nat.mod_two_eq_zero_or_one (num / den) with h0 | h1
        · simp only [h0, Nat.add_zero]
          omega
        · simp only [h1, hs]
          omega
      · simp only [hs]
        omega

end Logbook.Number
