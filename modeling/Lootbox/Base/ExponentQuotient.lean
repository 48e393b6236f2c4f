import Mathlib

/-!
# Powers of two divided in the exponent

A proof that `y = g ^ 2 ^ T` is the power of `g` to the quotient of `2 ^ T` by a challenge. The
quotient is never computed: long division yields one bit a round. Many such statements are folded
into one by raising each to an exponent of its own.
-/

namespace Lootbox.ExponentQuotient

theorem two_pow_succ_mod (l i : Nat) : 2 ^ (i + 1) % l = 2 * (2 ^ i % l) % l := by
  rw [pow_succ', Nat.mul_mod_mod]

theorem two_pow_succ_div (l i : Nat) : 2 ^ (i + 1) / l = 2 * (2 ^ i / l) + 2 * (2 ^ i % l) / l := by
  rcases Nat.eq_zero_or_pos l with rfl | hl
  · rw [Nat.div_zero, Nat.div_zero, Nat.div_zero]
  · have hsplit : 2 ^ (i + 1) = 2 * (2 ^ i % l) + l * (2 * (2 ^ i / l)) := by
      rw [pow_succ']
      nth_rewrite 1 [← Nat.mod_add_div (2 ^ i) l]
      ring
    rw [hsplit, Nat.add_mul_div_left _ _ hl, Nat.add_comm]

variable {M : Type*} [CommMonoid M]

theorem quotient_step (g : M) (l i : Nat) :
    g ^ (2 ^ i / l) * g ^ (2 ^ i / l) * g ^ (2 * (2 ^ i % l) / l) = g ^ (2 ^ (i + 1) / l) := by
  rw [two_pow_succ_div, pow_add, two_mul (2 ^ i / l), pow_add]

theorem pow_quotient_mul (g : M) (l T : Nat) :
    (g ^ (2 ^ T / l)) ^ l * g ^ (2 ^ T % l) = g ^ 2 ^ T := by
  rw [← pow_mul, ← pow_add, Nat.div_add_mod']

/-- The product of the powers `x ^ a`. -/
def combination (as : List Nat) (xs : List M) : M := (List.zipWith (fun a x => x ^ a) as xs).prod

theorem combination_nil (xs : List M) : combination [] xs = 1 := by
  rw [combination, List.zipWith_nil_left, List.prod_nil]

theorem combination_nil_right (as : List Nat) : combination as ([] : List M) = 1 := by
  rw [combination, List.zipWith_nil_right, List.prod_nil]

theorem combination_cons (a : Nat) (as : List Nat) (x : M) (xs : List M) :
    combination (a :: as) (x :: xs) = x ^ a * combination as xs := by
  rw [combination, List.zipWith_cons_cons, List.prod_cons]
  rfl

theorem combination_map_pow (n : Nat) (as : List Nat) (xs : List M) :
    combination as (xs.map (· ^ n)) = combination as xs ^ n := by
  induction as generalizing xs with
  | nil => rw [combination_nil, combination_nil, one_pow]
  | cons a as ih =>
    cases xs with
    | nil => rw [List.map_nil, combination_nil_right, one_pow]
    | cons x xs =>
      rw [List.map_cons, combination_cons, combination_cons, ih, mul_pow, ← pow_mul, ← pow_mul,
        Nat.mul_comm n a]

end Lootbox.ExponentQuotient
