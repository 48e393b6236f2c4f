import Mathlib

/-!
# A quotient in the exponent, in blocks of bits

The quotient of `2 ^ T` by `B` has the digits `2 ^ k * (2 ^ (T - k * (n + 1)) % B) / B` to the base
`2 ^ k`. A product of powers to such digits is computed from buckets: the factors with one digit
are multiplied first, and the buckets are combined by the two halves of their digit.
-/

namespace Lootbox.BlockExponent

open Finset

/-! ### Digits -/

/-- The digit `n` of `2 ^ T / B` to the base `2 ^ k`. -/
def block (k T B n : Nat) : Nat := 2 ^ k * (2 ^ (T - k * (n + 1)) % B) / B

section Digits

variable {k T B : Nat}

theorem block_lt (hB : 0 < B) (n : Nat) : block k T B n < 2 ^ k := by
  rw [block, Nat.div_lt_iff_lt_mul hB]
  exact Nat.mul_lt_mul_of_pos_left (Nat.mod_lt _ hB) (by positivity)

theorem two_pow_add_div (B m k : Nat) :
    2 ^ (m + k) / B = 2 ^ k * (2 ^ m / B) + 2 ^ k * (2 ^ m % B) / B := by
  rcases Nat.eq_zero_or_pos B with rfl | hB
  · simp
  · have hsplit : 2 ^ (m + k) = 2 ^ k * (2 ^ m % B) + B * (2 ^ k * (2 ^ m / B)) := by
      rw [pow_add, mul_comm]
      nth_rewrite 1 [← Nat.mod_add_div (2 ^ m) B]
      ring
    rw [hsplit, Nat.add_mul_div_left _ _ hB, Nat.add_comm]

theorem sum_blocks (N : Nat) (hN : k * N ≤ T) :
    ∑ n ∈ range N, block k T B n * 2 ^ (k * n) + 2 ^ (T - k * N) / B * 2 ^ (k * N) = 2 ^ T / B := by
  induction N with
  | zero => simp
  | succ N ih =>
    have hle : k * N ≤ T := (Nat.mul_le_mul_left k (Nat.le_succ N)).trans hN
    have hexp : T - k * N = T - k * (N + 1) + k := by
      rw [Nat.mul_succ] at hN ⊢
      omega
    rw [← ih hle, sum_range_succ, hexp, two_pow_add_div, block, Nat.mul_succ k N, pow_add]
    ring

theorem sum_blocks_of_lt (hB : 2 ^ k ≤ B) (hk : 0 < k) {N : Nat} (hN : T / k ≤ N) :
    ∑ n ∈ range N, (if k * (n + 1) ≤ T then block k T B n * 2 ^ (k * n) else 0) = 2 ^ T / B := by
  have hguard : ∀ n, k * (n + 1) ≤ T ↔ n < T / k := by
    intro n
    rw [Nat.lt_iff_add_one_le, Nat.le_div_iff_mul_le hk, mul_comm]
  have hfilter : (range N).filter (fun n => k * (n + 1) ≤ T) = range (T / k) := by
    ext n
    simp only [mem_filter, mem_range, hguard]
    omega
  rw [← sum_filter, hfilter, ← sum_blocks (T / k) (Nat.mul_div_le T k)]
  have hrest : T - k * (T / k) = T % k := by
    have := Nat.div_add_mod T k
    omega
  have hlt : 2 ^ (T % k) < B :=
    (Nat.pow_lt_pow_right one_lt_two (Nat.mod_lt T hk)).trans_le hB
  rw [hrest, Nat.div_eq_of_lt hlt, zero_mul, add_zero]

end Digits

/-! ### Buckets -/

section Buckets

variable {M : Type*} [CommMonoid M]

theorem prod_digits (c : Nat → M) (K1 K0 : Nat) :
    (∏ b1 ∈ range K1, (∏ b0 ∈ range K0, c (b1 * K0 + b0)) ^ (b1 * K0)) *
      ∏ b0 ∈ range K0, (∏ b1 ∈ range K1, c (b1 * K0 + b0)) ^ b0 =
    ∏ b ∈ range (K1 * K0), c b ^ b := by
  have hsplit : ∏ b ∈ range (K1 * K0), c b ^ b =
      ∏ b1 ∈ range K1, ∏ b0 ∈ range K0, c (b1 * K0 + b0) ^ (b1 * K0 + b0) := by
    induction K1 with
    | zero => simp
    | succ K1 ih => rw [Nat.succ_mul, prod_range_add, ih, prod_range_succ]
  have hlow : ∏ b0 ∈ range K0, (∏ b1 ∈ range K1, c (b1 * K0 + b0)) ^ b0 =
      ∏ b1 ∈ range K1, ∏ b0 ∈ range K0, c (b1 * K0 + b0) ^ b0 := by
    simp only [← prod_pow]
    exact prod_comm
  rw [hsplit, hlow, ← prod_mul_distrib]
  refine prod_congr rfl fun b1 _ => ?_
  rw [← prod_pow, ← prod_mul_distrib]
  exact prod_congr rfl fun b0 _ => (pow_add _ _ _).symm

/-- The factors in the bucket `b`. -/
def bucket (use : Nat → Prop) [DecidablePred use] (digit : Nat → Nat) (x : Nat → M) (n b : Nat) : M :=
  ∏ i ∈ range n, if use i ∧ digit i = b then x i else 1

variable (use : Nat → Prop) [DecidablePred use] (digit : Nat → Nat) (x : Nat → M)

theorem bucket_succ (n b : Nat) : bucket use digit x (n + 1) b =
    bucket use digit x n b * if use n ∧ digit n = b then x n else 1 := prod_range_succ _ _

theorem prod_buckets {K : Nat} (hdigit : ∀ i, digit i < K) (n : Nat) :
    ∏ b ∈ range K, bucket use digit x n b ^ b = ∏ i ∈ range n, if use i then x i ^ digit i else 1 := by
  simp only [bucket, ← prod_pow]
  rw [prod_comm]
  refine prod_congr rfl fun i _ => ?_
  by_cases huse : use i
  · have hpow : ∀ b, (if use i ∧ digit i = b then x i else 1) ^ b =
        if digit i = b then x i ^ digit i else 1 := by
      intro b
      by_cases hb : digit i = b
      · rw [if_pos ⟨huse, hb⟩, if_pos hb, hb]
      · rw [if_neg fun h => hb h.2, if_neg hb, one_pow]
    simp only [hpow]
    rw [prod_ite_eq, if_pos (mem_range.mpr (hdigit i)), if_pos huse]
  · rw [if_neg huse]
    exact prod_eq_one fun b _ => by rw [if_neg fun h => huse h.1, one_pow]

theorem prod_rows (g : M) {k T B l n : Nat} (hB : 2 ^ k ≤ B) (hk : 0 < k) (hn : T / k ≤ n * l) :
    ∏ j ∈ range l, (∏ i ∈ range n, if k * (i * l + j + 1) ≤ T then
      (g ^ 2 ^ (k * l * i)) ^ block k T B (i * l + j) else 1) ^ 2 ^ (k * j) = g ^ (2 ^ T / B) := by
  rw [← sum_blocks_of_lt hB hk hn, ← prod_pow_eq_pow_sum]
  have hrows : ∏ m ∈ range (n * l), g ^ (if k * (m + 1) ≤ T then block k T B m * 2 ^ (k * m) else 0) =
      ∏ i ∈ range n, ∏ j ∈ range l, g ^ (if k * (i * l + j + 1) ≤ T then
        block k T B (i * l + j) * 2 ^ (k * (i * l + j)) else 0) := by
    clear hn
    induction n with
    | zero => simp
    | succ n ih => rw [Nat.succ_mul, prod_range_add, ih, prod_range_succ]
  rw [hrows, prod_comm]
  refine prod_congr rfl fun j _ => ?_
  rw [← prod_pow]
  refine prod_congr rfl fun i _ => ?_
  split_ifs
  · rw [← pow_mul, ← pow_mul]
    congr 1
    rw [mul_add, pow_add]
    ring
  · rw [one_pow, pow_zero]

end Buckets

end Lootbox.BlockExponent
