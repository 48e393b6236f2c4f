import Lootbox.Base.ExponentQuotient

/-!
# Proofs of exponentiation in segments

A segment claims that so many squarings lead from one element to the next, and its proof is checked
with a challenge that depends on both. The result of a segment is the input of the next one, so
every proof that is not the honest one leaves an error in the last result.
-/

namespace Lootbox.SegmentedProofs

open ExponentQuotient

structure Segment (G : Type*) where
  iters : Nat
  challenge : Nat
  proof : G

variable {G : Type*} [CommGroup G]

namespace Segment

def next (s : Segment G) (x : G) : G := s.proof ^ s.challenge * x ^ (2 ^ s.iters % s.challenge)

def error (s : Segment G) (x : G) : G := s.proof / x ^ (2 ^ s.iters / s.challenge)

theorem next_eq (s : Segment G) (x : G) : s.next x = x ^ 2 ^ s.iters * s.error x ^ s.challenge := by
  rw [next, error, ← pow_quotient_mul x s.challenge s.iters, div_pow, mul_right_comm, mul_div_cancel]

def honest (x : G) (t B : Nat) : Segment G := ⟨t, B, x ^ (2 ^ t / B)⟩

theorem next_honest (x : G) (t B : Nat) : (honest x t B).next x = x ^ 2 ^ t := pow_quotient_mul x B t

end Segment

theorem quotient_equation (x y π : G) (T B : Nat) :
    π ^ B * x ^ (2 ^ T % B) = y ↔ (π / x ^ (2 ^ T / B)) ^ B = y / x ^ 2 ^ T := by
  have hnext := (Segment.mk T B π).next_eq x
  rw [Segment.next, Segment.error] at hnext
  dsimp only at hnext
  rw [hnext, eq_div_iff_mul_eq', mul_comm]

/-! ### Chains of segments -/

def total (ss : List (Segment G)) : Nat := (ss.map Segment.iters).sum

def result : G → List (Segment G) → G
  | x, [] => x
  | x, s :: ss => result (s.next x) ss

/-- Every challenge is that for the input and the result of its segment. -/
def Challenged (C : G → G → Nat → Prop) : G → List (Segment G) → Prop
  | _, [] => True
  | x, s :: ss => C x (s.next x) s.challenge ∧ Challenged C (s.next x) ss

/-- The errors of the proofs, raised by the squarings that come after them. -/
def error : G → List (Segment G) → G
  | _, [] => 1
  | x, s :: ss => (s.error x ^ s.challenge) ^ 2 ^ total ss * error (s.next x) ss

section Chain

variable {C : G → G → Nat → Prop} (x : G) (ss : List (Segment G)) (s : Segment G)

omit [CommGroup G] in
theorem total_cons : total (s :: ss) = s.iters + total ss := List.sum_cons

theorem result_eq : result x ss = x ^ 2 ^ total ss * error x ss := by
  induction ss generalizing x with
  | nil =>
    rw [result, error, mul_one]
    exact (pow_one x).symm
  | cons s ss ih =>
    rw [result, ih, error, total_cons, pow_add, pow_mul, ← mul_assoc, ← mul_pow, ← Segment.next_eq]

theorem result_append (ss' : List (Segment G)) : result x (ss ++ ss') = result (result x ss) ss' := by
  induction ss generalizing x with
  | nil => rfl
  | cons s ss ih => exact ih (s.next x)

omit [CommGroup G] in
theorem total_append (ss' : List (Segment G)) : total (ss ++ ss') = total ss + total ss' := by
  rw [total, List.map_append, List.sum_append]
  rfl

theorem challenged_append (ss' : List (Segment G)) :
    Challenged C x (ss ++ ss') ↔ Challenged C x ss ∧ Challenged C (result x ss) ss' := by
  induction ss generalizing x with
  | nil => simp [Challenged, result]
  | cons s ss ih =>
    rw [List.cons_append, Challenged, ih, Challenged, result, and_assoc]

def Honest : G → List (Segment G) → Prop
  | _, [] => True
  | x, s :: ss => s.proof = x ^ (2 ^ s.iters / s.challenge) ∧ Honest (s.next x) ss

theorem Honest.result_eq {x : G} {ss : List (Segment G)} (h : Honest x ss) :
    result x ss = x ^ 2 ^ total ss := by
  induction ss generalizing x with
  | nil => exact (pow_one x).symm
  | cons s ss ih =>
    obtain ⟨hproof, hrest⟩ := h
    have hnext : s.next x = x ^ 2 ^ s.iters := by
      rw [Segment.next, hproof, pow_quotient_mul]
    rw [result, ih hrest, hnext, total_cons, pow_add, pow_mul]

end Chain

end Lootbox.SegmentedProofs
