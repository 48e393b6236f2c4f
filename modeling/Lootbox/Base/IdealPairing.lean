import Mathlib
import Lootbox.Base.CoefficientList

/-!
# Ideal bilinear groups

Two additive groups of prime order `r` with a bilinear map into a third group. Commitments
to polynomials in the powers of a trapdoor live in the first group; an opening is checked
by one product of pairings.
-/

namespace Lootbox

structure IdealPairing (r : Nat) (G1 G2 GT : Type) [AddCommGroup G1] [AddCommGroup G2]
    [CommGroup GT] [Module (ZMod r) G1] [Module (ZMod r) G2] where
  g1 : G1
  g2 : G2
  pairing : G2 → G1 → GT
  pairing_add_left : ∀ Q Q' P, pairing (Q + Q') P = pairing Q P * pairing Q' P
  pairing_add_right : ∀ Q P P', pairing Q (P + P') = pairing Q P * pairing Q P'
  nondegenerate : ∀ P, pairing g2 P = 1 → P = 0

namespace IdealPairing

variable {r : Nat} {G1 G2 GT : Type} [AddCommGroup G1] [AddCommGroup G2] [CommGroup GT]
  [Module (ZMod r) G1] [Module (ZMod r) G2] (e : IdealPairing r G1 G2 GT)

theorem pairing_zero_left (P : G1) : e.pairing 0 P = 1 := by
  have h := e.pairing_add_left 0 0 P
  rw [add_zero] at h
  exact left_eq_mul.mp h

theorem pairing_zero_right (Q : G2) : e.pairing Q 0 = 1 := by
  have h := e.pairing_add_right Q 0 0
  rw [add_zero] at h
  exact left_eq_mul.mp h

theorem pairing_nsmul_left (n : Nat) (Q : G2) (P : G1) :
    e.pairing (n • Q) P = e.pairing Q P ^ n := by
  induction n with
  | zero => rw [zero_nsmul, pairing_zero_left, pow_zero]
  | succ n ih => rw [succ_nsmul, e.pairing_add_left, ih, pow_succ]

theorem pairing_nsmul_right (n : Nat) (Q : G2) (P : G1) :
    e.pairing Q (n • P) = e.pairing Q P ^ n := by
  induction n with
  | zero => rw [zero_nsmul, pairing_zero_right, pow_zero]
  | succ n ih => rw [succ_nsmul, e.pairing_add_right, ih, pow_succ]

variable [NeZero r]

theorem val_nsmul (c : ZMod r) (P : G1) : c.val • P = c • P := by
  rw [← Nat.cast_smul_eq_nsmul (ZMod r) c.val P, ZMod.natCast_zmod_val]

theorem pairing_smul_comm (c : ZMod r) (Q : G2) (P : G1) :
    e.pairing (c • Q) P = e.pairing Q (c • P) := by
  rw [← val_nsmul c P, ← val_nsmul c Q, pairing_nsmul_left, pairing_nsmul_right]

theorem pairing_mul_eq_one_iff (c : ZMod r) (W P : G1) :
    e.pairing (c • e.g2) W * e.pairing e.g2 (-P) = 1 ↔ c • W = P := by
  rw [pairing_smul_comm, ← e.pairing_add_right, ← sub_eq_add_neg]
  constructor
  · intro h
    exact sub_eq_zero.mp (e.nondegenerate _ h)
  · intro h
    rw [h, sub_self, pairing_zero_right]

def residues (r : Nat) : IdealPairing r (ZMod r) (ZMod r) (Multiplicative (ZMod r)) where
  g1 := 1
  g2 := 1
  pairing Q P := Multiplicative.ofAdd (Q * P)
  pairing_add_left Q Q' P := congrArg Multiplicative.ofAdd (add_mul Q Q' P)
  pairing_add_right Q P P' := congrArg Multiplicative.ofAdd (mul_add Q P P')
  nondegenerate P h := by
    have hzero : 1 * P = 0 := ofAdd_eq_one.mp h
    rwa [one_mul] at hzero

end IdealPairing

section Powers

variable {r : Nat} {G : Type} [AddCommGroup G] [Module (ZMod r) G]

theorem sum_smul_powers (cs : List (ZMod r)) (alpha : ZMod r) (g : G) :
    ((cs.zipIdx.map fun ci => ci.1 • alpha ^ ci.2 • g).sum) = evalCoeffs cs alpha • g := by
  have hshift : ∀ (cs : List (ZMod r)) (k : Nat),
      ((cs.zipIdx k).map fun ci => ci.1 • alpha ^ ci.2 • g).sum =
        (alpha ^ k * evalCoeffs cs alpha) • g := by
    intro cs
    induction cs with
    | nil => simp
    | cons c cs ih =>
      intro k
      rw [List.zipIdx_cons, List.map_cons, List.sum_cons, ih (k + 1), evalCoeffs_cons, smul_smul,
        ← add_smul]
      congr 1
      ring
  rw [hshift cs 0, pow_zero, one_mul]

end Powers

end Lootbox
