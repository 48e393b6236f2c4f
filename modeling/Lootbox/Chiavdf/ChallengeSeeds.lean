import Lootbox.Chiavdf.AggUtil
import Lootbox.Headstart.ToyVDF

/-!
# `aggutil.h`: the seed of a challenge

`H_G` starts from the last bytes of the challenge, as many as a coefficient of a form of the
discriminant takes.
-/

namespace Lootbox.Chiavdf

open Headstart

/-- `seed` of `H_G` and `H_GFast` -/
def challengeSeed (D challenge : Int) : Bytes :=
  convertIntegerToBytes2 challenge ((numBits D + 16) >>> 4)

theorem candidate_eq (H : Primitives) (challenge D : Int) (i : Nat) :
    candidate H challenge D i =
      setBits [0, 1] (bytesToLong (blobAfter H (· == 0) 32 (challengeSeed D challenge) i)) := rfl

theorem bytesToLong_concat (x : Bytes) (b : UInt8) :
    bytesToLong (x ++ [b]) = 256 * bytesToLong x + b.toNat := by
  rw [bytesToLong, List.foldl_append]
  rfl

theorem convertIntegerToBytes2_succ (v n : Nat) (b : UInt8) :
    convertIntegerToBytes2 ((256 * v + b.toNat : Nat) : Int) (n + 1) =
      convertIntegerToBytes2 (v : Int) n ++ [b] := by
  have hb : b.toNat < 256 := b.toNat_lt
  have hlast : UInt8.ofNat ((256 * v + b.toNat) / 256 ^ 0 % 256) = b := by
    rw [pow_zero, Nat.div_one, Nat.mul_add_mod, Nat.mod_eq_of_lt hb, UInt8.ofNat_toNat]
  have hrest : ∀ i, (256 * v + b.toNat) / 256 ^ (i + 1) = v / 256 ^ i := by
    intro i
    rw [pow_succ', ← Nat.div_div_eq_div_mul, Nat.mul_add_div (by norm_num), Nat.div_eq_of_lt hb,
      Nat.add_zero]
  unfold convertIntegerToBytes2
  simp only [Int.natCast_nonneg, not_lt.mpr, if_false, Int.toNat_natCast, List.range_succ_eq_map,
    List.map_cons, List.map_map, List.reverse_cons, hlast]
  congr 2
  apply List.map_congr_left
  intro i _
  rw [Function.comp_apply, hrest]

theorem convertIntegerToBytes2_bytesToLong {n : Nat} {x : Bytes} (hn : n ≤ x.length) :
    convertIntegerToBytes2 (bytesToLong x : Int) n = x.drop (x.length - n) := by
  induction n generalizing x with
  | zero =>
    rw [Nat.sub_zero, List.drop_length]
    rfl
  | succ n ih =>
    rcases List.eq_nil_or_concat x with rfl | ⟨x, b, rfl⟩
    · cases hn
    · rw [List.concat_eq_append, List.length_append, List.length_singleton] at *
      have hle : n ≤ x.length := by omega
      rw [bytesToLong_concat, convertIntegerToBytes2_succ, ih hle, Nat.add_sub_add_right,
        List.drop_append_of_le_length (by omega)]

/-- The seeds of two digests differ exactly when their last 17 bytes do. -/
theorem challengeSeed_ne_iff {D : Int} (hD : numBits D = 256) {x y : Bytes} (hx : x.length = 32)
    (hy : y.length = 32) :
    challengeSeed D (bytesToLong x) ≠ challengeSeed D (bytesToLong y) ↔ x.drop 15 ≠ y.drop 15 := by
  have hseed : ∀ z : Bytes, z.length = 32 → challengeSeed D (bytesToLong z) = z.drop 15 := by
    intro z hz
    rw [challengeSeed, hD, convertIntegerToBytes2_bytesToLong (by rw [hz]; decide), hz]
    rfl
  rw [hseed x hx, hseed y hy]

theorem hG_eq_of_challengeSeed (H : Primitives) (fuel : Nat) {D challenge challenge' : Int}
    (h : challengeSeed D challenge = challengeSeed D challenge') :
    hG H fuel challenge D = hG H fuel challenge' D := by
  have hcandidate : ∀ i, candidate H challenge D i = candidate H challenge' D i := by
    intro i
    rw [candidate_eq, candidate_eq, h]
  unfold hG
  simp only [hcandidate]

theorem numBits_discriminantPrime : numBits (-discriminantPrime) = 256 := by decide +kernel

/-- Digests that end in `1` and in `2`. -/
theorem challengeSeed_ne_last :
    challengeSeed (-discriminantPrime) (bytesToLong (List.replicate 31 0 ++ [1])) ≠
      challengeSeed (-discriminantPrime) (bytesToLong (List.replicate 31 0 ++ [2])) :=
  (challengeSeed_ne_iff numBits_discriminantPrime rfl rfl).mpr (by decide)

/-- Digests that differ in their first byte only. -/
theorem challengeSeed_collision :
    ∃ (D : Int) (x y : Bytes), numBits D = 256 ∧ x.length = 32 ∧ y.length = 32 ∧ x ≠ y ∧
      challengeSeed D (bytesToLong x) = challengeSeed D (bytesToLong y) ∧
      ∀ H fuel, hG H fuel (bytesToLong x) D = hG H fuel (bytesToLong y) D := by
  have hseed : challengeSeed (-discriminantPrime) (bytesToLong (1 :: List.replicate 31 0)) =
      challengeSeed (-discriminantPrime) (bytesToLong (2 :: List.replicate 31 0)) := by
    decide +kernel
  exact ⟨-discriminantPrime, 1 :: List.replicate 31 0, 2 :: List.replicate 31 0,
    numBits_discriminantPrime, rfl, rfl, by decide, hseed,
    fun H fuel => hG_eq_of_challengeSeed H fuel hseed⟩

end Lootbox.Chiavdf
