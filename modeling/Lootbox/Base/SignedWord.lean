import Mathlib

/-!
# Signed words of 64 bits

Integers stand for the values of a signed type: an operation is exact where its result is in
range, and undefined or reduced modulo `2 ^ 64` elsewhere.
-/

namespace Lootbox.SignedWord

def InRange (x : Int) : Prop := -2 ^ 63 ≤ x ∧ x < 2 ^ 63

instance decidableInRange (x : Int) : Decidable (InRange x) := by
  unfold InRange
  infer_instance

/-- A result of the signed type, and nothing where it overflows. -/
def checked (x : Int) : Option Int := if InRange x then some x else none

def ofNat (n : Nat) : Int :=
  if n % 2 ^ 64 < 2 ^ 63 then (n % 2 ^ 64 : Nat) else (n % 2 ^ 64 : Nat) - 2 ^ 64

/-- The result of an operation modulo `2 ^ 64`. -/
def wrap (x : Int) : Int := ofNat (x % 2 ^ 64).toNat

theorem inRange_of_abs_lt {x : Int} (hx : |x| < 2 ^ 63) : InRange x := by
  obtain ⟨hlow, hhigh⟩ := abs_lt.mp hx
  exact ⟨hlow.le, hhigh⟩

theorem checked_of_abs_lt {x : Int} (hx : |x| < 2 ^ 63) : checked x = some x := by
  rw [checked, if_pos (inRange_of_abs_lt hx)]

theorem checked_eq_some_iff {x y : Int} : checked x = some y ↔ InRange x ∧ y = x := by
  unfold checked
  split_ifs with hx
  · simp [hx, eq_comm]
  · simp [hx]

theorem ofNat_of_lt {n : Nat} (hn : n < 2 ^ 63) : ofNat n = n := by
  have hmod : n % 2 ^ 64 = n := Nat.mod_eq_of_lt (by omega)
  rw [ofNat, hmod, if_pos hn]

theorem wrap_of_inRange {x : Int} (hx : InRange x) : wrap x = x := by
  obtain ⟨hlow, hhigh⟩ := hx
  have hmod : ((x % 2 ^ 64).toNat : Int) = x % 2 ^ 64 := Int.toNat_of_nonneg (by omega)
  unfold wrap ofNat
  split_ifs <;> omega

end Lootbox.SignedWord
