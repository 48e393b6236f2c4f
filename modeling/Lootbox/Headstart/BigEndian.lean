import Lootbox.Headstart.Basic

/-!
# Numbers as big-endian bytes
-/

namespace Lootbox.Headstart

/-- `int.from_bytes(x, "big")`, which is also `bytes_to_long(x)` -/
def bytesToLong (x : Bytes) : Nat := x.foldl (fun n b => 256 * n + b.toNat) 0

/-- `v.to_bytes(length, "big")` for a number that fits. -/
def toBytes : Nat → Nat → Bytes
  | 0, _ => []
  | length + 1, v => UInt8.ofNat (v / 256 ^ length) :: toBytes length (v % 256 ^ length)

theorem length_toBytes (length v : Nat) : (toBytes length v).length = length := by
  induction length generalizing v with
  | zero => rfl
  | succ length ih => rw [toBytes, List.length_cons, ih]

theorem foldl_bytes (x : Bytes) (n : Nat) :
    x.foldl (fun n b => 256 * n + b.toNat) n = n * 256 ^ x.length + bytesToLong x := by
  induction x generalizing n with
  | nil => rw [List.foldl_nil, List.length_nil, pow_zero, mul_one, bytesToLong, List.foldl_nil]; rfl
  | cons b x ih =>
    rw [bytesToLong, List.foldl_cons, List.foldl_cons, ih, ih (256 * 0 + b.toNat), List.length_cons]
    ring

theorem bytesToLong_cons (b : UInt8) (x : Bytes) :
    bytesToLong (b :: x) = b.toNat * 256 ^ x.length + bytesToLong x := by
  rw [bytesToLong, List.foldl_cons, foldl_bytes, mul_zero, zero_add]

theorem bytesToLong_lt (x : Bytes) : bytesToLong x < 256 ^ x.length := by
  induction x with
  | nil => exact Nat.one_pos
  | cons b x ih =>
    have hb : b.toNat + 1 ≤ 256 := b.toNat_lt
    calc bytesToLong (b :: x) < (b.toNat + 1) * 256 ^ x.length := by
          rw [bytesToLong_cons, add_one_mul]
          omega
      _ ≤ 256 * 256 ^ x.length := Nat.mul_le_mul_right _ hb
      _ = 256 ^ (b :: x).length := by rw [List.length_cons, pow_succ, mul_comm]

theorem bytesToLong_toBytes {length v : Nat} (hv : v < 256 ^ length) :
    bytesToLong (toBytes length v) = v := by
  induction length generalizing v with
  | zero =>
    have hzero : v = 0 := Nat.lt_one_iff.mp hv
    rw [hzero]
    rfl
  | succ length ih =>
    have hpos : 0 < 256 ^ length := by positivity
    have hdiv : v / 256 ^ length < 256 := Nat.div_lt_of_lt_mul (by rwa [← pow_succ])
    rw [toBytes, bytesToLong_cons, ih (Nat.mod_lt v hpos), length_toBytes,
      UInt8.toNat_ofNat_of_lt' hdiv, Nat.div_add_mod']

end Lootbox.Headstart
