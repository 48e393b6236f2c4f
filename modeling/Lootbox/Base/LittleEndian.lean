import Mathlib

/-!
# Little-endian fields in a buffer

A number is written with as many bytes as it needs and padded to the width of its field. Fields
written one after the other fill the buffer from the left.
-/

namespace Lootbox.LittleEndian

/-- The lowest `length` digits of `v` to the base 256, the lowest first. -/
def encode : Nat → Nat → List UInt8
  | 0, _ => []
  | length + 1, v => UInt8.ofNat v :: encode length (v / 256)

def decode (x : List UInt8) : Nat := x.foldr (fun b n => b.toNat + 256 * n) 0

def byteLength (v : Nat) : Nat := (v.size + 7) / 8

section Numbers

variable {length v n : Nat}

@[simp] theorem length_encode (length v : Nat) : (encode length v).length = length := by
  induction length generalizing v with
  | zero => rfl
  | succ length ih => rw [encode, List.length_cons, ih]

@[simp] theorem decode_nil : decode [] = 0 := rfl

@[simp] theorem decode_cons (b : UInt8) (x : List UInt8) :
    decode (b :: x) = b.toNat + 256 * decode x := rfl

theorem decode_encode (hv : v < 256 ^ length) : decode (encode length v) = v := by
  induction length generalizing v with
  | zero =>
    have hzero : v = 0 := Nat.lt_one_iff.mp hv
    rw [hzero]
    rfl
  | succ length ih =>
    have hdiv : v / 256 < 256 ^ length := by
      rw [Nat.div_lt_iff_lt_mul (by norm_num), ← pow_succ]
      exact hv
    rw [encode, decode_cons, ih hdiv, UInt8.toNat_ofNat', Nat.mod_add_div]

theorem byteLength_le_iff : byteLength v ≤ n ↔ v < 256 ^ n := by
  have hpow : 256 ^ n = 2 ^ (8 * n) := by
    rw [pow_mul]
    norm_num
  rw [hpow, ← Nat.size_le, byteLength]
  omega

theorem lt_pow_byteLength (v : Nat) : v < 256 ^ byteLength v := byteLength_le_iff.mp le_rfl

theorem pow_le_of_lt_byteLength (h : n < byteLength v) : 256 ^ n ≤ v :=
  Nat.not_lt.mp fun hlt => absurd (byteLength_le_iff.mpr hlt) (Nat.not_le.mpr h)

theorem encode_append_zeros (hv : v < 256 ^ length) (k : Nat) :
    encode length v ++ List.replicate k 0 = encode (length + k) v := by
  induction length generalizing v with
  | zero =>
    have hzero : v = 0 := Nat.lt_one_iff.mp hv
    rw [hzero, encode, List.nil_append, Nat.zero_add]
    induction k with
    | zero => rfl
    | succ k ih =>
      rw [List.replicate_succ, encode, Nat.zero_div, ih]
      rfl
  | succ length ih =>
    have hdiv : v / 256 < 256 ^ length := by
      rw [Nat.div_lt_iff_lt_mul (by norm_num), ← pow_succ]
      exact hv
    rw [encode, List.cons_append, ih hdiv, Nat.add_right_comm, encode]

end Numbers

/-! ### Writing to a buffer -/

/-- The buffer with `x` at the given offset, if it is large enough. -/
def write (out : List UInt8) (offset : Nat) (x : List UInt8) : Option (List UInt8) :=
  if offset + x.length ≤ out.length then
    some (out.take offset ++ x ++ out.drop (offset + x.length))
  else none

/-- `mpz_export`, then zeros up to the width of the field. -/
def writeField (out : List UInt8) (offset width v : Nat) : Option (List UInt8) := do
  let bytes := byteLength v
  let out ← write out offset (encode bytes v)
  if bytes < width then write out (offset + bytes) (List.replicate (width - bytes) 0) else some out

section Buffer

variable {x pre rest out : List UInt8} {offset width v : Nat}

theorem write_append (hpre : pre.length = offset) (hx : x.length ≤ rest.length) :
    write (pre ++ rest) offset x = some (pre ++ x ++ rest.drop x.length) := by
  rw [← hpre, write, if_pos (by rw [List.length_append]; omega), List.take_left, ← List.drop_drop,
    List.drop_left]

theorem write_zero (hx : x.length ≤ out.length) : write out 0 x = some (x ++ out.drop x.length) := by
  rw [write, if_pos (by omega), List.take_zero, List.nil_append, Nat.zero_add]

theorem write_all (hx : x.length = out.length) : write out 0 x = some x := by
  rw [write_zero hx.le, List.drop_eq_nil_of_le hx.ge, List.append_nil]

theorem writeField_append (hpre : pre.length = offset) (hv : v < 256 ^ width)
    (hwidth : width ≤ rest.length) : writeField (pre ++ rest) offset width v =
      some (pre ++ encode width v ++ rest.drop width) := by
  have hle : byteLength v ≤ width := byteLength_le_iff.mpr hv
  have hlength := length_encode (byteLength v) v
  have hsplit := encode_append_zeros (lt_pow_byteLength v) (width - byteLength v)
  rw [Nat.add_sub_of_le hle] at hsplit
  unfold writeField
  dsimp only
  rw [write_append hpre (by rw [hlength]; omega), hlength, Option.bind_eq_bind, Option.bind_some]
  split_ifs with hlt
  · rw [write_append (by rw [List.length_append, hpre, hlength])
        (by rw [List.length_replicate, List.length_drop]; omega),
      List.append_assoc pre, hsplit, List.length_replicate, List.drop_drop, Nat.add_sub_of_le hle]
  · have heq : byteLength v = width := by omega
    rw [heq]

theorem decode_field (hpre : pre.length = offset) (hv : v < 256 ^ width) :
    decode (((pre ++ encode width v ++ rest).drop offset).take width) = v := by
  rw [List.append_assoc, List.drop_left' hpre, List.take_left' (length_encode width v), decode_encode hv]

end Buffer

end Lootbox.LittleEndian
