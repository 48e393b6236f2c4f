import Mathlib

/-!
# Codes of fixed width

An injective code whose words have one length. Its words can be told apart at the front of a
longer string, so fields written one after the other can be read back.
-/

namespace Lootbox

universe u v

structure FixedWidthCode (α : Type u) (β : Type v) where
  encode : α → List β
  width : Nat
  length_encode : ∀ a, (encode a).length = width
  injective : Function.Injective encode

namespace FixedWidthCode

variable {α : Type u} {β : Type v} (code : FixedWidthCode α β)

theorem append_inj {a b : α} {r s : List β} :
    code.encode a ++ r = code.encode b ++ s ↔ a = b ∧ r = s := by
  constructor
  · intro h
    have hl : (code.encode a).length = (code.encode b).length := by
      rw [code.length_encode, code.length_encode]
    obtain ⟨hab, hrs⟩ := List.append_inj h hl
    exact ⟨code.injective hab, hrs⟩
  · rintro ⟨rfl, rfl⟩
    rfl

theorem flatMap_append_inj {as bs : List α} {r s : List β} (hl : as.length = bs.length) :
    as.flatMap code.encode ++ r = bs.flatMap code.encode ++ s ↔ as = bs ∧ r = s := by
  induction as generalizing bs with
  | nil =>
    cases List.eq_nil_of_length_eq_zero hl.symm
    simp
  | cons a as ih =>
    cases bs with
    | nil => cases hl
    | cons b bs =>
      rw [List.flatMap_cons, List.flatMap_cons, List.append_assoc, List.append_assoc,
        code.append_inj, ih (Nat.succ.inj hl), List.cons.injEq, and_assoc]

end FixedWidthCode

/-! ### Numbers by their lowest digits -/

theorem mod_pow_eq_of_digits {b x y : Nat} (n : Nat)
    (h : ∀ i < n, x / b ^ i % b = y / b ^ i % b) : x % b ^ n = y % b ^ n := by
  induction n with
  | zero => simp [Nat.mod_one]
  | succ n ih =>
    have hlow := ih fun i hi => h i (Nat.lt_succ_of_lt hi)
    rw [Nat.mod_pow_succ, Nat.mod_pow_succ, hlow, h n (Nat.lt_succ_self n)]

end Lootbox
