import Lootbox.Base.Odometer
import Lootbox.Chiavdf.AggUtil

/-!
# The nonces of a search

A sprout read from its last byte is a row of wheels. All bytes but one do not stop the
increment of `H_G`, which is an odd number, so every sprout of the same length is hashed
before one comes back.
-/

namespace Lootbox.Chiavdf

open Function Odometer Headstart

theorem bump_eq_turn (stop : UInt8 → Bool) (bs : Bytes) : bump stop bs = turn (· + 1) stop bs := by
  induction bs with
  | nil => rfl
  | cons b rest ih =>
    unfold bump turn
    split <;> simp_all

theorem increment_iterate (stop : UInt8 → Bool) (sprout : Bytes) (i : Nat) :
    (increment stop)^[i] sprout = ((turn (· + 1) stop)^[i] sprout.reverse).reverse := by
  induction i with
  | zero => simp
  | succ i ih =>
    rw [iterate_succ_apply', ih, increment, List.reverse_reverse, bump_eq_turn,
      iterate_succ_apply']

/-! ### Bytes as wheels -/

def byteEquiv : Fin 256 ≃ UInt8 where
  toFun := UInt8.ofFin
  invFun := UInt8.toFin
  left_inv _ := rfl
  right_inv _ := rfl

local instance fintypeByte : Fintype UInt8 := Fintype.ofEquiv (Fin 256) byteEquiv

theorem card_byte : Fintype.card UInt8 = 256 :=
  (Fintype.ofEquiv_card byteEquiv).trans (Fintype.card_fin 256)

theorem successor_iterate (b : UInt8) (i : Nat) : (· + 1)^[i] b = b + UInt8.ofNat i := by
  induction i with
  | zero => simp
  | succ i ih => rw [iterate_succ_apply', ih, UInt8.ofNat_add, UInt8.add_assoc]; rfl

theorem successor_fullCycle : FullCycle (· + 1 : UInt8 → UInt8) := by
  intro b c
  refine ⟨(c - b).toNat, ?_⟩
  rw [successor_iterate, UInt8.ofNat_toNat, UInt8.add_comm, UInt8.sub_add_cancel]

theorem coprime_card_byte {m : Nat} (hm : Odd m) : m.Coprime (Fintype.card UInt8) := by
  rw [card_byte]
  exact Nat.Coprime.pow_right 8 (Nat.coprime_two_right.mpr hm)

theorem card_ne_zero : (Finset.univ.filter fun b : UInt8 => (b == 0) = false).card = 255 := by
  have hf : (Finset.univ.filter fun b : UInt8 => (b == 0) = false) = Finset.univ.erase 0 := by
    ext b
    simp
  rw [hf, Finset.card_erase_of_mem (Finset.mem_univ 0), Finset.card_univ, card_byte]

/-! ### The walk -/

section Walk

variable {stop : UInt8 → Bool}
  (hs : Odd (Finset.univ.filter fun b => stop b = false).card)
include hs

theorem increment_bijOn (sprout : Bytes) :
    Set.BijOn (fun i => (increment stop)^[i] sprout) (Set.Iio (256 ^ sprout.length))
      {s | s.length = sprout.length} := by
  have hb := turn_bijOn successor_fullCycle (coprime_card_byte hs) sprout.reverse
  rw [card_byte, List.length_reverse] at hb
  have hr : Set.BijOn List.reverse {s : Bytes | s.length = sprout.length}
      {s | s.length = sprout.length} := by
    refine ⟨fun s h => by simpa using h, List.reverse_injective.injOn, ?_⟩
    intro s h
    exact ⟨s.reverse, by simpa using h, s.reverse_reverse⟩
  apply (hr.comp hb).congr
  intro i _
  exact (increment_iterate stop sprout i).symm

theorem increment_period (sprout : Bytes) (i : Nat) :
    (increment stop)^[i + 256 ^ sprout.length] sprout = (increment stop)^[i] sprout := by
  have hp := turn_iterate_card successor_fullCycle (coprime_card_byte hs) sprout.reverse
  rw [card_byte, List.length_reverse] at hp
  rw [iterate_add_apply, increment_iterate stop sprout, hp, List.reverse_reverse]

end Walk

/-! ### The search of `H_G` -/

variable (H : Primitives)

theorem fillBlob_digest (stop : UInt8 → Bool) (sprout : Bytes) :
    fillBlob H stop 32 32 sprout [] =
      (increment stop sprout, (H.sha256 (increment stop sprout)).toList) := by
  simp [fillBlob]

theorem sproutAfter_eq_iterate (stop : UInt8 → Bool) (seed : Bytes) (i : Nat) :
    sproutAfter H stop 32 seed i = (increment stop)^[i] seed := by
  induction i with
  | zero => rfl
  | succ i ih => rw [sproutAfter, fillBlob_digest, ih, iterate_succ_apply']

/-- The sprouts of one search -/
theorem sproutAfter_visits_all (seed : Bytes) :
    Set.BijOn (sproutAfter H (· == 0) 32 seed) (Set.Iio (256 ^ seed.length))
        {s | s.length = seed.length} ∧
      (∀ i, sproutAfter H (· == 0) 32 seed (i + 256 ^ seed.length) =
        sproutAfter H (· == 0) 32 seed i) ∧
      ∀ i, sproutAfter H (· == 0) 32 seed i = (increment (· == 0))^[i] seed ∧
        blobAfter H (· == 0) 32 seed i = (H.sha256 ((increment (· == 0))^[i + 1] seed)).toList := by
  have hs : Odd (Finset.univ.filter fun b : UInt8 => (b == 0) = false).card := by
    rw [card_ne_zero]
    decide
  have he := sproutAfter_eq_iterate H (· == 0) seed
  refine ⟨?_, ?_, ?_⟩
  · apply (increment_bijOn hs seed).congr
    intro i _
    exact (he i).symm
  · intro i
    rw [he, he, increment_period hs]
  · intro i
    refine ⟨he i, ?_⟩
    rw [blobAfter, fillBlob_digest, he, iterate_succ_apply']

end Lootbox.Chiavdf
