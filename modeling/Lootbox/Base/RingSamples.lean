import Mathlib

/-!
# Samples of a sequence in a ring

The values of a sequence are kept at every `spacing`-th index of each period. Each period has its
own slots, and after `window` periods they are used again.
-/

namespace Lootbox

/-- The sizes of a ring, whose slots are enough for the samples of a period. -/
structure Ring where
  period : Nat
  spacing : Nat
  slots : Nat
  window : Nat
  period_pos : 0 < period
  window_pos : 0 < window
  fits : period ≤ slots * spacing

namespace Ring

variable (r : Ring) {α : Type*} {P : Nat → α → Prop} {m n : Nat} {cell cell' : Nat → Option α}

def slot (n : Nat) : Nat := n / r.period % r.window * r.slots + n % r.period / r.spacing

def size : Nat := r.window * r.slots

def Sampled (n : Nat) : Prop := n % r.period % r.spacing = 0

def Kept (n m : Nat) : Prop := m ≤ n ∧ r.Sampled m ∧ n / r.period < m / r.period + r.window

theorem offset_lt (n : Nat) : n % r.period / r.spacing < r.slots :=
  Nat.div_lt_of_lt_mul ((Nat.mod_lt n r.period_pos).trans_le (r.fits.trans_eq (mul_comm _ _)))

theorem slot_lt (n : Nat) : r.slot n < r.size := by
  have hrow : n / r.period % r.window + 1 ≤ r.window := Nat.mod_lt _ r.window_pos
  calc r.slot n < n / r.period % r.window * r.slots + r.slots :=
        Nat.add_lt_add_left (r.offset_lt n) _
    _ = (n / r.period % r.window + 1) * r.slots := (Nat.succ_mul _ _).symm
    _ ≤ r.size := Nat.mul_le_mul_right _ hrow

/-- Two samples share a slot only if the ring has come round between them. -/
theorem eq_or_later (hm : r.Sampled m) (hn : r.Sampled n) (hmn : m ≤ n) (h : r.slot m = r.slot n) :
    m = n ∨ m / r.period + r.window ≤ n / r.period := by
  have hslots : 0 < r.slots := (Nat.zero_le _).trans_lt (r.offset_lt m)
  have hdiv : ∀ k, r.slot k / r.slots = k / r.period % r.window := by
    intro k
    rw [slot, mul_comm, Nat.mul_add_div hslots, Nat.div_eq_of_lt (r.offset_lt k), Nat.add_zero]
  have hmod : ∀ k, r.slot k % r.slots = k % r.period / r.spacing := by
    intro k
    rw [slot, mul_comm, Nat.mul_add_mod, Nat.mod_eq_of_lt (r.offset_lt k)]
  have hrow : m / r.period % r.window = n / r.period % r.window := by rw [← hdiv, ← hdiv, h]
  have hoffset : m % r.period = n % r.period := by
    rw [← Nat.div_add_mod (m % r.period) r.spacing, ← Nat.div_add_mod (n % r.period) r.spacing, hm, hn,
      ← hmod, ← hmod, h]
  have hle : m / r.period ≤ n / r.period := Nat.div_le_div_right hmn
  rcases hle.eq_or_lt with heq | hlt
  · left
    rw [← Nat.div_add_mod m r.period, ← Nat.div_add_mod n r.period, heq, hoffset]
  · right
    obtain ⟨c, hc⟩ : r.window ∣ n / r.period - m / r.period := (Nat.modEq_iff_dvd' hle).mp hrow
    have hc_pos : 0 < c := by
      rcases Nat.eq_zero_or_pos c with rfl | hc_pos
      · rw [mul_zero] at hc
        omega
      · exact hc_pos
    have hwindow := Nat.le_mul_of_pos_right r.window hc_pos
    omega

theorem Kept.slot_ne {r : Ring} (h : r.Kept (n + 1) m) (hm : m ≤ n) (hn : r.Sampled (n + 1)) :
    r.slot m ≠ r.slot (n + 1) := by
  intro hslot
  obtain ⟨_, hsampled, hwindow⟩ := h
  rcases r.eq_or_later hsampled hn (by omega) hslot with rfl | hlater
  · omega
  · omega

def Held (P : Nat → α → Prop) (n : Nat) (cell : Nat → Option α) : Prop :=
  ∀ m, r.Kept n m → ∃ a, cell (r.slot m) = some a ∧ P m a

variable {r}

theorem Held.start (h : ∃ a, cell 0 = some a ∧ P 0 a) : r.Held P 0 cell := by
  intro m hm
  obtain rfl : m = 0 := Nat.le_zero.mp hm.1
  have hslot : r.slot 0 = 0 := by simp [slot]
  rwa [hslot]

theorem Held.congr (h : r.Held P n cell) (hcell : ∀ k < r.size, cell' k = cell k) :
    r.Held P n cell' := by
  intro m hm
  rw [hcell _ (r.slot_lt m)]
  exact h m hm

theorem Held.next (h : r.Held P n cell)
    (hwrite : r.Sampled (n + 1) → ∃ a, cell' (r.slot (n + 1)) = some a ∧ P (n + 1) a)
    (hkeep : ∀ k < r.size, (r.Sampled (n + 1) → k ≠ r.slot (n + 1)) → cell' k = cell k) :
    r.Held P (n + 1) cell' := by
  intro m hm
  rcases Nat.le_succ_iff.mp hm.1 with hle | rfl
  · have hdiv : n / r.period ≤ (n + 1) / r.period := Nat.div_le_div_right (Nat.le_succ n)
    obtain ⟨a, ha, hP⟩ := h m ⟨hle, hm.2.1, hdiv.trans_lt hm.2.2⟩
    exact ⟨a, by rw [hkeep _ (r.slot_lt m) (hm.slot_ne hle), ha], hP⟩
  · exact hwrite hm.2.1

end Ring

end Lootbox
