import Mathlib

/-!
# Binary search for a boundary

`below i` says that position `i` lies before the boundary. Where it is true up to a boundary and
false from there on, the search finds the boundary. Where positions behind an end are taken for
positions before the boundary again, the search finds it only if it turns left once.
-/

namespace Lootbox.BinarySearch

/-- Python's `bisect_left` on `[lo, hi)`; `fuel` bounds the number of rounds. -/
def bisect (below : Nat → Bool) : Nat → Nat → Nat → Nat
  | 0, lo, _ => lo
  | fuel + 1, lo, hi =>
    if lo < hi then
      let mid := (lo + hi) / 2
      if below mid then bisect below fuel (mid + 1) hi
      else bisect below fuel lo mid
    else lo

variable {below : Nat → Bool} {fuel lo hi mid c : Nat}

theorem bisect_right (hlt : lo < hi) (hmid : (lo + hi) / 2 = mid) (hbelow : below mid = true) :
    bisect below (fuel + 1) lo hi = bisect below fuel (mid + 1) hi := by
  rw [bisect, if_pos hlt, hmid, if_pos hbelow]

theorem bisect_left (hlt : lo < hi) (hmid : (lo + hi) / 2 = mid) (hbelow : below mid = false) :
    bisect below (fuel + 1) lo hi = bisect below fuel lo mid := by
  rw [bisect, if_pos hlt, hmid, if_neg (by rw [hbelow]; exact Bool.false_ne_true)]

theorem bisect_self : bisect below fuel lo lo = lo := by
  cases fuel with
  | zero => rfl
  | succ fuel => rw [bisect, if_neg (Nat.lt_irrefl lo)]

theorem bisect_le (hle : lo ≤ hi) : bisect below fuel lo hi ≤ hi := by
  induction fuel generalizing lo hi with
  | zero => exact hle
  | succ fuel ih =>
    rw [bisect]
    split
    · dsimp only
      split
      · exact ih (by omega)
      · exact Nat.le_trans (ih (by omega)) (by omega)
    · exact hle

theorem bisect_eq_boundary (hfuel : hi - lo ≤ fuel) (hlo : lo ≤ c) (hhi : c ≤ hi)
    (hbefore : ∀ i, lo ≤ i → i < c → below i = true)
    (hafter : ∀ i, c ≤ i → i < hi → below i = false) : bisect below fuel lo hi = c := by
  induction fuel generalizing lo hi with
  | zero =>
    rw [bisect]
    omega
  | succ fuel ih =>
    rcases Nat.lt_or_ge lo hi with hlt | hge
    · obtain ⟨mid, hmid⟩ : ∃ mid, (lo + hi) / 2 = mid := ⟨_, rfl⟩
      cases hbelow : below mid with
      | true =>
        have hmid_lt : mid < c := by
          by_contra hcon
          rw [hafter mid (by omega) (by omega)] at hbelow
          cases hbelow
        rw [bisect_right hlt hmid hbelow]
        exact ih (by omega) (by omega) hhi (fun i hi' => hbefore i (by omega)) hafter
      | false =>
        have hle_mid : c ≤ mid := by
          by_contra hcon
          rw [hbefore mid (by omega) (by omega)] at hbelow
          cases hbelow
        rw [bisect_left hlt hmid hbelow]
        exact ih (by omega) hlo hle_mid hbefore (fun i hc hi' => hafter i hc (by omega))
    · obtain rfl : lo = hi := by omega
      rw [bisect_self]
      omega

/-! ### A range of `2 ** k` positions -/

section PowerOfTwo

variable {k j : Nat}

/-- Where the search stands after it has only turned right: the middle is `2 ** j` before the end. -/
structure Rightmost (k j lo : Nat) : Prop where
  le : j ≤ k
  start : lo + 2 ^ j = 2 ^ k + 1 ∨ (lo = 0 ∧ j = k ∧ 0 < j)

theorem Rightmost.init (hk : 0 < k) : Rightmost k k 0 := ⟨Nat.le_refl k, Or.inr ⟨rfl, rfl, hk⟩⟩

theorem Rightmost.middle (h : Rightmost k (j + 1) lo) :
    lo < 2 ^ k ∧ (lo + 2 ^ k) / 2 = 2 ^ k - 2 ^ j ∧ 2 ^ j ≤ 2 ^ k := by
  have hpow : 2 ^ (j + 1) = 2 * 2 ^ j := Nat.pow_succ'
  have hle : 2 ^ (j + 1) ≤ 2 ^ k := Nat.pow_le_pow_right Nat.two_pos h.le
  have hpos := Nat.two_pow_pos j
  rcases h.start with hstart | ⟨hlo, hjk, _⟩
  · omega
  · rw [hlo, ← hjk]
    omega

theorem Rightmost.next (h : Rightmost k (j + 1) lo) : Rightmost k j (2 ^ k - 2 ^ j + 1) := by
  obtain ⟨_, _, hle⟩ := h.middle
  exact ⟨by have := h.le; omega, Or.inl (by omega)⟩

theorem bisect_all_right (hfuel : 2 ^ k - lo ≤ fuel) (h : Rightmost k j lo)
    (hright : ∀ i < j, below (2 ^ k - 2 ^ i) = true) : bisect below fuel lo (2 ^ k) = 2 ^ k := by
  induction j generalizing lo fuel with
  | zero =>
    rcases h.start with hstart | ⟨_, _, hpos⟩
    · obtain rfl : lo = 2 ^ k := by omega
      exact bisect_self
    · omega
  | succ j ih =>
    obtain ⟨hlt, hmid, hle⟩ := h.middle
    have hpos := Nat.two_pow_pos j
    obtain ⟨fuel, rfl⟩ : ∃ n, fuel = n + 1 := ⟨fuel - 1, by omega⟩
    rw [bisect_right hlt hmid (hright j (by omega))]
    exact ih (by omega) h.next fun i hi => hright i (by omega)

/-- After one turn to the left only positions before the end `m` are read. -/
theorem bisect_one_left {m : Nat} (hfuel : 2 ^ k - lo ≤ fuel) (h : Rightmost k j lo) (hlo : lo ≤ c)
    (hbefore : ∀ i < c, below i = true) (hafter : ∀ i, c ≤ i → i < m → below i = false)
    (hpad : ∀ i, m ≤ i → i < 2 ^ k → below i = true)
    (hleft : ∃ i < j, below (2 ^ k - 2 ^ i) = false) : bisect below fuel lo (2 ^ k) = c := by
  induction j generalizing lo fuel with
  | zero =>
    obtain ⟨i, hi, _⟩ := hleft
    omega
  | succ j ih =>
    obtain ⟨hlt, hmid, hle⟩ := h.middle
    have hpos := Nat.two_pow_pos j
    obtain ⟨fuel, rfl⟩ : ∃ n, fuel = n + 1 := ⟨fuel - 1, by omega⟩
    cases hbelow : below (2 ^ k - 2 ^ j) with
    | true =>
      rw [bisect_right hlt hmid hbelow]
      obtain ⟨i, hi, hfalse⟩ := hleft
      have hij : i < j := by
        rcases Nat.lt_or_eq_of_le (Nat.le_of_lt_succ hi) with hij | rfl
        · exact hij
        · rw [hbelow] at hfalse
          cases hfalse
      have hpow : 2 ^ i ≤ 2 ^ j := Nat.pow_le_pow_right Nat.two_pos (Nat.le_of_lt hij)
      have hpos_i := Nat.two_pow_pos i
      have hlt_m : 2 ^ k - 2 ^ i < m := by
        by_contra hcon
        rw [hpad _ (by omega) (by omega)] at hfalse
        cases hfalse
      have hlt_c : 2 ^ k - 2 ^ j < c := by
        by_contra hcon
        rw [hafter _ (by omega) (by omega)] at hbelow
        cases hbelow
      exact ih (by omega) h.next hlt_c ⟨i, hij, hfalse⟩
    | false =>
      have hle_c : c ≤ 2 ^ k - 2 ^ j := by
        by_contra hcon
        rw [hbefore _ (by omega)] at hbelow
        cases hbelow
      have hlt_m : 2 ^ k - 2 ^ j < m := by
        by_contra hcon
        rw [hpad _ (by omega) (by omega)] at hbelow
        cases hbelow
      rw [bisect_left hlt hmid hbelow]
      exact bisect_eq_boundary (by omega) hlo hle_c (fun i _ hi => hbefore i hi)
        (fun i hc hi => hafter i hc (by omega))

end PowerOfTwo

end Lootbox.BinarySearch
