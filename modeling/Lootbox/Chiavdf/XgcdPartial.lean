import Lootbox.Base.PartialEuclid
import Lootbox.Base.SignedWord
import Lootbox.Chiavdf.AggUtil

/-!
# `xgcd_partial.c`: remainders until one is at most `L`

The inner loop divides the leading limbs only and stops before its quotients can differ from
the true ones too much, so each of its steps is a division of the full numbers.
-/

namespace Lootbox.Chiavdf

open PartialEuclid SignedWord

structure Limbs where
  rr2 : Int
  rr1 : Int
  aa2 : Int
  aa1 : Int
  bb2 : Int
  bb1 : Int
  deriving DecidableEq, Repr

/-- `mpz_tdiv_q_2exp(r, x, bits)`, then `mpz_get_ui(r)` -/
def leadingLimb (x : Int) (bits : Nat) : Int := SignedWord.ofNat (x.tdiv (2 ^ bits)).natAbs

/-- The condition of `break`. -/
def Limbs.breaks (w : Limbs) (i : Nat) (t1 t2 t3 : Int) : Prop :=
  if i % 2 = 1 then t1 < -t3 ∨ w.rr1 - t1 < t2 - w.aa1 else t1 < -t2 ∨ w.rr1 - t1 < t3 - w.bb1

instance Limbs.decidableBreaks (w : Limbs) (i : Nat) (t1 t2 t3 : Int) : Decidable (w.breaks i t1 t2 t3) := by
  unfold Limbs.breaks
  infer_instance

/-- The inner loop; `rr1` bounds its rounds. -/
def limbLoop (bb : Int) : Nat → Nat → Limbs → Nat × Limbs
  | 0, i, w => (i, w)
  | fuel + 1, i, w =>
    if w.rr1 ≠ 0 ∧ w.rr1 > bb then
      let qq := w.rr2.tdiv w.rr1
      let t1 := w.rr2 - qq * w.rr1
      let t2 := w.aa2 - qq * w.aa1
      let t3 := w.bb2 - qq * w.bb1
      if w.breaks i t1 t2 t3 then (i, w) else limbLoop bb fuel (i + 1) ⟨w.rr1, t1, w.aa1, t2, w.bb1, t3⟩
    else (i, w)

/-- A negative remainder changes sign with its cofactor. -/
def flipSigns (s : Pair) : Pair :=
  let s := if s.r1 < 0 then { s with co1 := -s.co1, r1 := -s.r1 } else s
  if s.r2 < 0 then { s with co2 := -s.co2, r2 := -s.r2 } else s

def xgcdRound (L : Int) (s : Pair) : Pair :=
  let bits := max (numBits s.r2) (numBits s.r1) + 1 - 64
  let rr1 := leadingLimb s.r1 bits
  let (i, w) := limbLoop (leadingLimb L bits) rr1.toNat 0 ⟨leadingLimb s.r2 bits, rr1, 0, 1, 1, 0⟩
  if i = 0 then s.divide (s.r2.fdiv s.r1)
  else flipSigns (s.combine w.bb2 w.aa2 w.bb1 w.aa1)

/-- The outer loop; `r1` bounds its rounds. -/
def xgcdLoop (L : Int) : Nat → Pair → Pair
  | 0, s => s
  | fuel + 1, s => if s.r1 ≠ 0 ∧ s.r1 > L then xgcdLoop L fuel (xgcdRound L s) else s

def mpzXgcdPartial (r2 r1 L : Int) : Pair :=
  let s := xgcdLoop L r1.toNat ⟨r2, r1, 0, -1⟩
  if s.r2 < 0 then ⟨-s.r2, s.r1, -s.co2, -s.co1⟩ else s

/-! ### Leading limbs -/

theorem leadingLimb_eq {x : Int} {bits : Nat} (hx : 0 ≤ x) (hlt : x < 2 ^ 63 * 2 ^ bits) :
    leadingLimb x bits = x / 2 ^ bits := by
  have hpow : (0 : Int) < 2 ^ bits := by positivity
  have hquot : x / 2 ^ bits < 2 ^ 63 := by
    rw [Int.ediv_lt_iff_lt_mul hpow]
    exact hlt
  obtain ⟨n, hn⟩ := Int.eq_ofNat_of_zero_le (Int.ediv_nonneg hx hpow.le)
  rw [hn] at hquot
  rw [leadingLimb, Int.tdiv_eq_ediv_of_nonneg hx, hn, Int.natAbs_natCast,
    ofNat_of_lt (by exact_mod_cast hquot)]

theorem lt_two_pow_numBits {x : Int} (hx : 0 ≤ x) : x < 2 ^ numBits x := by
  have hsize := Nat.lt_size_self x.natAbs
  have hle : 2 ^ x.natAbs.size ≤ 2 ^ numBits x := Nat.pow_le_pow_right two_pos (le_max_left _ _)
  have hlt : (x.natAbs : Int) < 2 ^ numBits x := by exact_mod_cast hsize.trans_le hle
  rwa [Int.natAbs_of_nonneg hx] at hlt

/-! ### The inner loop -/

def Limbs.Signs (i : Nat) (w : Limbs) : Prop :=
  (i % 2 = 0 ∧ 1 ≤ w.aa1 ∧ w.aa2 ≤ 0 ∧ 1 ≤ w.bb2 ∧ w.bb1 ≤ 0) ∨
    (i % 2 = 1 ∧ 1 ≤ w.bb1 ∧ w.bb2 ≤ 0 ∧ 1 ≤ w.aa2 ∧ w.aa1 ≤ 0)

section Signs

variable {q x y : Int}

theorem sub_mul_nonpos (hq : 1 ≤ q) (hx : x ≤ 0) (hy : 1 ≤ y) : x - q * y ≤ 0 := by
  have hmul : 0 ≤ q * y := mul_nonneg (by omega) (by omega)
  omega

theorem one_sub_le_sub_mul (hq : 1 ≤ q) (hx : 1 ≤ x) (hy : y ≤ 0) : 1 - y ≤ x - q * y := by
  have hmul : q * y ≤ 1 * y := mul_le_mul_of_nonpos_right hq hy
  omega

theorem Limbs.Signs.next {i : Nat} {w : Limbs} (h : w.Signs i) (hq : 1 ≤ q) (rr2 rr1 : Int) :
    Signs (i + 1) ⟨rr2, rr1, w.aa1, w.aa2 - q * w.aa1, w.bb1, w.bb2 - q * w.bb1⟩ := by
  rcases h with ⟨heven, haa1, haa2, hbb2, hbb1⟩ | ⟨hodd, hbb1, hbb2, haa2, haa1⟩
  · right
    have ht3 := one_sub_le_sub_mul hq hbb2 hbb1
    exact ⟨by omega, by dsimp only; omega, hbb1, haa1, sub_mul_nonpos hq haa2 haa1⟩
  · left
    have ht2 := one_sub_le_sub_mul hq haa2 haa1
    exact ⟨by omega, by dsimp only; omega, haa1, hbb1, sub_mul_nonpos hq hbb2 hbb1⟩

end Signs

/-- The limbs are what `i` divisions of the full numbers make of their leading digits. -/
structure Limbs.Tracks (L a k P : Int) (s : Pair) (i : Nat) (w : Limbs) : Prop where
  rr2_eq : w.rr2 = w.bb2 * (s.r2 / P) + w.aa2 * (s.r1 / P)
  rr1_eq : w.rr1 = w.bb1 * (s.r2 / P) + w.aa1 * (s.r1 / P)
  nonneg : 0 ≤ w.rr1
  le : w.rr1 ≤ w.rr2
  signs : w.Signs i
  remainders : Remainders a k (s.combine w.bb2 w.aa2 w.bb1 w.aa1)
  moved : i = 0 ∧ w = ⟨s.r2 / P, s.r1 / P, 0, 1, 1, 0⟩ ∨
    (s.combine w.bb2 w.aa2 w.bb1 w.aa1).r1 < s.r1 ∧
      L < 2 * (s.combine w.bb2 w.aa2 w.bb1 w.aa1).r2

section Inner

variable {L a k P : Int} {s : Pair} {i : Nat} {w : Limbs}

theorem Limbs.tracks_start (hP : 0 < P) (h : Remainders a k s) :
    Tracks L a k P s 0 ⟨s.r2 / P, s.r1 / P, 0, 1, 1, 0⟩ := by
  refine ⟨by simp, by simp, Int.ediv_nonneg h.nonneg hP.le, Int.ediv_le_ediv hP h.le, ?_, ?_, ?_⟩
  · left
    simp
  · rw [Pair.combine_one]
    exact h
  · left
    simp

/-- Where the loop goes on, the digits below the limbs change nothing. -/
theorem Limbs.Signs.window (h : w.Signs i) (hL : L < P * w.rr1) {q t1 t2 t3 e1 e2 : Int} (hq : 1 ≤ q)
    (ht2 : t2 = w.aa2 - q * w.aa1) (ht3 : t3 = w.bb2 - q * w.bb1) (ht1_nonneg : 0 ≤ t1)
    (hgo : ¬ w.breaks i t1 t2 t3) (he1_nonneg : 0 ≤ e1) (he1_lt : e1 < P) (he2_nonneg : 0 ≤ e2)
    (he2_lt : e2 < P) :
    0 ≤ P * t1 + t3 * e2 + t2 * e1 ∧
      P * t1 + t3 * e2 + t2 * e1 < P * w.rr1 + w.bb1 * e2 + w.aa1 * e1 ∧
      L < 2 * (P * w.rr1 + w.bb1 * e2 + w.aa1 * e1) := by
  unfold breaks at hgo
  rcases h with ⟨heven, haa1, haa2, hbb2, hbb1⟩ | ⟨hodd, hbb1, hbb2, haa2, haa1⟩
  · rw [if_neg (by omega)] at hgo
    push Not at hgo
    obtain ⟨hgo1, hgo2⟩ := hgo
    have ht2_le : t2 ≤ 0 := ht2 ▸ sub_mul_nonpos hq haa2 haa1
    have ht3_ge : 1 - w.bb1 ≤ t3 := ht3 ▸ one_sub_le_sub_mul hq hbb2 hbb1
    refine ⟨?_, ?_, ?_⟩
    · exact window_nonneg he2_nonneg he1_nonneg he1_lt (by omega) ht2_le hgo1
    · exact window_lt he1_nonneg he2_nonneg he2_lt (by omega) (by omega) hgo2
    · exact hL.trans_le (window_half he1_nonneg he2_nonneg he2_lt hbb1 (by omega) ht1_nonneg
        (by omega) hgo2)
  · rw [if_pos hodd] at hgo
    push Not at hgo
    obtain ⟨hgo1, hgo2⟩ := hgo
    have ht3_le : t3 ≤ 0 := ht3 ▸ sub_mul_nonpos hq hbb2 hbb1
    have ht2_ge : 1 - w.aa1 ≤ t2 := ht2 ▸ one_sub_le_sub_mul hq haa2 haa1
    have hswap : ∀ t x y : Int, P * t + x * e2 + y * e1 = P * t + y * e1 + x * e2 := by
      intro t x y
      ring
    rw [hswap, hswap]
    refine ⟨?_, ?_, ?_⟩
    · exact window_nonneg he1_nonneg he2_nonneg he2_lt (by omega) ht3_le hgo1
    · exact window_lt he2_nonneg he1_nonneg he1_lt (by omega) (by omega) hgo2
    · exact hL.trans_le (window_half he2_nonneg he1_nonneg he1_lt haa1 (by omega) ht1_nonneg
        (by omega) hgo2)

theorem Limbs.Tracks.next (hP : 0 < P) (h : w.Tracks L a k P s i)
    (hL : L < P * w.rr1) {q t1 t2 t3 : Int} (hq : 1 ≤ q) (ht1 : t1 = w.rr2 - q * w.rr1)
    (ht2 : t2 = w.aa2 - q * w.aa1) (ht3 : t3 = w.bb2 - q * w.bb1) (ht1_nonneg : 0 ≤ t1)
    (ht1_lt : t1 < w.rr1) (hgo : ¬ w.breaks i t1 t2 t3) :
    Tracks L a k P s (i + 1) ⟨w.rr1, t1, w.aa1, t2, w.bb1, t3⟩ := by
  obtain ⟨S, hS⟩ : ∃ S, S = s.combine w.bb2 w.aa2 w.bb1 w.aa1 := ⟨_, rfl⟩
  have hdivide : s.combine w.bb1 w.aa1 t3 t2 = S.divide q := by
    rw [hS, Pair.divide_combine, ht2, ht3]
  have ht1_eq : t1 = t3 * (s.r2 / P) + t2 * (s.r1 / P) := by
    rw [ht1, ht2, ht3, h.rr2_eq, h.rr1_eq]
    ring
  have hr2 : P * (s.r2 / P) + s.r2 % P = s.r2 := Int.mul_ediv_add_emod _ _
  have hr1 : P * (s.r1 / P) + s.r1 % P = s.r1 := Int.mul_ediv_add_emod _ _
  -- the last two remainders of the full numbers
  have hold : S.r1 = P * w.rr1 + w.bb1 * (s.r2 % P) + w.aa1 * (s.r1 % P) := by
    rw [hS, h.rr1_eq]
    show w.bb1 * s.r2 + w.aa1 * s.r1 = _
    linear_combination -w.bb1 * hr2 - w.aa1 * hr1
  have hnew : S.r2 - q * S.r1 = P * t1 + t3 * (s.r2 % P) + t2 * (s.r1 % P) := by
    have hcombine : S.r2 - q * S.r1 = t3 * s.r2 + t2 * s.r1 :=
      congrArg Pair.r1 hdivide.symm
    rw [hcombine, ht1_eq]
    linear_combination -t3 * hr2 - t2 * hr1
  obtain ⟨hnonneg, hlt, hhalf⟩ := h.signs.window hL hq ht2 ht3 ht1_nonneg hgo
    (Int.emod_nonneg s.r1 hP.ne') (Int.emod_lt_of_pos s.r1 hP) (Int.emod_nonneg s.r2 hP.ne')
    (Int.emod_lt_of_pos s.r2 hP)
  rw [← hnew] at hnonneg hlt
  rw [← hold] at hlt hhalf
  have hSr1 : S.r1 ≤ s.r1 := by
    rcases h.moved with ⟨_, hw⟩ | ⟨hmoved, _⟩
    · rw [hS, hw, Pair.combine_one]
    · rw [hS]
      exact hmoved.le
  refine ⟨h.rr1_eq, ht1_eq, ht1_nonneg, ht1_lt.le, ?_, ?_, Or.inr ⟨?_, ?_⟩⟩
  · rw [ht2, ht3]
    exact h.signs.next hq _ _
  · rw [hdivide]
    exact (hS ▸ h.remainders).divide hq hnonneg hlt
  · rw [hdivide]
    exact hlt.trans_le hSr1
  · rw [hdivide]
    exact hhalf

/-- Every round of the inner loop is a division of the full numbers. -/
theorem limbLoop_tracks (hP : 0 < P) {bb : Int} (hbb : bb = L / P) (fuel : Nat) :
    ∀ i w, w.Tracks L a k P s i →
      (limbLoop bb fuel i w).2.Tracks L a k P s (limbLoop bb fuel i w).1 := by
  induction fuel with
  | zero =>
    intro i w h
    exact h
  | succ fuel ih =>
    intro i w h
    rw [limbLoop]
    dsimp only
    split_ifs with hgo hbreaks
    · exact h
    · obtain ⟨hne, hgt⟩ := hgo
      have hrr1 : 0 < w.rr1 := lt_of_le_of_ne h.nonneg hne.symm
      have hquot : w.rr2.tdiv w.rr1 = w.rr2 / w.rr1 :=
        Int.tdiv_eq_ediv_of_nonneg (h.nonneg.trans h.le)
      have hmod : w.rr2 - w.rr2.tdiv w.rr1 * w.rr1 = w.rr2 % w.rr1 := by
        rw [hquot]
        linear_combination -(Int.mul_ediv_add_emod w.rr2 w.rr1)
      have hL : L < P * w.rr1 := by
        have hlt := Int.lt_mul_ediv_self_add hP (x := L)
        have hmul : P * (L / P + 1) ≤ P * w.rr1 := mul_le_mul_of_nonneg_left (by omega) hP.le
        linarith
      apply ih
      apply h.next hP hL ?_ rfl rfl rfl
      · rw [hmod]
        exact Int.emod_nonneg _ hne
      · rw [hmod]
        exact Int.emod_lt_of_pos _ hrr1
      · exact hbreaks
      · rw [hquot, Int.le_ediv_iff_mul_le hrr1, one_mul]
        exact h.le
    · exact h

end Inner

/-! ### The outer loop -/

section Outer

variable {a k L : Int} {s : Pair}

theorem flipSigns_of_nonneg (h1 : 0 ≤ s.r1) (h2 : 0 ≤ s.r2) : flipSigns s = s := by
  have hr1 : ¬ s.r1 < 0 := by omega
  have hr2 : ¬ s.r2 < 0 := by omega
  simp only [flipSigns, if_neg hr1, if_neg hr2]

def droppedBits (s : Pair) : Nat := max (numBits s.r2) (numBits s.r1) + 1 - 64

theorem lt_two_pow_droppedBits (h1 : 0 ≤ s.r1) (hle : s.r1 ≤ s.r2) :
    s.r2 < 2 ^ 63 * 2 ^ droppedBits s := by
  have hlt := lt_two_pow_numBits (h1.trans hle)
  have hpow : (2 : Int) ^ numBits s.r2 ≤ 2 ^ (63 + droppedBits s) := by
    apply pow_le_pow_right₀ one_le_two
    unfold droppedBits
    omega
  rw [← pow_add]
  exact hlt.trans_le hpow

theorem xgcdRound_spec (hL : 0 ≤ L) (h : Remainders a k s) (hgt : s.r1 > L) :
    Remainders a k (xgcdRound L s) ∧ (xgcdRound L s).r1 < s.r1 ∧ L < 2 * (xgcdRound L s).r2 := by
  have hnonneg := h.nonneg
  have hle := h.le
  have hlt := lt_two_pow_droppedBits hnonneg hle
  have hpow : (0 : Int) < 2 ^ droppedBits s := by positivity
  have hr2 := leadingLimb_eq (hnonneg.trans hle) hlt
  have hr1 := leadingLimb_eq hnonneg (hle.trans_lt hlt)
  have hbb := leadingLimb_eq hL ((lt_of_lt_of_le hgt hle).trans hlt)
  obtain ⟨i, w, hrun⟩ : ∃ i w, limbLoop (leadingLimb L (droppedBits s))
      (leadingLimb s.r1 (droppedBits s)).toNat 0
      ⟨leadingLimb s.r2 (droppedBits s), leadingLimb s.r1 (droppedBits s), 0, 1, 1, 0⟩ = (i, w) :=
    ⟨_, _, rfl⟩
  have htracks : w.Tracks L a k (2 ^ droppedBits s) s i := by
    have htracks := limbLoop_tracks hpow hbb (leadingLimb s.r1 (droppedBits s)).toNat 0 _
      (Limbs.tracks_start hpow h)
    rw [← hr2, ← hr1, hrun] at htracks
    exact htracks
  have hround : xgcdRound L s = if i = 0 then s.divide (s.r2.fdiv s.r1)
      else flipSigns (s.combine w.bb2 w.aa2 w.bb1 w.aa1) := by
    unfold xgcdRound
    dsimp only
    rw [← droppedBits, hrun]
  rw [hround]
  split_ifs with hi
  · rw [Int.fdiv_eq_ediv_of_nonneg _ hnonneg]
    obtain ⟨hdivide, hdrop⟩ := h.divide_fdiv (by omega)
    refine ⟨hdivide, hdrop, ?_⟩
    show L < 2 * s.r1
    omega
  · have hcombine := htracks.remainders
    rw [flipSigns_of_nonneg hcombine.nonneg (hcombine.nonneg.trans hcombine.le)]
    rcases htracks.moved with ⟨hzero, _⟩ | ⟨hdrop, hhalf⟩
    · exact absurd hzero hi
    · exact ⟨hcombine, hdrop, hhalf⟩

theorem xgcdLoop_spec (hL : 0 ≤ L) (fuel : Nat) : ∀ s, Remainders a k s → s.r1 ≤ fuel →
    Remainders a k (xgcdLoop L fuel s) ∧ (xgcdLoop L fuel s).r1 ≤ L ∧
      (xgcdLoop L fuel s = s ∨ L < 2 * (xgcdLoop L fuel s).r2) := by
  induction fuel with
  | zero =>
    intro s h hfuel
    exact ⟨h, by rw [xgcdLoop]; omega, Or.inl rfl⟩
  | succ fuel ih =>
    intro s h hfuel
    rw [xgcdLoop]
    split_ifs with hgo
    · obtain ⟨hround, hdrop, hhalf⟩ := xgcdRound_spec hL h hgo.2
      obtain ⟨hkept, hstop, hmoved⟩ := ih _ hround (by omega)
      refine ⟨hkept, hstop, Or.inr ?_⟩
      rcases hmoved with heq | hlt
      · rw [heq]
        exact hhalf
      · exact hlt
    · exact ⟨h, by omega, Or.inl rfl⟩

/-- The call stops at the first remainder that is at most `L` or one soon after it. -/
theorem mpzXgcdPartial_spec (hk : 0 ≤ k) (hka : k ≤ a) (hL : 0 ≤ L) :
    Remainders a k (mpzXgcdPartial a k L) ∧ (mpzXgcdPartial a k L).r1 ≤ L ∧
      (mpzXgcdPartial a k L = ⟨a, k, 0, -1⟩ ∨ L < 2 * (mpzXgcdPartial a k L).r2) := by
  obtain ⟨hkept, hstop, hmoved⟩ := xgcdLoop_spec hL k.toNat ⟨a, k, 0, -1⟩ (remainders_start hk hka)
    (by simp)
  have hsign : ¬ (xgcdLoop L k.toNat ⟨a, k, 0, -1⟩).r2 < 0 := by
    have hnonneg := hkept.nonneg
    have hle := hkept.le
    omega
  rw [mpzXgcdPartial, if_neg hsign]
  exact ⟨hkept, hstop, hmoved⟩

end Outer

/-! ### Signed limbs do not overflow -/

/-- `t1 < -x || rr1 - t1 < y - z`: the right side stands only where the left one fails. -/
def checkedOr (rr1 t1 x y z : Int) : Option Bool := do
  let negated ← checked (-x)
  if t1 < negated then return true
  let left ← checked (rr1 - t1)
  let right ← checked (y - z)
  return decide (left < right)

/-- The condition of `break` in limbs. -/
def Limbs.checkedBreaks (w : Limbs) (i : Nat) (t1 t2 t3 : Int) : Option Bool :=
  if i % 2 = 1 then checkedOr w.rr1 t1 t3 t2 w.aa1 else checkedOr w.rr1 t1 t2 t3 w.bb1

def checkedLoop (bb : Int) : Nat → Nat → Limbs → Option (Nat × Limbs)
  | 0, i, w => some (i, w)
  | fuel + 1, i, w =>
    if w.rr1 ≠ 0 ∧ w.rr1 > bb then do
      let qq ← checked (w.rr2.tdiv w.rr1)
      let p1 ← checked (qq * w.rr1)
      let t1 ← checked (w.rr2 - p1)
      let p2 ← checked (qq * w.aa1)
      let t2 ← checked (w.aa2 - p2)
      let p3 ← checked (qq * w.bb1)
      let t3 ← checked (w.bb2 - p3)
      let stop ← w.checkedBreaks i t1 t2 t3
      if stop then some (i, w)
      else checkedLoop bb fuel (i + 1) ⟨w.rr1, t1, w.aa1, t2, w.bb1, t3⟩
    else some (i, w)

/-- A round of the outer loop whose limbs are of the C type. -/
def checkedRound (L : Int) (s : Pair) : Option Pair := do
  let bits := max (numBits s.r2) (numBits s.r1) + 1 - 64
  let rr1 := leadingLimb s.r1 bits
  let run ← checkedLoop (leadingLimb L bits) rr1.toNat 0 ⟨leadingLimb s.r2 bits, rr1, 0, 1, 1, 0⟩
  if run.1 = 0 then return s.divide (s.r2.fdiv s.r1)
  return flipSigns (s.combine run.2.bb2 run.2.aa2 run.2.bb1 run.2.aa1)

def checkedOuter (L : Int) : Nat → Pair → Option Pair
  | 0, s => some s
  | fuel + 1, s =>
    if s.r1 ≠ 0 ∧ s.r1 > L then (checkedRound L s).bind (checkedOuter L fuel) else some s

/-- `mpz_xgcd_partial` with limbs of the C type. -/
def checkedXgcdPartial (r2 r1 L : Int) : Option Pair := do
  let s ← checkedOuter L r1.toNat ⟨r2, r1, 0, -1⟩
  return if s.r2 < 0 then ⟨-s.r2, s.r1, -s.co2, -s.co1⟩ else s

/-- Remainders and cofactors weigh at most what the first remainder does. -/
structure Limbs.Weighs (M : Int) (i : Nat) (w : Limbs) : Prop where
  nonneg : 0 ≤ w.rr1
  le : w.rr1 ≤ w.rr2
  rr2_le : w.rr2 ≤ M
  signs : w.Signs i
  aa : |w.aa1| * w.rr2 + |w.aa2| * w.rr1 ≤ M
  bb : |w.bb1| * w.rr2 + |w.bb2| * w.rr1 ≤ M

section Weighs

variable {M : Int} {i : Nat} {w : Limbs}

theorem abs_sub_mul {q x y : Int} (hq : 0 ≤ q) (hsigns : x ≤ 0 ∧ 0 ≤ y ∨ 0 ≤ x ∧ y ≤ 0) :
    |x - q * y| = |x| + q * |y| := by
  rcases hsigns with ⟨hx, hy⟩ | ⟨hx, hy⟩
  · have hmul : 0 ≤ q * y := mul_nonneg hq hy
    rw [abs_of_nonpos hx, abs_of_nonneg hy, abs_of_nonpos (by omega)]
    ring
  · have hmul : q * y ≤ 0 := mul_nonpos_of_nonneg_of_nonpos hq hy
    rw [abs_of_nonneg hx, abs_of_nonpos hy, abs_of_nonneg (by omega)]
    ring

theorem Limbs.Signs.aa_opposite (h : w.Signs i) :
    w.aa2 ≤ 0 ∧ 0 ≤ w.aa1 ∨ 0 ≤ w.aa2 ∧ w.aa1 ≤ 0 := by
  rcases h with ⟨_, haa1, haa2, _, _⟩ | ⟨_, _, _, haa2, haa1⟩
  · exact Or.inl ⟨haa2, by omega⟩
  · exact Or.inr ⟨by omega, haa1⟩

theorem Limbs.Signs.bb_opposite (h : w.Signs i) :
    w.bb2 ≤ 0 ∧ 0 ≤ w.bb1 ∨ 0 ≤ w.bb2 ∧ w.bb1 ≤ 0 := by
  rcases h with ⟨_, _, _, hbb2, hbb1⟩ | ⟨_, hbb1, hbb2, _, _⟩
  · exact Or.inr ⟨by omega, hbb1⟩
  · exact Or.inl ⟨hbb2, by omega⟩

section Cofactor

variable {rr2 rr1 t1 q x2 x1 : Int}

theorem weight_next (hq : 0 ≤ q) (ht1 : t1 = rr2 - q * rr1)
    (hsigns : x2 ≤ 0 ∧ 0 ≤ x1 ∨ 0 ≤ x2 ∧ x1 ≤ 0) (h : |x1| * rr2 + |x2| * rr1 ≤ M) :
    |x2 - q * x1| * rr1 + |x1| * t1 ≤ M := by
  rw [abs_sub_mul hq hsigns, ht1]
  linarith

theorem abs_le_of_weight (hrr1 : 1 ≤ rr1) (ht1 : 0 ≤ t1) (h : |x2| * rr1 + |x1| * t1 ≤ M) :
    |x2| ≤ M := by
  have hx2 : |x2| ≤ |x2| * rr1 := le_mul_of_one_le_right (abs_nonneg _) hrr1
  have hx1 : 0 ≤ |x1| * t1 := mul_nonneg (abs_nonneg _) ht1
  linarith

theorem abs_mul_le_of_weight (hq : 0 ≤ q) (hsigns : x2 ≤ 0 ∧ 0 ≤ x1 ∨ 0 ≤ x2 ∧ x1 ≤ 0)
    (h : |x2 - q * x1| ≤ M) : |q * x1| ≤ M := by
  rw [abs_sub_mul hq hsigns] at h
  rw [abs_mul, abs_of_nonneg hq]
  have hx2 := abs_nonneg x2
  linarith

theorem abs_sub_le_of_weight (hrr1 : 1 ≤ rr1) (ht1 : 1 ≤ t1)
    (h : |x2| * rr1 + |x1| * t1 ≤ M) : |x2 - x1| ≤ M := by
  have hx2 : |x2| ≤ |x2| * rr1 := le_mul_of_one_le_right (abs_nonneg _) hrr1
  have hx1 : |x1| ≤ |x1| * t1 := le_mul_of_one_le_right (abs_nonneg _) ht1
  have hsub := abs_sub x2 x1
  linarith

end Cofactor

theorem checkedOr_eq {rr1 t1 x y z : Int} (hx : |x| < 2 ^ 63)
    (hrest : -x ≤ t1 → |rr1 - t1| < 2 ^ 63 ∧ |y - z| < 2 ^ 63) :
    checkedOr rr1 t1 x y z = some (decide (t1 < -x ∨ rr1 - t1 < y - z)) := by
  unfold checkedOr
  rw [checked_of_abs_lt (by rwa [abs_neg]), Option.bind_eq_bind, Option.bind_some]
  by_cases hlt : t1 < -x
  · simp [hlt]
  · obtain ⟨hleft, hright⟩ := hrest (not_lt.mp hlt)
    simp [hlt, checked_of_abs_lt hleft, checked_of_abs_lt hright]

theorem Limbs.Weighs.next (hM : M < 2 ^ 63) (h : w.Weighs M i) {q t1 t2 t3 : Int} (hq : 1 ≤ q)
    (ht1 : t1 = w.rr2 - q * w.rr1) (ht2 : t2 = w.aa2 - q * w.aa1) (ht3 : t3 = w.bb2 - q * w.bb1)
    (hrr1 : 1 ≤ w.rr1) (ht1_nonneg : 0 ≤ t1) (ht1_lt : t1 < w.rr1) :
    Weighs M (i + 1) ⟨w.rr1, t1, w.aa1, t2, w.bb1, t3⟩ ∧
      (|q * w.aa1| ≤ M ∧ |q * w.bb1| ≤ M ∧ |t2| ≤ M ∧ |t3| ≤ M) ∧
      w.checkedBreaks i t1 t2 t3 = some (decide (w.breaks i t1 t2 t3)) := by
  have hq0 : 0 ≤ q := by omega
  have haa := weight_next hq0 ht1 h.signs.aa_opposite h.aa
  have hbb := weight_next hq0 ht1 h.signs.bb_opposite h.bb
  have haa_le := abs_le_of_weight hrr1 ht1_nonneg haa
  have hbb_le := abs_le_of_weight hrr1 ht1_nonneg hbb
  have hsigns := h.signs.next hq w.rr1 t1
  have hrr1_le : w.rr1 ≤ M := h.le.trans h.rr2_le
  refine ⟨⟨ht1_nonneg, ht1_lt.le, hrr1_le, ?_, ?_, ?_⟩, ⟨?_, ?_, ?_, ?_⟩, ?_⟩
  · rw [ht2, ht3]
    exact hsigns
  · rw [ht2]
    exact haa
  · rw [ht3]
    exact hbb
  · exact abs_mul_le_of_weight hq0 h.signs.aa_opposite haa_le
  · exact abs_mul_le_of_weight hq0 h.signs.bb_opposite hbb_le
  · rw [ht2]
    exact haa_le
  · rw [ht3]
    exact hbb_le
  -- where the right side of `||` is reached, `t1` is not zero
  · have hleft : |w.rr1 - t1| < 2 ^ 63 := by
      rw [abs_of_nonneg (by omega)]
      omega
    unfold checkedBreaks breaks
    rcases h.signs with ⟨heven, haa1, haa2, _, _⟩ | ⟨hodd, hbb1, hbb2, _, _⟩
    · have hmul : 0 < q * w.aa1 := mul_pos (by omega) (by omega)
      simp only [heven, zero_ne_one, if_false]
      apply checkedOr_eq (by rw [ht2]; exact haa_le.trans_lt hM)
      intro hle
      refine ⟨hleft, ?_⟩
      rw [ht3]
      exact (abs_sub_le_of_weight hrr1 (by omega) hbb).trans_lt hM
    · have hmul : 0 < q * w.bb1 := mul_pos (by omega) (by omega)
      simp only [hodd, if_true]
      apply checkedOr_eq (by rw [ht3]; exact hbb_le.trans_lt hM)
      intro hle
      refine ⟨hleft, ?_⟩
      rw [ht2]
      exact (abs_sub_le_of_weight hrr1 (by omega) haa).trans_lt hM

/-- No limb of the inner loop overflows. -/
theorem checkedLoop_eq (hM : M < 2 ^ 63) (bb : Int) (fuel : Nat) :
    ∀ i w, w.Weighs M i → checkedLoop bb fuel i w = some (limbLoop bb fuel i w) := by
  induction fuel with
  | zero =>
    intro i w h
    rfl
  | succ fuel ih =>
    intro i w h
    rw [checkedLoop, limbLoop]
    dsimp only
    by_cases hgo : w.rr1 ≠ 0 ∧ w.rr1 > bb
    · obtain ⟨hne, hgt⟩ := hgo
      have hnonneg := h.nonneg
      have hle := h.le
      have hrr1 : 1 ≤ w.rr1 := by omega
      have hrr2_le := h.rr2_le
      obtain ⟨q, hq⟩ : ∃ q, q = w.rr2.tdiv w.rr1 := ⟨_, rfl⟩
      have hquot : q = w.rr2 / w.rr1 := hq.trans (Int.tdiv_eq_ediv_of_nonneg (hnonneg.trans hle))
      have hq1 : 1 ≤ q := by
        rw [hquot, Int.le_ediv_iff_mul_le (by omega), one_mul]
        exact hle
      have hmod : w.rr2 - q * w.rr1 = w.rr2 % w.rr1 := by
        rw [hquot]
        linear_combination -(Int.mul_ediv_add_emod w.rr2 w.rr1)
      have ht1_nonneg : 0 ≤ w.rr2 - q * w.rr1 := hmod ▸ Int.emod_nonneg _ hne
      have ht1_lt : w.rr2 - q * w.rr1 < w.rr1 := hmod ▸ Int.emod_lt_of_pos _ (by omega)
      obtain ⟨hnext, ⟨hp2, hp3, ht2, ht3⟩, hbreaks⟩ :=
        h.next hM hq1 rfl rfl rfl hrr1 ht1_nonneg ht1_lt
      have hq_le : q * 1 ≤ q * w.rr1 := mul_le_mul_of_nonneg_left hrr1 (by omega)
      have hlimb : ∀ x : Int, |x| ≤ M → checked x = some x :=
        fun x hx => checked_of_abs_lt (hx.trans_lt hM)
      rw [if_pos ⟨hne, hgt⟩, if_pos ⟨hne, hgt⟩, ← hq, hlimb q (by rw [abs_of_nonneg] <;> omega)]
      simp only [Option.bind_eq_bind, Option.bind_some]
      rw [hlimb (q * w.rr1) (by rw [abs_of_nonneg] <;> omega), Option.bind_some,
        hlimb (w.rr2 - q * w.rr1) (by rw [abs_of_nonneg] <;> omega), Option.bind_some,
        hlimb _ hp2, Option.bind_some, hlimb _ ht2, Option.bind_some, hlimb _ hp3, Option.bind_some,
        hlimb _ ht3, Option.bind_some, hbreaks, Option.bind_some]
      simp only [decide_eq_true_eq]
      rw [ih _ _ hnext]
      split_ifs <;> rfl
    · rw [if_neg hgo, if_neg hgo]

end Weighs

section Checked

variable {a k L : Int} {s : Pair}

theorem checkedRound_eq (L : Int) (h : Remainders a k s) :
    checkedRound L s = some (xgcdRound L s) := by
  have hnonneg := h.nonneg
  have hle := h.le
  have hlt := lt_two_pow_droppedBits hnonneg hle
  have hpow : (0 : Int) < 2 ^ droppedBits s := by positivity
  have hr2 := leadingLimb_eq (hnonneg.trans hle) hlt
  have hr1 := leadingLimb_eq hnonneg (hle.trans_lt hlt)
  have hr2_lt : leadingLimb s.r2 (droppedBits s) < 2 ^ 63 := by
    rw [hr2, Int.ediv_lt_iff_lt_mul hpow]
    exact hlt
  have hr1_nonneg : 0 ≤ leadingLimb s.r1 (droppedBits s) := hr1 ▸ Int.ediv_nonneg hnonneg hpow.le
  have hlimbs : leadingLimb s.r1 (droppedBits s) ≤ leadingLimb s.r2 (droppedBits s) := by
    rw [hr1, hr2]
    exact Int.ediv_le_ediv hpow hle
  have hstart : Limbs.Weighs (leadingLimb s.r2 (droppedBits s)) 0
      ⟨leadingLimb s.r2 (droppedBits s), leadingLimb s.r1 (droppedBits s), 0, 1, 1, 0⟩ := by
    refine ⟨hr1_nonneg, hlimbs, le_rfl, Or.inl (by simp), by simp, ?_⟩
    simpa using hlimbs
  unfold checkedRound xgcdRound
  dsimp only
  rw [← droppedBits, checkedLoop_eq hr2_lt _ _ _ _ hstart, Option.bind_eq_bind, Option.bind_some]
  split_ifs <;> rfl

theorem checkedOuter_eq (hL : 0 ≤ L) (fuel : Nat) :
    ∀ s, Remainders a k s → checkedOuter L fuel s = some (xgcdLoop L fuel s) := by
  induction fuel with
  | zero =>
    intro s h
    rfl
  | succ fuel ih =>
    intro s h
    rw [checkedOuter, xgcdLoop]
    split_ifs with hgo
    · rw [checkedRound_eq L h, Option.bind_some, ih _ (xgcdRound_spec hL h hgo.2).1]
    · rfl

theorem checkedXgcdPartial_eq (hk : 0 ≤ k) (hka : k ≤ a) (hL : 0 ≤ L) :
    checkedXgcdPartial a k L = some (mpzXgcdPartial a k L) := by
  rw [checkedXgcdPartial, checkedOuter_eq hL _ _ (remainders_start hk hka)]
  rfl

/-- The limbs never overflow, and the call stops at the first remainder that is at most `L` or at
one soon after it. -/
theorem checkedXgcdPartial_remainders (hk : 0 ≤ k) (hka : k ≤ a) (hL : 0 ≤ L) :
    ∃ s, checkedXgcdPartial a k L = some s ∧ Remainders a k s ∧ s.r1 ≤ L ∧
      (s = ⟨a, k, 0, -1⟩ ∨ L < 2 * s.r2) :=
  ⟨_, checkedXgcdPartial_eq hk hka hL, mpzXgcdPartial_spec hk hka hL⟩

theorem checkedXgcdPartial_remainders_thousand :
    (0 ≤ (377 : Int) ∧ (377 : Int) ≤ 1000 ∧ (0 : Int) ≤ 20) ∧
      ∃ s, checkedXgcdPartial 1000 377 20 = some s ∧ Remainders 1000 377 s ∧ s.r1 ≤ 20 ∧
        (s = ⟨1000, 377, 0, -1⟩ ∨ 20 < 2 * s.r2) :=
  ⟨by norm_num, checkedXgcdPartial_remainders (by norm_num) (by norm_num) (by norm_num)⟩

end Checked

end Lootbox.Chiavdf
