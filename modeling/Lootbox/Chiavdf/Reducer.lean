import Lootbox.Base.SignedWord
import Lootbox.Chiavdf.Nucomp

/-!
# `Reducer.h`: reduction by approximated coefficients

A round carries out a substitution that was found on the leading 63 bits of the coefficients, in
64-bit arithmetic. However good the approximation is, the substitution has determinant one, so a
run that returns has stayed in the class and ends in a form that is reduced up to the sign of `b`.
-/

namespace Lootbox.Chiavdf

open Headstart BinaryQF ReducedForm SignedWord

namespace Reducer

/-! ### The code -/

/-- `isReduced`: the form that it leaves where it is true. -/
def isReduced (f : Form) : Option Form :=
  if |f.a| < |f.b| ∨ |f.c| < |f.b| then none
  else if f.a > f.c then some ⟨f.c, -f.b, f.a⟩
  else if f.a = f.c ∧ f.b < 0 then some ⟨f.a, -f.b, f.c⟩
  else some f

def reducer (f : Form) : Option Form := do
  let r ← fdivQ f.b f.c
  let s := (r + 1).fdiv 2
  return ⟨f.c, 2 * (f.c * s) - f.b, f.a + s * (f.c * s - f.b)⟩

def signedShift (op : Nat) (shift : Int) : Int :=
  if shift > 0 then SignedWord.ofNat (op * 2 ^ shift.toNat)
  else if shift ≤ -64 then 0
  else SignedWord.ofNat (op / 2 ^ (-shift).toNat)

/-- The limb `i` of an absolute value, `mpz_getlimbn`. -/
def limbAt (n i : Nat) : Nat := n / 2 ^ (64 * i) % 2 ^ 64

/-- `mpz_get_si_2exp`: the leading bits and their exponent. -/
def getSi2exp (op : Int) : Option (Int × Int) := do
  let size := (op.natAbs.size + 63) / 64
  let last := limbAt op.natAbs (size - 1)
  let lg2 : Int := last.size
  let r := signedShift last (63 - lg2)
  let r ← (if size > 1 then checked (r + signedShift (limbAt op.natAbs (size - 2)) (-1 - lg2))
    else some r)
  let exp := if size > 1 then lg2 + (size - 1) * 64 else lg2
  return (if op < 0 then -r else r, exp)

/-- A substitution of `calc_uvwx`. -/
structure Uvwx where
  u : Int
  v : Int
  w : Int
  x : Int
  deriving DecidableEq, Repr

def thresh : Nat := 2 ^ 31

/-- The quotient `s` of `calc_uvwx`, which rounds `b / 2c` to the nearest. -/
def quotient (b c : Int) : Option Int := do
  let d ← checked (2 * c)
  let n ← checked (if b ≥ 0 then b + c else -b + c)
  if d = 0 then none else return (if b ≥ 0 then n else -n).tdiv d

/-- The loop of `calc_uvwx`, where `m` holds `u_`, `v_`, `w_` and `x_`; each round lowers `a`. -/
def calcLoop : Nat → Uvwx → Int → Int → Int → Option Uvwx
  | 0, _, _, _, _ => none
  | fuel + 1, m, a, b, c => do
    let s ← quotient b c
    let cs ← checked (c * s)
    let e ← checked (b - cs)
    let d ← checked (s * e)
    let c' ← checked (a - d)
    let b' := wrap (-b + 2 * cs)
    let sv ← checked (s * m.v)
    let v' ← checked (-m.u + sv)
    let sx ← checked (s * m.x)
    let x' ← checked (-m.w + sx)
    if v'.natAbs ||| x'.natAbs ≤ thresh then
      if c > c' ∧ c' > 0 then calcLoop fuel ⟨m.v, v', m.x, x'⟩ c b' c'
      else some ⟨m.v, v', m.x, x'⟩
    else some m

def calcUvwx (a b c : Int) : Option Uvwx := calcLoop (c.natAbs + 1) ⟨1, 0, 0, 1⟩ a b c

/-- The form in the variables of `m`. -/
def substitute (f : Form) (m : Uvwx) : Option Form := do
  let uu ← checked (m.u * m.u)
  let uw ← checked (m.u * m.w)
  let ww ← checked (m.w * m.w)
  let uv ← checked (m.u * m.v)
  let ux ← checked (m.u * m.x)
  let vw ← checked (m.v * m.w)
  let sum ← checked (ux + vw)
  let wx ← checked (m.w * m.x)
  let vv ← checked (m.v * m.v)
  let vx ← checked (m.v * m.x)
  let xx ← checked (m.x * m.x)
  return ⟨f.a * uu + f.b * uw + f.c * ww, f.a * wrap (2 * uv) + f.b * sum + f.c * wrap (2 * wx),
    f.a * vv + f.b * vx + f.c * xx⟩

/-- A round of the loop of `run`. -/
def round (f : Form) : Option Form := do
  let a ← getSi2exp f.a
  let b ← getSi2exp f.b
  let c ← getSi2exp f.c
  let maxExp := max (max a.2 b.2) c.2
  let minExp := min (min a.2 b.2) c.2
  if maxExp - minExp > 31 then reducer f
  else
    let shift := fun r : Int × Int => r.1 / 2 ^ (maxExp + 1 - r.2).toNat
    let m ← calcUvwx (shift a) (shift b) (shift c)
    substitute f m

/-- `run`; there is no result where an operation overflows or `fuel` rounds are too few. -/
def run : Nat → Form → Option Form
  | 0, _ => none
  | fuel + 1, f =>
    match isReduced f with
    | some g => some g
    | none => (round f).bind (run fuel)

theorem run_mono {f g : Form} {fuel fuel' : Nat} (hle : fuel ≤ fuel') (h : run fuel f = some g) :
    run fuel' f = some g := by
  induction fuel generalizing f fuel' with
  | zero => cases h
  | succ fuel ih =>
    obtain ⟨fuel', rfl⟩ : ∃ k, fuel' = k + 1 := ⟨fuel' - 1, by omega⟩
    unfold run at h ⊢
    cases hreduced : isReduced f with
    | some r =>
      rw [hreduced] at h
      exact h
    | none =>
      rw [hreduced] at h
      obtain ⟨r, hround, hrun⟩ := Option.bind_eq_some_iff.mp h
      exact Option.bind_eq_some_iff.mpr ⟨r, hround, ih (by omega) hrun⟩

open Classical in
/-- What `run` leaves, with as many rounds as it takes. -/
noncomputable def reduced (f : Form) : Option Form :=
  if h : ∃ g, ∃ fuel, run fuel f = some g then some h.choose else none

theorem reduced_eq_some_iff {f g : Form} : reduced f = some g ↔ ∃ fuel, run fuel f = some g := by
  have hunique : ∀ g g', (∃ fuel, run fuel f = some g) → (∃ fuel, run fuel f = some g') → g = g' := by
    rintro g g' ⟨fuel, h⟩ ⟨fuel', h'⟩
    have hmax := run_mono (le_max_left fuel fuel') h
    exact Option.some.inj (hmax.symm.trans (run_mono (le_max_right fuel fuel') h'))
  unfold reduced
  constructor
  · intro h
    split_ifs at h with hexists
    exact Option.some.inj h ▸ hexists.choose_spec
  · intro h
    have hexists : ∃ g, ∃ fuel, run fuel f = some g := ⟨g, h⟩
    rw [dif_pos hexists, hunique _ g hexists.choose_spec h]

theorem reduced_eq_none_iff {f : Form} : reduced f = none ↔ ∀ fuel, run fuel f = none := by
  constructor
  · intro h fuel
    cases hrun : run fuel f with
    | none => rfl
    | some g =>
      rw [reduced_eq_some_iff.mpr ⟨fuel, hrun⟩] at h
      cases h
  · intro h
    cases hreduced : reduced f with
    | none => rfl
    | some g =>
      obtain ⟨fuel, hrun⟩ := reduced_eq_some_iff.mp hreduced
      rw [h fuel] at hrun
      cases hrun

/-! ### Each round is a substitution of determinant one -/

section Equivalence

variable {f g : Form}

theorem reducer_equivalent (h : reducer f = some g) : ProperlyEquivalent f g := by
  obtain ⟨r, _, h⟩ := Option.bind_eq_some_iff.mp h
  cases h
  have hswap := swap_equivalent f ((r + 1).fdiv 2)
  generalize (r + 1).fdiv 2 = s at hswap ⊢
  have hb : 2 * (f.c * s) - f.b = -f.b + 2 * s * f.c := by ring
  have hc : f.a + s * (f.c * s - f.b) = f.c * s * s - f.b * s + f.a := by ring
  rw [hb, hc]
  exact hswap

/-- A unimodular substitution whose entries fit half a word. -/
structure Uvwx.Unimodular (m : Uvwx) : Prop where
  det : m.u * m.x - m.v * m.w = 1
  u_le : m.u.natAbs ≤ thresh
  v_le : m.v.natAbs ≤ thresh
  w_le : m.w.natAbs ≤ thresh
  x_le : m.x.natAbs ≤ thresh

theorem Uvwx.Unimodular.next {m : Uvwx} (hm : m.Unimodular) {s v' x' : Int}
    (hv' : v' = -m.u + s * m.v) (hx' : x' = -m.w + s * m.x)
    (hbelow : v'.natAbs ||| x'.natAbs ≤ thresh) : Unimodular ⟨m.v, v', m.x, x'⟩ := by
  refine ⟨?_, hm.v_le, Nat.left_le_or.trans hbelow, hm.x_le, Nat.right_le_or.trans hbelow⟩
  dsimp only
  rw [hv', hx']
  linear_combination hm.det

theorem calcLoop_unimodular (fuel : Nat) :
    ∀ (m : Uvwx) (a b c : Int) (r : Uvwx), m.Unimodular → calcLoop fuel m a b c = some r →
      r.Unimodular := by
  induction fuel with
  | zero =>
    intro m a b c r hm h
    cases h
  | succ fuel ih =>
    intro m a b c r hm h
    unfold calcLoop at h
    obtain ⟨s, _, h⟩ := Option.bind_eq_some_iff.mp h
    obtain ⟨cs, _, h⟩ := Option.bind_eq_some_iff.mp h
    obtain ⟨e, _, h⟩ := Option.bind_eq_some_iff.mp h
    obtain ⟨d, _, h⟩ := Option.bind_eq_some_iff.mp h
    obtain ⟨c', _, h⟩ := Option.bind_eq_some_iff.mp h
    obtain ⟨sv, hsv, h⟩ := Option.bind_eq_some_iff.mp h
    obtain ⟨v', hv', h⟩ := Option.bind_eq_some_iff.mp h
    obtain ⟨sx, hsx, h⟩ := Option.bind_eq_some_iff.mp h
    obtain ⟨x', hx', h⟩ := Option.bind_eq_some_iff.mp h
    rw [(checked_eq_some_iff.mp hsv).2] at hv'
    rw [(checked_eq_some_iff.mp hsx).2] at hx'
    have hv'_eq := (checked_eq_some_iff.mp hv').2
    have hx'_eq := (checked_eq_some_iff.mp hx').2
    split_ifs at h with hbelow hagain
    · exact ih _ _ _ _ _ (hm.next hv'_eq hx'_eq hbelow) h
    · cases h
      exact hm.next hv'_eq hx'_eq hbelow
    · cases h
      exact hm

theorem calcUvwx_unimodular {a b c : Int} {m : Uvwx} (h : calcUvwx a b c = some m) :
    m.Unimodular := by
  apply calcLoop_unimodular _ _ _ _ _ _ _ h
  exact ⟨by norm_num, by simp [thresh], by simp, by simp, by simp [thresh]⟩

theorem inRange_two_mul {i j k l : Int} (hi : i.natAbs ≤ thresh) (hj : j.natAbs ≤ thresh)
    (hdet : i * k - j * l = 1) : InRange (2 * (i * j)) := by
  unfold thresh at hi hj
  have hlt : (i * j).natAbs < 2 ^ 62 := by
    rw [Int.natAbs_mul]
    rcases Nat.lt_or_ge i.natAbs (2 ^ 31) with hi_lt | hi_ge
    · exact (Nat.mul_le_mul (Nat.le_pred_of_lt hi_lt) hj).trans_lt (by norm_num)
    · rcases Nat.lt_or_ge j.natAbs (2 ^ 31) with hj_lt | hj_ge
      · exact (Nat.mul_le_mul hi (Nat.le_pred_of_lt hj_lt)).trans_lt (by norm_num)
      -- both are even otherwise, which the determinant excludes
      · have hi_even : 2 ∣ i := by omega
        have hj_even : 2 ∣ j := by omega
        have hone : (2 : Int) ∣ 1 := hdet ▸ dvd_sub (hi_even.mul_right k) (hj_even.mul_right l)
        omega
  unfold InRange
  omega

theorem substitute_equivalent {m : Uvwx} (hm : m.Unimodular) (h : substitute f m = some g) :
    ProperlyEquivalent f g := by
  unfold substitute at h
  obtain ⟨uu, huu, h⟩ := Option.bind_eq_some_iff.mp h
  obtain ⟨uw, huw, h⟩ := Option.bind_eq_some_iff.mp h
  obtain ⟨ww, hww, h⟩ := Option.bind_eq_some_iff.mp h
  obtain ⟨uv, huv, h⟩ := Option.bind_eq_some_iff.mp h
  obtain ⟨ux, hux, h⟩ := Option.bind_eq_some_iff.mp h
  obtain ⟨vw, hvw, h⟩ := Option.bind_eq_some_iff.mp h
  obtain ⟨sum, hsum, h⟩ := Option.bind_eq_some_iff.mp h
  obtain ⟨wx, hwx, h⟩ := Option.bind_eq_some_iff.mp h
  obtain ⟨vv, hvv, h⟩ := Option.bind_eq_some_iff.mp h
  obtain ⟨vx, hvx, h⟩ := Option.bind_eq_some_iff.mp h
  obtain ⟨xx, hxx, h⟩ := Option.bind_eq_some_iff.mp h
  cases h
  rw [(checked_eq_some_iff.mp hux).2, (checked_eq_some_iff.mp hvw).2] at hsum
  have hdet := hm.det
  have huv_wrap := wrap_of_inRange (inRange_two_mul hm.u_le hm.v_le hdet)
  have hwx_wrap := wrap_of_inRange (inRange_two_mul (k := m.u) (l := m.v) hm.x_le hm.w_le
    (by linarith))
  rw [mul_comm m.x] at hwx_wrap
  refine ⟨m.u, m.v, m.w, m.x, hdet, ?_⟩
  rw [(checked_eq_some_iff.mp huu).2, (checked_eq_some_iff.mp huw).2, (checked_eq_some_iff.mp hww).2,
    (checked_eq_some_iff.mp huv).2, (checked_eq_some_iff.mp hsum).2, (checked_eq_some_iff.mp hwx).2,
    (checked_eq_some_iff.mp hvv).2, (checked_eq_some_iff.mp hvx).2, (checked_eq_some_iff.mp hxx).2,
    huv_wrap, hwx_wrap]
  apply ext_coefficients
  · simp only [subst]
    ring
  · simp only [subst]
    ring
  · simp only [subst]
    ring

theorem round_equivalent (h : round f = some g) : ProperlyEquivalent f g := by
  unfold round at h
  obtain ⟨a, _, h⟩ := Option.bind_eq_some_iff.mp h
  obtain ⟨b, _, h⟩ := Option.bind_eq_some_iff.mp h
  obtain ⟨c, _, h⟩ := Option.bind_eq_some_iff.mp h
  dsimp only at h
  split_ifs at h
  · exact reducer_equivalent h
  · obtain ⟨m, hm, h⟩ := Option.bind_eq_some_iff.mp h
    exact substitute_equivalent (calcUvwx_unimodular hm) h

/-- What `isReduced` leaves is reduced up to the sign of `b`. -/
structure Settled (f : Form) : Prop where
  b_le : |f.b| ≤ f.a
  order : f.a < f.c ∨ f.a = f.c ∧ 0 ≤ f.b

theorem isReduced_spec (ha : 0 < f.a) (hc : 0 < f.c) (h : isReduced f = some g) :
    ProperlyEquivalent f g ∧ Settled g := by
  unfold isReduced at h
  rw [abs_of_pos ha, abs_of_pos hc] at h
  have hswap : ProperlyEquivalent f ⟨f.c, -f.b, f.a⟩ := by
    have hswap := swap_equivalent f 0
    simpa using hswap
  split_ifs at h with hbig hgt htie
  · cases h
    refine ⟨hswap, ?_, Or.inl hgt⟩
    rw [abs_neg]
    dsimp only
    omega
  · cases h
    rw [htie.1] at hswap ⊢
    refine ⟨hswap, ?_, Or.inr ⟨rfl, by dsimp only; omega⟩⟩
    rw [abs_neg]
    dsimp only
    omega
  · cases h
    refine ⟨ProperlyEquivalent.refl _, by omega, ?_⟩
    omega

theorem run_equivalent {d : Int} (hd : d < 0) (fuel : Nat) :
    ∀ f, f.PosDef d → run fuel f = some g → ProperlyEquivalent f g ∧ Settled g := by
  induction fuel with
  | zero =>
    intro f hf h
    cases h
  | succ fuel ih =>
    intro f hf h
    unfold run at h
    split at h
    · rename_i r hreduced
      cases h
      exact isReduced_spec hf.a_pos (hf.c_pos hd) hreduced
    · obtain ⟨r, hround, hrun⟩ := Option.bind_eq_some_iff.mp h
      have hfr := round_equivalent hround
      obtain ⟨hrg, hsettled⟩ := ih r (hf.of_equivalent hd hfr) hrun
      exact ⟨hfr.trans hrg, hsettled⟩

theorem Settled.translate {d : Int} (hf : f.PosDef d) (h : Settled f) :
    f.Reduced d ∨ f.b = -f.a ∧ Reduced d ⟨f.a, f.a, f.c⟩ ∧ ProperlyEquivalent f ⟨f.a, f.a, f.c⟩ := by
  obtain ⟨hlower, hupper⟩ := abs_le.mp h.b_le
  have ha := hf.a_pos
  rcases hlower.lt_or_eq with hlt | heq
  · exact Or.inl ⟨hf, hlt, hupper, h.order⟩
  · right
    have hdisc := hf.eq
    rw [← heq] at hdisc
    refine ⟨heq.symm, ⟨⟨ha, ?_⟩, by dsimp only; omega, le_rfl, ?_⟩, ?_⟩
    · simp only [discriminant]
      linarith
    · rcases h.order with hlt | ⟨hac, _⟩
      · exact Or.inl hlt
      · exact Or.inr ⟨hac, ha.le⟩
    · have htranslate := translate_equivalent f 1
      have hb : f.b + 2 * f.a * 1 = f.a := by omega
      have hc : f.a * 1 ^ 2 + f.b * 1 + f.c = f.c := by omega
      rwa [hb, hc] at htranslate

/-- The approximations decide how fast a run is, never what it returns: up to `b = -a` that is the
form of `reduce`. -/
theorem run_agrees_with_reduce {d : Int} (hd : d < 0) (hf : f.PosDef d) {fuel : Nat}
    (hrun : run fuel f = some g) :
    ProperlyEquivalent f g ∧ g.PosDef d ∧ |g.b| ≤ g.a ∧ g.a ≤ g.c ∧ (g.a = g.c → 0 ≤ g.b) ∧
      ∃ r, reduce f = .ok r ∧ (g = r ∨ g.b = -g.a ∧ r = ⟨g.a, g.a, g.c⟩) := by
  obtain ⟨hfg, hsettled⟩ := run_equivalent hd fuel f hf hrun
  have hg := hf.of_equivalent hd hfg
  obtain ⟨r, hreduce, hr⟩ := exists_reducedForm hf.a_pos (hf.disc ▸ hd)
  rw [hf.disc] at hr
  have hgr := hfg.symm.trans (reducedForm_equivalent hreduce)
  refine ⟨hfg, hg, hsettled.b_le, ?_, ?_, r, reduce_eq hreduce hr, ?_⟩
  · rcases hsettled.order with hlt | ⟨heq, _⟩
    · exact hlt.le
    · exact heq.le
  · intro heq
    rcases hsettled.order with hlt | ⟨_, hb⟩
    · omega
    · exact hb
  · rcases hsettled.translate hg with hred | ⟨hb, hred, htranslate⟩
    · exact Or.inl (hred.eq_of_equivalent hr hgr)
    · exact Or.inr ⟨hb, hr.eq_of_equivalent hred (hgr.symm.trans htranslate)⟩

/-- A form of discriminant `-23`. -/
theorem run_agrees_with_reduce_23 : run 5 ⟨12, 11, 3⟩ = some ⟨2, -1, 3⟩ ∧
    ∃ r, reduce ⟨12, 11, 3⟩ = .ok r ∧
      ((⟨2, -1, 3⟩ : Form) = r ∨ (-1 : Int) = -2 ∧ r = ⟨2, 2, 3⟩) := by
  have hf : PosDef (-23) ⟨12, 11, 3⟩ := ⟨by decide, by decide⟩
  have hrun : run 5 ⟨12, 11, 3⟩ = some ⟨2, -1, 3⟩ := by decide
  obtain ⟨_, _, _, _, _, hagrees⟩ := run_agrees_with_reduce (by decide) hf hrun
  exact ⟨hrun, hagrees⟩

end Equivalence

/-! ### What a run returns -/

section Class

variable {p : Nat} [hp : PrimeDiscriminant p] {f g : Form} {x : ReducedForm p}

/-- A settled form is the reduced one, except that in the class of one `b` may be `-1`. -/
theorem Settled.eq_or (hg : Settled g) (h : HasClass g x) :
    g = x.form ∨ x = 1 ∧ g = ⟨1, -1, x.form.c⟩ := by
  rcases hg.translate h.posDef with hred | ⟨hb, hred, htranslate⟩
  · left
    rw [h.unique (hasClass_form ⟨g, hred⟩)]
  -- then `a` divides `p`, which leaves `a = 1`
  · right
    have hone : g.a = 1 := by
      have hunit := isCoprime_self.mp hred.isCoprime
      rcases Int.isUnit_iff.mp hunit with h1 | h1
      · exact h1
      · have ha := hred.a_pos
        dsimp only at h1 ha
        omega
    have hclass := h.of_equivalent htranslate
    obtain ⟨c, hprincipal, hc⟩ := principal_eq p
    have hc_eq : g.c = c := by
      have hdisc := hred.eq
      rw [hone] at hdisc
      dsimp only at hdisc
      omega
    have hx : x = 1 := by
      apply hclass.unique
      rw [hone, hc_eq, ← hprincipal]
      exact hasClass_form (1 : ReducedForm p)
    refine ⟨hx, ?_⟩
    rw [hx, one_form, hprincipal, ← hc_eq]
    exact ext_coefficients hone (hb.trans (congrArg _ hone)) rfl

/-- Whatever the approximations are, a run that returns does so in the class of its form. -/
theorem run_class {fuel : Nat} (h : HasClass f x) (hrun : run fuel f = some g) :
    HasClass g x ∧ (g = x.form ∨ x = 1 ∧ g = ⟨1, -1, x.form.c⟩) := by
  obtain ⟨hequivalent, hsettled⟩ := run_equivalent (neg_discriminant p) fuel f h.posDef hrun
  have hg := h.of_equivalent hequivalent
  exact ⟨hg, hsettled.eq_or hg⟩

end Class

end Reducer

end Lootbox.Chiavdf
