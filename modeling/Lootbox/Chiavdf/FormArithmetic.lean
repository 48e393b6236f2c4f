import Lootbox.Base.PartialResults
import Lootbox.Chiavdf.Reducer

/-!
# `vdf_new.h` and `proof_common.h`: products and powers of forms

`operator*` composes as `math/bqf.py` does and reduces; `FastPowFormNucomp` squares and multiplies
with `nucomp.h`, and reduces in between when a coefficient has grown.
-/

namespace Lootbox.Chiavdf

open Headstart BinaryQF ReducedForm

/-! ### `operator*` -/

def solveLinearCongruence (gcdext : Gcdext) (a b m : Int) : Except PyError (Int × Int) := do
  let g := (gcdext.run a m).1
  let d := (gcdext.run a m).2.1
  let q ← floorDiv b g
  let r ← floorMod b g
  if r ≠ 0 then throw .assertionError
  let mu ← floorMod (q * d) m
  let v ← floorDiv m g
  return (mu, v)

def threeGcd (gcdext : Gcdext) (a b c : Int) : Int := (gcdext.run (gcdext.run a b).1 c).1

def multiply (gcdext : Gcdext) (f1 f2 : Form) : Except PyError Form := do
  let g := (f2.b + f1.b).fdiv 2
  let h := (f2.b - f1.b).fdiv 2
  let w := threeGcd gcdext f1.a f2.a g
  let s ← floorDiv f1.a w
  let t ← floorDiv f2.a w
  let u ← floorDiv g w
  let first ← solveLinearCongruence gcdext (t * u) (h * u + s * f1.c) (s * t)
  let second ← solveLinearCongruence gcdext (t * first.2) (h - t * first.1) s
  let k := first.1 + first.2 * second.1
  let l ← floorDiv (t * k - h) s
  let m ← floorDiv (t * u * k - h * u - s * f1.c) (s * t)
  reduce ⟨s * t, w * u - (k * t + l * s), k * l - w * m⟩

def square (gcdext : Gcdext) (f : Form) : Except PyError Form := do
  let q ← floorDiv f.c (gcdext.run f.b f.a).1
  let u ← floorMod (q * (gcdext.run f.b f.a).2.1) f.a
  let m ← floorDiv (f.b * u - f.c) f.a
  reduce ⟨f.a * f.a, f.b - 2 * (f.a * u), u * u - m⟩

/-- `operator*`, which squares where its operands are one object. -/
def times (gcdext : Gcdext) (same_object : Bool) (f1 f2 : Form) : Except PyError Form :=
  if same_object then square gcdext f1 else multiply gcdext f1 f2

theorem solveLinearCongruence_of_ok {gcdext : Gcdext} {a b m : Int} {r : Int × Int}
    (h : solveLinmod gcdext a b m = .ok r) : solveLinearCongruence gcdext a b m = .ok r := by
  unfold solveLinmod at h
  obtain ⟨q, hq, h⟩ := bind_eq_ok_iff.mp h
  obtain ⟨rem, hrem, h⟩ := bind_eq_ok_iff.mp h
  unfold solveLinearCongruence
  refine bind_eq_of_ok hq (bind_eq_of_ok hrem ?_)
  split_ifs at h ⊢
  · cases h
  · exact h

theorem multiply_eq {gcdext : Gcdext} {f g : Form} {v : Locals}
    (h : compose gcdext f g = .ok v) : multiply gcdext f g = reduce v.form := by
  unfold compose at h
  dsimp only at h
  obtain ⟨s, hs, h⟩ := bind_eq_ok_iff.mp h
  obtain ⟨t, ht, h⟩ := bind_eq_ok_iff.mp h
  obtain ⟨u, hu, h⟩ := bind_eq_ok_iff.mp h
  obtain ⟨first, hfirst, h⟩ := bind_eq_ok_iff.mp h
  obtain ⟨second, hsecond, h⟩ := bind_eq_ok_iff.mp h
  obtain ⟨l, hl, h⟩ := bind_eq_ok_iff.mp h
  obtain ⟨m, hm, h⟩ := bind_eq_ok_iff.mp h
  cases h
  have hsum : f.b + g.b = g.b + f.b := add_comm _ _
  have hdiff : -(f.b - g.b) = g.b - f.b := neg_sub _ _
  have hw : threeGcd gcdext f.a g.a ((g.b + f.b).fdiv 2) =
      (Int.gcd (Int.gcd f.a g.a) ((g.b + f.b).fdiv 2) : Int) := by
    rw [threeGcd, gcdext.gcd_eq, gcdext.gcd_eq]
  rw [hsum] at hs ht hu
  rw [hdiff] at hfirst hsecond hl hm
  unfold multiply
  dsimp only
  rw [hw]
  refine bind_eq_of_ok hs (bind_eq_of_ok ht (bind_eq_of_ok hu ?_))
  refine bind_eq_of_ok (solveLinearCongruence_of_ok hfirst) ?_
  refine bind_eq_of_ok (solveLinearCongruence_of_ok hsecond) ?_
  rw [mul_comm] at hl
  rw [mul_comm f.c] at hm
  refine bind_eq_of_ok hl (bind_eq_of_ok hm ?_)
  rw [hsum]
  rfl

section Class

variable {p : Nat} [hp : PrimeDiscriminant p] {f g : Form} {x y : ReducedForm p}

theorem multiply_class (gcdext : Gcdext) (hf : HasClass f x) (hg : HasClass g y) :
    multiply gcdext f g = .ok (x * y).form := by
  obtain ⟨v, hcompose, hv, hw, hs, ht, hgcd⟩ := compose_spec gcdext hf.posDef hg.posDef
  rw [multiply_eq hcompose]
  exact reduce_class (hf.compose hg hv hw hs ht hgcd)

theorem square_class (gcdext : Gcdext) (hf : HasClass f x) (hcop : IsCoprime f.a f.b) :
    square gcdext f = .ok (x * x).form := by
  obtain ⟨mu, rest, m, hsolve, hm, hsquare⟩ := square_spec gcdext hf.posDef hcop
  obtain ⟨h, hmul, hh⟩ := hf.mul gcdext hf fun _ => hcop
  rw [BinaryQF.mul, if_pos rfl, hsquare] at hmul
  cases hmul
  unfold solveLinmod at hsolve
  obtain ⟨q, hq, hsolve⟩ := bind_eq_ok_iff.mp hsolve
  obtain ⟨rem, _, hsolve⟩ := bind_eq_ok_iff.mp hsolve
  split_ifs at hsolve
  obtain ⟨_, hthrow, _⟩ := bind_eq_ok_iff.mp hsolve
  · cases hthrow
  obtain ⟨u, hu, hsolve⟩ := bind_eq_ok_iff.mp hsolve
  obtain ⟨v, _, hsolve⟩ := bind_eq_ok_iff.mp hsolve
  cases hsolve
  have hdiv : floorDiv (f.b * mu - f.c) f.a = .ok m := by
    rw [← hm, floorDiv_mul hf.posDef.a_pos]
  unfold square
  refine bind_eq_of_ok hq (bind_eq_of_ok hu (bind_eq_of_ok hdiv ?_))
  have hform : (⟨f.a * f.a, f.b - 2 * (f.a * mu), mu * mu - m⟩ : Form) =
      ⟨f.a ^ 2, f.b - 2 * f.a * mu, mu ^ 2 - m⟩ := by
    apply ext_coefficients
    · dsimp only
      ring
    · dsimp only
      ring
    · dsimp only
      ring
  rw [hform]
  exact reduce_class hh

theorem times_class (gcdext : Gcdext) (hf : HasClass f x) (hg : HasClass g y) {same_object : Bool}
    (hsame : same_object = true → f = g ∧ IsCoprime f.a f.b) :
    times gcdext same_object f g = .ok (x * y).form := by
  unfold times
  split_ifs with htrue
  · obtain ⟨rfl, hcop⟩ := hsame htrue
    rw [hg.unique hf]
    exact square_class gcdext hf hcop
  · exact multiply_class gcdext hf hg

end Class

/-! ### `FastPowFormNucomp` -/

/-- `_mp_size`: the limbs, with the sign of the number. -/
def mpSize (x : Int) : Int := if x < 0 then -((x.natAbs.size + 63) / 64 : Nat)
  else ((x.natAbs.size + 63) / 64 : Nat)

section Power

variable (gcdext : Gcdext) (shrink : Form → Option Form)

def nucompForm (f g : Form) (d L : Int) : Except PyError Form :=
  need .diverges (qfbNucomp gcdext f g d L)

/-- `reducer.reduce` of the `PulmarkReducer`, here `shrink`. -/
def reducerReduce (f : Form) : Except PyError Form := need .diverges (shrink f)

def powRound (x : Form) (d L : Int) (bit : Bool) (res : Form) : Except PyError Form := do
  let res ← need .diverges (qfbNudupl gcdext res d L)
  let res ← (if mpSize res.a > (-mpSize d).tdiv 2 then reducerReduce shrink res else .ok res)
  if bit then nucompForm gcdext res x d L else .ok res

/-- The loop over the bits below `i`. -/
def powLoop (x : Form) (d L : Int) (n : Nat) : Nat → Form → Except PyError Form
  | 0, res => .ok res
  | i + 1, res => do
    let res ← powRound gcdext shrink x d L (n.testBit i) res
    powLoop x d L n i res

def fastPowFormNucomp (x : Form) (d : Int) (n : Nat) (L : Int) : Except PyError Form :=
  if n = 0 then identity d
  else do
    let res ← powLoop gcdext shrink x d L n (n.size - 1) x
    reducerReduce shrink res

end Power

section Class

variable {p : Nat} [hp : PrimeDiscriminant p] {f g res : Form} {x y : ReducedForm p} {L : Int}
  {shrink : Form → Option Form}

/-- What the reduction returns lies in the class it was called with. -/
def KeepsClass (p : Nat) [PrimeDiscriminant p] (shrink : Form → Option Form) : Prop :=
  ∀ (f g : Form) (x : ReducedForm p), HasClass f x → shrink f = some g → HasClass g x

/-- The reduction does not return for some form. -/
def Fails (p : Nat) [PrimeDiscriminant p] (shrink : Form → Option Form) : Prop :=
  ∃ (f : Form) (x : ReducedForm p), HasClass f x ∧ shrink f = none

/-- A form of the class, unless the reduction has failed. -/
def YieldsClass (shrink : Form → Option Form) (x : ReducedForm p) (c : Except PyError Form) : Prop :=
  Yields .diverges (Fails p shrink) (HasClass · x) c

theorem run_keepsClass (p : Nat) [PrimeDiscriminant p] (rounds : Nat) :
    KeepsClass p (Reducer.run rounds) := fun _ _ _ h hrun => (Reducer.run_class h hrun).1

theorem reduced_keepsClass (p : Nat) [PrimeDiscriminant p] : KeepsClass p Reducer.reduced := by
  intro f g x h hreduced
  obtain ⟨rounds, hrun⟩ := Reducer.reduced_eq_some_iff.mp hreduced
  exact run_keepsClass p rounds f g x h hrun

theorem Fails.exists_form (h : Fails p Reducer.reduced) :
    ∃ f : Form, f.PosDef (-p) ∧ ∀ fuel, Reducer.run fuel f = none := by
  obtain ⟨f, x, hf, hnone⟩ := h
  exact ⟨f, hf.posDef, Reducer.reduced_eq_none_iff.mp hnone⟩

theorem nucompForm_class (gcdext : Gcdext) (shrink : Form → Option Form) (hf : HasClass f x)
    (hg : HasClass g y) (hL : 0 ≤ L) :
    YieldsClass shrink (x * y) (nucompForm gcdext f g (-p) L) := by
  obtain ⟨h, hnucomp, hh⟩ := qfbNucomp_class gcdext hf hg hL
  exact Yields.of_ok (by rw [nucompForm, hnucomp, need_some]) hh

theorem reducerReduce_class (hkeeps : KeepsClass p shrink) (hf : HasClass f x) :
    YieldsClass shrink x (reducerReduce shrink f) := by
  unfold reducerReduce
  cases h : shrink f with
  | none => exact Or.inr ⟨rfl, f, x, hf, h⟩
  | some g => exact Yields.pure (hkeeps f g x hf h)

theorem reducerReduce_eq_or (hf : HasClass f x) (h : reducerReduce Reducer.reduced f = .ok g) :
    g = x.form ∨ x = 1 ∧ g = ⟨1, -1, x.form.c⟩ := by
  obtain ⟨fuel, hrun⟩ := Reducer.reduced_eq_some_iff.mp (need_eq_ok_iff.mp h)
  exact (Reducer.run_class hf hrun).2

theorem powRound_class (gcdext : Gcdext) (hkeeps : KeepsClass p shrink) (hL : 0 ≤ L)
    (hf : HasClass f x) (hres : HasClass res y) (bit : Bool) :
    YieldsClass shrink (y ^ 2 * x ^ bit.toNat) (powRound gcdext shrink f (-p) L bit res) := by
  obtain ⟨s, hnudupl, hs⟩ := qfbNudupl_class gcdext hres hL
  rw [← pow_two] at hs
  have hsmall : YieldsClass shrink (y ^ 2)
      (if mpSize s.a > (-mpSize (-p)).tdiv 2 then reducerReduce shrink s else .ok s) := by
    split_ifs
    · exact reducerReduce_class hkeeps hs
    · exact Yields.pure hs
  unfold powRound
  rw [hnudupl, need_some, ok_bind]
  apply hsmall.bind
  intro small hclass
  cases bit with
  | false =>
    rw [Bool.toNat_false, pow_zero, mul_one]
    exact Yields.pure hclass
  | true =>
    rw [Bool.toNat_true, pow_one]
    exact nucompForm_class gcdext shrink hclass hf hL

theorem div_two_pow_eq (n i : Nat) : n / 2 ^ i = 2 * (n / 2 ^ (i + 1)) + (n.testBit i).toNat := by
  rw [Nat.testBit_eq_decide_div_mod_eq, pow_succ, ← Nat.div_div_eq_div_mul]
  rcases Nat.mod_two_eq_zero_or_one (n / 2 ^ i) with h | h
  · simp only [h, zero_ne_one, decide_false, Bool.toNat_false]
    omega
  · simp only [h, decide_true, Bool.toNat_true]
    omega

theorem powLoop_class (gcdext : Gcdext) (hkeeps : KeepsClass p shrink) (hL : 0 ≤ L)
    (hf : HasClass f x) (n i : Nat) : ∀ res, HasClass res (x ^ (n / 2 ^ i)) →
      YieldsClass shrink (x ^ n) (powLoop gcdext shrink f (-p) L n i res) := by
  induction i with
  | zero =>
    intro res hres
    rw [pow_zero, Nat.div_one] at hres
    exact Yields.pure hres
  | succ i ih =>
    intro res hres
    apply (powRound_class gcdext hkeeps hL hf hres (n.testBit i)).bind
    intro r hr
    rw [← pow_mul, ← pow_add, mul_comm _ 2, ← div_two_pow_eq] at hr
    exact ih r hr

theorem div_two_pow_size {n : Nat} (hn : n ≠ 0) : n / 2 ^ (n.size - 1) = 1 := by
  have hpos : 0 < n.size := Nat.size_pos.mpr (Nat.pos_of_ne_zero hn)
  have hlt := Nat.lt_size_self n
  have hle : 2 ^ (n.size - 1) ≤ n := Nat.lt_size.mp (by omega)
  have hsplit : n.size = n.size - 1 + 1 := by omega
  rw [hsplit, pow_succ] at hlt
  rw [Nat.div_eq_iff (by positivity)]
  omega

theorem fastPowFormNucomp_class (gcdext : Gcdext) (hkeeps : KeepsClass p shrink) (hL : 0 ≤ L)
    (hf : HasClass f x) (n : Nat) :
    YieldsClass shrink (x ^ n) (fastPowFormNucomp gcdext shrink f (-p) n L) := by
  unfold fastPowFormNucomp
  split_ifs with hn
  · rw [identity_eq, hn, pow_zero]
    exact Yields.pure (hasClass_form 1)
  · have hstart : HasClass f (x ^ (n / 2 ^ (n.size - 1))) := by
      rwa [div_two_pow_size hn, pow_one]
    apply (powLoop_class gcdext hkeeps hL hf n (n.size - 1) f hstart).bind
    intro res hres
    exact reducerReduce_class hkeeps hres

theorem fastPowFormNucomp_eq_or (gcdext : Gcdext) (hL : 0 ≤ L) (hf : HasClass f x) (n : Nat)
    (h : fastPowFormNucomp gcdext Reducer.reduced f (-p) n L = .ok g) :
    g = (x ^ n).form ∨ x ^ n = 1 ∧ g = ⟨1, -1, (x ^ n).form.c⟩ := by
  unfold fastPowFormNucomp at h
  split_ifs at h with hn
  · rw [identity_eq] at h
    cases h
    rw [hn, pow_zero]
    exact Or.inl rfl
  · have hstart : HasClass f (x ^ (n / 2 ^ (n.size - 1))) := by
      rwa [div_two_pow_size hn, pow_one]
    obtain ⟨res, hres, h⟩ := bind_eq_ok_iff.mp h
    have hloop := powLoop_class gcdext (reduced_keepsClass p) hL hf n (n.size - 1) f hstart
    exact reducerReduce_eq_or (hloop.of_eq_ok hres) h

end Class

/-! ### The operations of the class group -/

/-- `root(-D, 4)` -/
def rootFour (D : Int) : Int := Nat.sqrt (Nat.sqrt (-D).toNat)

/-- `PulmarkReducer::reduce`, which keeps the form where its 64-bit arithmetic gives out. -/
def pulmarkReduce (rounds : Nat) (f : Form) : Form := (Reducer.run rounds f).getD f

/-- What `aggvdf.h` is compiled with. -/
def chiavdfOps (gcdext : Gcdext) (rounds : Nat) : ClassGroupOps where
  fastPow f d n := (fastPowFormNucomp gcdext (some ∘ pulmarkReduce rounds) f d n
    (rootFour d)).toOption.getD f
  nudupl f d := (qfbNudupl gcdext f d (rootFour d)).getD f
  nucomp f g d := (qfbNucomp gcdext f g d (rootFour d)).getD f
  pulmarkReduce := pulmarkReduce rounds
  times f g := (times gcdext false f g).toOption.getD f

theorem pulmarkReduce_class {p : Nat} [PrimeDiscriminant p] (rounds : Nat) {f : Form}
    {x : ReducedForm p} (hf : HasClass f x) : HasClass (pulmarkReduce rounds f) x := by
  unfold pulmarkReduce
  cases h : Reducer.run rounds f with
  | none => exact hf
  | some g => exact (Reducer.run_class hf h).1

/-- Composition, powers, reduction and `operator*` compute in the class group. -/
theorem chiavdfOps_computesClass (gcdext : Gcdext) (rounds p : Nat) [PrimeDiscriminant p] :
    (chiavdfOps gcdext rounds).ComputesClass p := by
  have hL : 0 ≤ rootFour (-p) := Int.natCast_nonneg _
  constructor
  · intro f x n hf
    have hkeeps : KeepsClass p (some ∘ pulmarkReduce rounds) := by
      intro f g x hf hg
      cases hg
      exact pulmarkReduce_class rounds hf
    obtain ⟨r, hr, hclass⟩ | ⟨_, f', _, _, hnone⟩ :=
      fastPowFormNucomp_class gcdext hkeeps hL hf n
    · dsimp only [chiavdfOps]
      rw [hr]
      exact hclass
    · cases hnone
  · intro f x hf
    obtain ⟨h, hnudupl, hh⟩ := qfbNudupl_class gcdext hf hL
    dsimp only [chiavdfOps]
    rw [hnudupl]
    exact hh
  · intro f g x y hf hg
    obtain ⟨h, hnucomp, hh⟩ := qfbNucomp_class gcdext hf hg hL
    dsimp only [chiavdfOps]
    rw [hnucomp]
    exact hh
  · intro f x hf
    exact pulmarkReduce_class rounds hf
  · intro f g x y hf hg
    dsimp only [chiavdfOps]
    rw [times_class gcdext hf hg fun hsame : false = true => nomatch hsame]
    rfl

/-! ### Both languages multiply alike -/

/-- `operator*` returns, whatever the order of its operands, and computes the products of
`math/bqf.py`; one object is squared, which asks for coprime `a` and `b`. -/
theorem times_agrees_with_dot (gcdext gcdext' : Gcdext) {p : Nat} (hprime : p.Prime)
    (hmod : p % 4 = 3) {f g : Form} (hf : f.PosDef (-p)) (hg : g.PosDef (-p)) {same_object : Bool}
    (hsame : same_object = true → f = g ∧ IsCoprime f.a f.b) :
    ∃ r, times gcdext same_object f g = .ok r ∧ r.Reduced (-p) ∧
      times gcdext same_object g f = .ok r ∧
      ((f = g → IsCoprime f.a f.b) → f.dot gcdext' g = .ok r) := by
  have : PrimeDiscriminant p := ⟨hprime, hmod⟩
  obtain ⟨x, hx⟩ := exists_hasClass hf
  obtain ⟨y, hy⟩ := exists_hasClass hg
  refine ⟨(x * y).form, ?_, (x * y).reduced, ?_, mul_reducedForm gcdext' hx hy⟩
  · exact times_class gcdext hx hy hsame
  · rw [mul_comm x y]
    apply times_class gcdext hy hx
    intro htrue
    obtain ⟨rfl, hcop⟩ := hsame htrue
    exact ⟨rfl, hcop⟩

/-- Two forms of discriminant `-23`, and the square of one. -/
theorem times_agrees_with_dot_23 :
    (∃ r, times euclid false ⟨2, 1, 3⟩ ⟨4, -3, 2⟩ = .ok r ∧ dot euclid ⟨2, 1, 3⟩ ⟨4, -3, 2⟩ = .ok r) ∧
      ∃ r, times euclid true ⟨2, 1, 3⟩ ⟨2, 1, 3⟩ = .ok r ∧ dot euclid ⟨2, 1, 3⟩ ⟨2, 1, 3⟩ = .ok r := by
  have hf : PosDef (-(23 : Nat)) ⟨2, 1, 3⟩ := ⟨by decide, by decide⟩
  have hg : PosDef (-(23 : Nat)) ⟨4, -3, 2⟩ := ⟨by decide, by decide⟩
  constructor
  · obtain ⟨r, htimes, _, _, hdot⟩ :=
      times_agrees_with_dot euclid euclid (by norm_num) (by decide) hf hg
        fun hsame : false = true => nomatch hsame
    exact ⟨r, htimes, hdot fun heq => absurd heq (by decide)⟩
  · obtain ⟨r, htimes, _, _, hdot⟩ :=
      times_agrees_with_dot euclid euclid (by norm_num) (by decide) hf hf
        fun _ : true = true => ⟨rfl, isCoprime_one_right⟩
    exact ⟨r, htimes, hdot fun _ => isCoprime_one_right⟩

/-- For any bound `L`, `FastPowFormNucomp` computes the power of `qf_pow`, unless there is a form for
which the loop of its reducer has no end. -/
theorem fastPowFormNucomp_agrees_with_qfPow (gcdext gcdext' : Gcdext) {p : Nat} (hprime : p.Prime)
    (hmod : p % 4 = 3) {f : Form} (hf : f.PosDef (-p)) {L : Int} (hL : 0 ≤ L) (n : Nat) :
    ∃ r, r.Reduced (-p) ∧ (IsCoprime f.a f.b → qfPow gcdext' f n = .ok r) ∧
      ((∃ g, fastPowFormNucomp gcdext Reducer.reduced f (-p) n L = .ok g ∧ reduce g = .ok r ∧
          (g = r ∨ g = ⟨1, -1, r.c⟩)) ∨
        fastPowFormNucomp gcdext Reducer.reduced f (-p) n L = .error .diverges ∧
          ∃ h : Form, h.PosDef (-p) ∧ ∀ fuel, Reducer.run fuel h = none) := by
  have : PrimeDiscriminant p := ⟨hprime, hmod⟩
  obtain ⟨x, hx⟩ := exists_hasClass hf
  refine ⟨(x ^ n).form, (x ^ n).reduced, qfPow_eq gcdext' n hx, ?_⟩
  rcases fastPowFormNucomp_class gcdext (reduced_keepsClass p) hL hx n with
    ⟨g, hg, hclass⟩ | ⟨hdiverges, hfails⟩
  · left
    refine ⟨g, hg, reduce_class hclass, ?_⟩
    rcases fastPowFormNucomp_eq_or gcdext hL hx n hg with heq | ⟨_, heq⟩
    · exact Or.inl heq
    · exact Or.inr heq
  · exact Or.inr ⟨hdiverges, hfails.exists_form⟩

/-- The fifth power of a form of order three and discriminant `-23`. -/
theorem fastPowFormNucomp_agrees_with_qfPow_23 : qfPow euclid ⟨2, 1, 3⟩ 5 = .ok ⟨2, -1, 3⟩ ∧
    ((∃ g, fastPowFormNucomp euclid Reducer.reduced ⟨2, 1, 3⟩ (-23) 5 1 = .ok g ∧
        reduce g = .ok ⟨2, -1, 3⟩) ∨
      ∃ h : Form, h.PosDef (-23) ∧ ∀ fuel, Reducer.run fuel h = none) := by
  have hf : PosDef (-(23 : Nat)) ⟨2, 1, 3⟩ := ⟨by decide, by decide⟩
  have heval : qfPow euclid ⟨2, 1, 3⟩ 5 = .ok ⟨2, -1, 3⟩ := by decide +kernel
  obtain ⟨r, _, hpow, hfast⟩ := fastPowFormNucomp_agrees_with_qfPow euclid euclid (by norm_num)
    (by decide) hf zero_le_one 5
  obtain rfl : r = ⟨2, -1, 3⟩ := Except.ok.inj ((hpow isCoprime_one_right).symm.trans heval)
  refine ⟨heval, ?_⟩
  rcases hfast with ⟨g, hg, hreduce, _⟩ | ⟨_, hfails⟩
  · exact Or.inl ⟨g, hg, hreduce⟩
  · exact Or.inr hfails

end Lootbox.Chiavdf
