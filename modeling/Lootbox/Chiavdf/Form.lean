import Lootbox.Headstart.BqfTermination
import Lootbox.Headstart.ClassGroup

/-!
# `vdf_new.h` and `proof_common.h`: forms

`mpz_fdiv_q` aborts on a division by zero, which is written as the exception here. What is
computed with `nucomp.h` and `Reducer.h` is a parameter.
-/

namespace Lootbox.Chiavdf

open Headstart BinaryQF ReducedForm

/-- `struct form` -/
abbrev Form := BinaryQF

def normalize (f : Form) : Except PyError Form := do
  let r ← floorDiv (f.a - f.b) (2 * f.a)
  return ⟨f.a, f.b + 2 * (r * f.a), f.a * r * r + f.b * r + f.c⟩

def reduceImpl (f : Form) : Except PyError Form := do
  let s ← floorDiv (f.c + f.b) (2 * f.c)
  return ⟨f.c, 2 * (s * f.c) - f.b, f.c * s * s - f.b * s + f.a⟩

/-- The loop of `reduce`; `fuel` bounds its rounds. -/
def reduceLoop : Nat → Form → Except PyError Form
  | 0, _ => .error .diverges
  | fuel + 1, f =>
    if f.a > f.c ∨ (f.a = f.c ∧ f.b < 0) then do
      let f ← reduceImpl f
      reduceLoop fuel f
    else .ok f

def reduce (f : Form) : Except PyError Form := do
  let nf ← normalize f
  let f ← reduceLoop (2 * f.a.natAbs + 2) nf
  normalize f

/-- `form::from_abd` -/
def fromAbd (a b d : Int) : Except PyError Form :=
  if a ≤ 0 then .error (.runtimeError "Invalid form. Positive a")
  else if (b * b - d) % (4 * a) ≠ 0 then .error (.runtimeError "Invalid form. Can't find c.")
  else do
    let c ← floorDiv (b * b - d) (4 * a)
    reduce ⟨a, b, c⟩

/-- `form::from_abc` -/
def fromAbc (a b c : Int) : Except PyError Form := reduce ⟨a, b, c⟩

/-- `form::identity` -/
def identity (d : Int) : Except PyError Form := fromAbd 1 1 d

/-- The arithmetic of the class group: `FastPowFormNucomp`, `nudupl_form`, `nucomp_form`,
`PulmarkReducer::reduce` and `operator*`. -/
structure ClassGroupOps where
  fastPow : Form → Int → Nat → Form
  nudupl : Form → Int → Form
  nucomp : Form → Form → Int → Form
  pulmarkReduce : Form → Form
  times : Form → Form → Form

/-- They compute in the class group of discriminant `-p`, on forms of which only those that
`operator*` returns have to be reduced. -/
structure ClassGroupOps.ComputesClass (ops : ClassGroupOps) (p : Nat) [PrimeDiscriminant p] :
    Prop where
  fastPow_class : ∀ (f : Form) (x : ReducedForm p) (n : Nat), HasClass f x →
    HasClass (ops.fastPow f (-p) n) (x ^ n)
  nudupl_class : ∀ (f : Form) (x : ReducedForm p), HasClass f x → HasClass (ops.nudupl f (-p)) (x * x)
  nucomp_class : ∀ (f g : Form) (x y : ReducedForm p), HasClass f x → HasClass g y →
    HasClass (ops.nucomp f g (-p)) (x * y)
  reduce_class : ∀ (f : Form) (x : ReducedForm p), HasClass f x → HasClass (ops.pulmarkReduce f) x
  times_class : ∀ (f g : Form) (x y : ReducedForm p), HasClass f x → HasClass g y →
    ops.times f g = (x * y).form

/-- They compute with the reduced forms of discriminant `-p` throughout. -/
structure ClassGroupOps.Computes (ops : ClassGroupOps) (p : Nat) [PrimeDiscriminant p] : Prop where
  fastPow_class : ∀ (f : Form) (x : ReducedForm p) (n : Nat), HasClass f x →
    ops.fastPow f (-p) n = (x ^ n).form
  nudupl_class : ∀ (f : Form) (x : ReducedForm p), HasClass f x → HasClass (ops.nudupl f (-p)) (x * x)
  nucomp_class : ∀ (f g : Form) (x y : ReducedForm p), HasClass f x → HasClass g y →
    HasClass (ops.nucomp f g (-p)) (x * y)
  reduce_class : ∀ (f : Form) (x : ReducedForm p), HasClass f x → ops.pulmarkReduce f = x.form
  times_form : ∀ x y : ReducedForm p, ops.times x.form y.form = (x * y).form

/-! ### Both languages reduce alike -/

theorem normalize_eq (f : Form) : normalize f = f.normalize := by
  rw [normalize, BinaryQF.normalize]
  refine congrArg _ (funext fun r => ?_)
  rw [← mul_assoc]

theorem reduceLoop_eq (fuel : Nat) (f : Form) : reduceLoop fuel f = BinaryQF.reduceLoop fuel f := by
  induction fuel generalizing f with
  | zero => rfl
  | succ fuel ih =>
    rw [reduceLoop, BinaryQF.reduceLoop]
    by_cases hguard : f.a < f.c ∨ (f.a = f.c ∧ f.b ≥ 0)
    · rw [if_pos hguard, if_neg (by omega)]
    · rw [if_neg hguard, if_pos (by omega), reduceImpl]
      cases floorDiv (f.c + f.b) (2 * f.c) with
      | error e => rfl
      | ok s =>
        simp only [ok_bind]
        refine (ih _).trans (congrArg _ (ext_coefficients rfl ?_ rfl))
        ring

theorem normalize_reduced {d : Int} {f : Form} (hf : f.Reduced d) : normalize f = .ok f := by
  have ha := hf.a_pos
  have hlower := hf.lower
  have hupper := hf.upper
  have hr : (f.a - f.b) / (2 * f.a) = 0 := Int.ediv_eq_zero_of_lt (by omega) (by omega)
  rw [normalize, floorDiv_of_pos _ (by omega), hr, ok_bind]
  refine congrArg Except.ok (ext_coefficients rfl ?_ ?_)
  · show f.b + 2 * (0 * f.a) = f.b
    ring
  · show f.a * 0 * 0 + f.b * 0 + f.c = f.c
    ring

theorem reduce_eq {f g : Form} {d : Int} (hreduce : f.reducedForm = .ok g) (hg : g.Reduced d) :
    reduce f = .ok g := by
  obtain ⟨nf, hnormalize, hloop⟩ := bind_eq_ok_iff.mp hreduce
  rw [← normalize_eq] at hnormalize
  rw [← reduceLoop_eq] at hloop
  exact bind_eq_of_ok hnormalize (bind_eq_of_ok hloop (normalize_reduced hg))

theorem normalize_halts (f : Form) : Halts (normalize f) :=
  halts_bind_iff.mpr ⟨floorDiv_halts _ _, fun _ _ => halts_ok _⟩

/-- A form that passes the check of `from_abd` is reduced in a bounded number of rounds, whatever
its discriminant. -/
theorem reduce_halts {f : Form} (ha : 0 < f.a) : Halts (reduce f) := by
  have hhalts := reducedForm_halts_iff.mpr fun hstuck : Stuck f => absurd hstuck.1 (by omega)
  obtain ⟨_, hloop⟩ := halts_bind_iff.mp hhalts
  refine halts_bind_iff.mpr ⟨normalize_halts f, ?_⟩
  intro nf hnf
  rw [normalize_eq] at hnf
  refine halts_bind_iff.mpr ⟨?_, fun g _ => normalize_halts g⟩
  rw [reduceLoop_eq]
  exact hloop nf hnf

theorem fromAbd_halts (a b d : Int) : Halts (fromAbd a b d) := by
  rw [fromAbd]
  by_cases ha : a ≤ 0
  · rw [if_pos ha]
    intro h
    cases h
  · rw [if_neg ha]
    split
    · intro h
      cases h
    · exact halts_bind_iff.mpr ⟨floorDiv_halts _ _, fun c _ => reduce_halts (not_le.mp ha)⟩

theorem ClassGroupOps.Computes.fastPow_form {ops : ClassGroupOps} {p : Nat} [PrimeDiscriminant p]
    (hops : ops.Computes p) (x : ReducedForm p) (n : Nat) :
    ops.fastPow x.form (-p) n = (x ^ n).form :=
  hops.fastPow_class x.form x n (hasClass_form x)

section Class

variable {p : Nat} [hp : PrimeDiscriminant p]

theorem reduce_class {f : Form} {x : ReducedForm p} (h : HasClass f x) : reduce f = .ok x.form :=
  reduce_eq h.reducedForm_eq x.reduced

theorem fromAbd_eq {a b c : Int} {x : ReducedForm p} (h : HasClass ⟨a, b, c⟩ x) :
    fromAbd a b (-p) = .ok x.form := by
  have ha := h.posDef.a_pos
  have hdisc := h.posDef.eq
  dsimp only at ha hdisc
  have hsub : b * b - -(p : Int) = 4 * a * c := by linarith
  rw [fromAbd, if_neg (by omega), hsub, if_neg (by rw [not_not]; exact Int.mul_emod_right _ _),
    floorDiv_mul (by omega), ok_bind, reduce_class h]

theorem exists_fromAbd {a b : Int} (ha : 0 < a) (hdvd : 4 * a ∣ b * b + p) :
    ∃ x : ReducedForm p, fromAbd a b (-p) = .ok x.form := by
  obtain ⟨c, hc⟩ := hdvd
  have hposDef : PosDef (-p) ⟨a, b, c⟩ := by
    refine ⟨ha, ?_⟩
    simp only [discriminant]
    linear_combination hc
  obtain ⟨x, hx⟩ := exists_hasClass hposDef
  exact ⟨x, fromAbd_eq hx⟩

theorem identity_eq : identity (-p) = .ok (1 : ReducedForm p).form := by
  obtain ⟨c, hprincipal, _⟩ := principal_eq p
  have hone := hasClass_form (1 : ReducedForm p)
  rw [one_form, hprincipal] at hone
  rw [identity, fromAbd_eq hone]

end Class

end Lootbox.Chiavdf
