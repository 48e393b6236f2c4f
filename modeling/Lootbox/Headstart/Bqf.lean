import Lootbox.Headstart.Basic

/-!
# `math/bqf.py`: binary quadratic forms

`gmpy2.gcdext` is a parameter: any Bezout coefficients will do. Floor divisions raise
`ZeroDivisionError` as in Python.
-/

namespace Lootbox.Headstart

/-- `gmpy2.gcdext` -/
structure Gcdext where
  run : Int → Int → Int × Int × Int
  gcd_eq : ∀ a b, (run a b).1 = Int.gcd a b
  bezout : ∀ a b, a * (run a b).2.1 + b * (run a b).2.2 = (run a b).1

/-- `a // b` -/
def floorDiv (a b : Int) : Except PyError Int :=
  if b = 0 then .error .zeroDivisionError else .ok (a.fdiv b)

/-- `a % b` -/
def floorMod (a b : Int) : Except PyError Int :=
  if b = 0 then .error .zeroDivisionError else .ok (a.fmod b)

/-- `u` and `v` with `x = u + v * n` for the solutions of `a * x = b (mod m)`. -/
def solveLinmod (gcdext : Gcdext) (a b m : Int) : Except PyError (Int × Int) := do
  let (g, d, _) := gcdext.run a m
  let q ← floorDiv b g
  let r ← floorMod b g
  if r ≠ 0 then throw (.valueError "no solution")
  let u ← floorMod (q * d) m
  let v ← floorDiv m g
  return (u, v)

structure BinaryQF where
  a : Int
  b : Int
  c : Int
  deriving DecidableEq, Repr

namespace BinaryQF

def discriminant (self : BinaryQF) : Int := self.b ^ 2 - 4 * self.a * self.c

def square (gcdext : Gcdext) (self : BinaryQF) : Except PyError BinaryQF := do
  let (mu, _) ← solveLinmod gcdext self.b self.c self.a
  let A := self.a ^ 2
  let B := self.b - 2 * self.a * mu
  let m ← floorDiv (self.b * mu - self.c) self.a
  return ⟨A, B, mu ^ 2 - m⟩

/-- The variables of the Gaussian composition in `__mul__`. -/
structure Locals where
  g : Int
  h : Int
  w : Int
  s : Int
  t : Int
  u : Int
  k : Int
  l : Int
  m : Int
  deriving DecidableEq, Repr

def compose (gcdext : Gcdext) (self other : BinaryQF) : Except PyError Locals := do
  let g := (self.b + other.b).fdiv 2
  let h := (-(self.b - other.b)).fdiv 2
  let w : Int := Int.gcd (Int.gcd self.a other.a) g
  let s ← floorDiv self.a w
  let t ← floorDiv other.a w
  let u ← floorDiv g w
  let (mu, nu) ← solveLinmod gcdext (t * u) (h * u + s * self.c) (s * t)
  let (lam, _) ← solveLinmod gcdext (t * nu) (h - t * mu) s
  let k := mu + nu * lam
  let l ← floorDiv (k * t - h) s
  let m ← floorDiv (t * u * k - h * u - self.c * s) (s * t)
  return ⟨g, h, w, s, t, u, k, l, m⟩

/-- `A`, `B` and `C`, where `j` is `w`. -/
def Locals.form (v : Locals) : BinaryQF :=
  ⟨v.s * v.t, v.w * v.u - (v.k * v.t + v.l * v.s), v.k * v.l - v.w * v.m⟩

def mul (gcdext : Gcdext) (self other : BinaryQF) : Except PyError BinaryQF :=
  if self = other then self.square gcdext
  else do
    let v ← compose gcdext self other
    return v.form

def normalize (self : BinaryQF) : Except PyError BinaryQF := do
  let r ← floorDiv (self.a - self.b) (2 * self.a)
  return ⟨self.a, self.b + 2 * r * self.a, self.a * r * r + self.b * r + self.c⟩

/-- The loop of `reduced_form`; `fuel` bounds its rounds. -/
def reduceLoop : Nat → BinaryQF → Except PyError BinaryQF
  | 0, _ => .error .diverges
  | fuel + 1, f =>
    if f.a < f.c ∨ (f.a = f.c ∧ f.b ≥ 0) then .ok f
    else do
      let s ← floorDiv (f.c + f.b) (2 * f.c)
      reduceLoop fuel ⟨f.c, -f.b + 2 * s * f.c, f.c * s * s - f.b * s + f.a⟩

/-- A positive definite form is reduced within `2 * a + 2` rounds. -/
def reducedForm (self : BinaryQF) : Except PyError BinaryQF := do
  let nf ← self.normalize
  reduceLoop (2 * self.a.natAbs + 2) nf

end BinaryQF

def getQfPrincipalForm (d : Int) : BinaryQF :=
  let k := d.fmod 2
  ⟨1, k, (k ^ 2 - d).fdiv 4⟩

/-- The loop of `qf_pow`, which halves `n`. -/
def qfPowLoop (gcdext : Gcdext) (r x : BinaryQF) (n : Nat) : Except PyError BinaryQF :=
  if n = 0 then .ok r
  else do
    let r ← (if n % 2 = 1 then r.mul gcdext x >>= BinaryQF.reducedForm else .ok r :
      Except PyError BinaryQF)
    let xx ← x.mul gcdext x
    let x ← xx.reducedForm
    qfPowLoop gcdext r x (n / 2)

def qfPow (gcdext : Gcdext) (x : BinaryQF) (n : Nat) : Except PyError BinaryQF :=
  qfPowLoop gcdext (getQfPrincipalForm x.discriminant) x n

end Lootbox.Headstart
