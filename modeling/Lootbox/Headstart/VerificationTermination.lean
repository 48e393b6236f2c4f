import Lootbox.Headstart.BqfTermination
import Lootbox.Headstart.ToyVDF

/-!
# `vdf/toy_vdf.py`: when verification ends

The forms of a proof come from whoever submits it. Verification ends exactly when no form that it
hands to `reduced_form` is of the one family on which that loops.
-/

namespace Lootbox.Headstart

open BinaryQF
open ReducedForm (euclid)

/-! ### Calls that always halt -/

theorem solveLinmod_halts (gcdext : Gcdext) (a b m : Int) : Halts (solveLinmod gcdext a b m) := by
  refine halts_bind_iff.mpr ⟨floorDiv_halts _ _, fun q _ => ?_⟩
  refine halts_bind_iff.mpr ⟨floorMod_halts _ _, fun r _ => ?_⟩
  split
  · intro h
    cases h
  · refine halts_bind_iff.mpr ⟨floorMod_halts _ _, fun u _ => ?_⟩
    exact halts_bind_iff.mpr ⟨floorDiv_halts _ _, fun v _ => halts_ok _⟩

theorem mul_halts (gcdext : Gcdext) (f g : BinaryQF) : Halts (f.mul gcdext g) := by
  rw [mul]
  split
  · refine halts_bind_iff.mpr ⟨solveLinmod_halts gcdext _ _ _, fun mu _ => ?_⟩
    exact halts_bind_iff.mpr ⟨floorDiv_halts _ _, fun m _ => halts_ok _⟩
  · refine halts_bind_iff.mpr ⟨?_, fun v _ => halts_ok _⟩
    refine halts_bind_iff.mpr ⟨floorDiv_halts _ _, fun s _ => ?_⟩
    refine halts_bind_iff.mpr ⟨floorDiv_halts _ _, fun t _ => ?_⟩
    refine halts_bind_iff.mpr ⟨floorDiv_halts _ _, fun u _ => ?_⟩
    refine halts_bind_iff.mpr ⟨solveLinmod_halts gcdext _ _ _, fun mu _ => ?_⟩
    refine halts_bind_iff.mpr ⟨solveLinmod_halts gcdext _ _ _, fun lam _ => ?_⟩
    refine halts_bind_iff.mpr ⟨floorDiv_halts _ _, fun l _ => ?_⟩
    exact halts_bind_iff.mpr ⟨floorDiv_halts _ _, fun m _ => halts_ok _⟩

theorem mapM_halts {α β : Type} {k : α → Except PyError β} (h : ∀ a, Halts (k a)) (xs : List α) :
    Halts (xs.mapM k) := by
  induction xs with
  | nil => exact halts_ok _
  | cons x xs ih =>
    rw [List.mapM_cons]
    refine halts_bind_iff.mpr ⟨h x, fun y _ => ?_⟩
    exact halts_bind_iff.mpr ⟨ih, fun ys _ => halts_ok _⟩

theorem qfToBytes_halts (f : BinaryQF) (bits : Nat) : Halts (qfToBytes f bits) := by
  refine halts_bind_iff.mpr ⟨?_, fun r _ => halts_ok _⟩
  apply mapM_halts
  intro v
  rw [intToBytes]
  split
  · exact halts_ok _
  · intro h
    cases h

/-! ### The forms that are reduced -/

section Calls

variable (gcdext : Gcdext)

/-- `qf_pow`, in its loop at `r`, `x` and `n`, hands `f` to `reduced_form`. -/
inductive PowReduces : BinaryQF → BinaryQF → Nat → BinaryQF → Prop
  | product {r x f : BinaryQF} {n : Nat} : n % 2 = 1 → r.mul gcdext x = .ok f → PowReduces r x n f
  | square {r x r' f : BinaryQF} {n : Nat} : n ≠ 0 →
      (if n % 2 = 1 then r.mul gcdext x >>= reducedForm else .ok r) = .ok r' →
      x.mul gcdext x = .ok f → PowReduces r x n f
  | next {r x r' xx x' f : BinaryQF} {n : Nat} : n ≠ 0 →
      (if n % 2 = 1 then r.mul gcdext x >>= reducedForm else .ok r) = .ok r' →
      x.mul gcdext x = .ok xx → xx.reducedForm = .ok x' → PowReduces r' x' (n / 2) f →
      PowReduces r x n f

/-- The check of a proof `pi` against `g` hands `f` to `reduced_form`. -/
inductive ProofReduces (pi g : BinaryQF) (l T : Nat) : BinaryQF → Prop
  | power {f : BinaryQF} : PowReduces gcdext (getQfPrincipalForm pi.discriminant) pi l f →
      ProofReduces pi g l T f
  | generator {pil f : BinaryQF} : qfPow gcdext pi l = .ok pil →
      PowReduces gcdext (getQfPrincipalForm g.discriminant) g (powMod 2 T l).toNat f →
      ProofReduces pi g l T f
  | product {pil gr f : BinaryQF} : qfPow gcdext pi l = .ok pil →
      qfPow gcdext g (powMod 2 T l).toNat = .ok gr → pil.mul gcdext gr = .ok f →
      ProofReduces pi g l T f

/-- `vdf_verify` hands `f` to `reduced_form`. -/
inductive VerifyReduces (H : Hashes) (bits : Nat) (g y pi : BinaryQF) (T : Nat) : BinaryQF → Prop
  | generator : VerifyReduces H bits g y pi T g
  | output {g' : BinaryQF} : g.reducedForm = .ok g' → VerifyReduces H bits g y pi T y
  | proof {g' y' f : BinaryQF} {l : Nat} : g.reducedForm = .ok g' → y.reducedForm = .ok y' →
      vdfChallenge H bits g' y' = .ok l → ProofReduces gcdext pi g' l T f →
      VerifyReduces H bits g y pi T f

/-- The product over `zip(a, ys)`, from `G` on, hands `f` to `reduced_form`. -/
inductive ProductReduces : BinaryQF → List (Nat × BinaryQF) → BinaryQF → Prop
  | power {G y f : BinaryQF} {a : Nat} {rest : List (Nat × BinaryQF)} :
      PowReduces gcdext (getQfPrincipalForm y.discriminant) y a f → ProductReduces G ((a, y) :: rest) f
  | product {G y h f : BinaryQF} {a : Nat} {rest : List (Nat × BinaryQF)} :
      qfPow gcdext y a = .ok h → G.mul gcdext h = .ok f → ProductReduces G ((a, y) :: rest) f
  | next {G y h Gh G' f : BinaryQF} {a : Nat} {rest : List (Nat × BinaryQF)} :
      qfPow gcdext y a = .ok h → G.mul gcdext h = .ok Gh → Gh.reducedForm = .ok G' →
      ProductReduces G' rest f → ProductReduces G ((a, y) :: rest) f

/-- `AggregateToyVDF.verify` hands a form that depends on `ys` or `pi` to `reduced_form`. -/
inductive AggregateReduces (H : Hashes) (self : AggregateToyVDF) (challenges : List Bytes)
    (ys : List BinaryQF) (pi : BinaryQF) : BinaryQF → Prop
  | output {parameters : AggregateToyVDF.Parameters} {f : BinaryQF} :
      self.computeParameters H gcdext challenges ys = .ok parameters →
      ProductReduces gcdext (getQfPrincipalForm self.d) (parameters.a.zip ys) f →
      AggregateReduces H self challenges ys pi f
  | proof {parameters : AggregateToyVDF.Parameters} {Y f : BinaryQF} :
      self.computeParameters H gcdext challenges ys = .ok parameters →
      self.product gcdext parameters.a ys = .ok Y →
      ProofReduces gcdext pi parameters.G parameters.l self.T f →
      AggregateReduces H self challenges ys pi f

end Calls

section Halting

variable (gcdext : Gcdext)

theorem qfPowLoop_halts_iff {r x : BinaryQF} (n : Nat) :
    Halts (qfPowLoop gcdext r x n) ↔ ∀ f, PowReduces gcdext r x n f → ¬ Stuck f := by
  induction n using Nat.strong_induction_on generalizing r x with
  | _ n ih =>
    rw [qfPowLoop]
    by_cases hn : n = 0
    · rw [if_pos hn]
      subst hn
      refine iff_of_true (halts_ok r) ?_
      intro f hf
      cases hf with
      | product hodd _ => exact absurd hodd (by decide)
      | square hne _ _ => exact absurd rfl hne
      | next hne _ _ _ _ => exact absurd rfl hne
    · rw [if_neg hn]
      constructor
      · intro h f hf
        obtain ⟨hstep, h⟩ := halts_bind_iff.mp h
        cases hf with
        | product hodd hmul =>
          rw [if_pos hodd] at hstep
          exact reducedForm_halts_iff.mp ((halts_bind_iff.mp hstep).2 f hmul)
        | square _ hr hmul =>
          have h := (halts_bind_iff.mp (h _ hr)).2 f hmul
          exact reducedForm_halts_iff.mp (halts_bind_iff.mp h).1
        | next _ hr hmul hreduce hrest =>
          have h := (halts_bind_iff.mp (h _ hr)).2 _ hmul
          have h := (halts_bind_iff.mp h).2 _ hreduce
          exact (ih (n / 2) (by omega)).mp h f hrest
      · intro h
        refine halts_bind_iff.mpr ⟨?_, ?_⟩
        · split
          · rename_i hodd
            refine halts_bind_iff.mpr ⟨mul_halts gcdext r x, ?_⟩
            intro f hmul
            exact reducedForm_halts_iff.mpr (h f (.product hodd hmul))
          · exact halts_ok r
        · intro r' hr
          refine halts_bind_iff.mpr ⟨mul_halts gcdext x x, ?_⟩
          intro xx hmul
          refine halts_bind_iff.mpr ⟨reducedForm_halts_iff.mpr (h xx (.square hn hr hmul)), ?_⟩
          intro x' hreduce
          refine (ih (n / 2) (by omega)).mpr ?_
          intro f hf
          exact h f (.next hn hr hmul hreduce hf)

theorem qfPow_halts_iff {x : BinaryQF} {n : Nat} : Halts (qfPow gcdext x n) ↔
    ∀ f, PowReduces gcdext (getQfPrincipalForm x.discriminant) x n f → ¬ Stuck f :=
  qfPowLoop_halts_iff gcdext n

theorem proofPower_halts_iff {pi g : BinaryQF} {l T : Nat} : Halts (proofPower gcdext pi g l T) ↔
    ∀ f, ProofReduces gcdext pi g l T f → ¬ Stuck f := by
  constructor
  · intro h f hf
    obtain ⟨hpower, h⟩ := halts_bind_iff.mp h
    cases hf with
    | power hf => exact (qfPow_halts_iff gcdext).mp hpower f hf
    | generator hpil hf =>
      exact (qfPow_halts_iff gcdext).mp (halts_bind_iff.mp (h _ hpil)).1 f hf
    | product hpil hgr hmul =>
      have h := (halts_bind_iff.mp (h _ hpil)).2 _ hgr
      exact reducedForm_halts_iff.mp ((halts_bind_iff.mp h).2 f hmul)
  · intro h
    refine halts_bind_iff.mpr ⟨(qfPow_halts_iff gcdext).mpr fun f hf => h f (.power hf), ?_⟩
    intro pil hpil
    refine halts_bind_iff.mpr
      ⟨(qfPow_halts_iff gcdext).mpr fun f hf => h f (.generator hpil hf), ?_⟩
    intro gr hgr
    refine halts_bind_iff.mpr ⟨mul_halts gcdext pil gr, ?_⟩
    intro f hmul
    exact reducedForm_halts_iff.mpr (h f (.product hpil hgr hmul))

variable {H : Hashes}

theorem vdfVerify_halts_iff {bits T : Nat} {g y pi : BinaryQF} (hP : ∀ x, Halts (H.hP x bits)) :
    Halts (vdfVerify H gcdext bits g y pi T) ↔
      ∀ f, VerifyReduces gcdext H bits g y pi T f → ¬ Stuck f := by
  constructor
  · intro h f hf
    obtain ⟨hgen, h⟩ := halts_bind_iff.mp h
    cases hf with
    | generator => exact reducedForm_halts_iff.mp hgen
    | output hg => exact reducedForm_halts_iff.mp (halts_bind_iff.mp (h _ hg)).1
    | proof hg hy hl hf =>
      have h := (halts_bind_iff.mp (h _ hg)).2 _ hy
      have h := (halts_bind_iff.mp h).2 _ hl
      exact (proofPower_halts_iff gcdext).mp (halts_bind_iff.mp h).1 f hf
  · intro h
    refine halts_bind_iff.mpr ⟨reducedForm_halts_iff.mpr (h g .generator), ?_⟩
    intro g' hg
    refine halts_bind_iff.mpr ⟨reducedForm_halts_iff.mpr (h y (.output hg)), ?_⟩
    intro y' hy
    refine halts_bind_iff.mpr ⟨?_, ?_⟩
    · refine halts_bind_iff.mpr ⟨qfToBytes_halts g' bits, fun gBytes _ => ?_⟩
      exact halts_bind_iff.mpr ⟨qfToBytes_halts y' bits, fun yBytes _ => hP _⟩
    · intro l hl
      refine halts_bind_iff.mpr ⟨?_, fun lhs _ => halts_ok _⟩
      exact (proofPower_halts_iff gcdext).mpr fun f hf => h f (.proof hg hy hl hf)

theorem product_halts_iff {d : Int} {bits T : Nat} {a : List Nat} {ys : List BinaryQF} :
    Halts (AggregateToyVDF.product gcdext ⟨bits, T, d⟩ a ys) ↔
      ∀ f, ProductReduces gcdext (getQfPrincipalForm d) (a.zip ys) f → ¬ Stuck f := by
  rw [AggregateToyVDF.product]
  generalize getQfPrincipalForm d = G
  induction a.zip ys generalizing G with
  | nil =>
    refine iff_of_true (halts_ok G) ?_
    intro f hf
    cases hf
  | cons head rest ih =>
    obtain ⟨a_j, y_j⟩ := head
    rw [List.foldlM_cons]
    constructor
    · intro h f hf
      obtain ⟨hstep, h⟩ := halts_bind_iff.mp h
      obtain ⟨hpower, hstep⟩ := halts_bind_iff.mp hstep
      cases hf with
      | power hf => exact (qfPow_halts_iff gcdext).mp hpower f hf
      | product hpow hmul =>
        exact reducedForm_halts_iff.mp ((halts_bind_iff.mp (hstep _ hpow)).2 f hmul)
      | next hpow hmul hreduce hf =>
        refine (ih _).mp (h _ ?_) f hf
        exact bind_eq_of_ok hpow (bind_eq_of_ok hmul hreduce)
    · intro h
      refine halts_bind_iff.mpr ⟨?_, ?_⟩
      · refine halts_bind_iff.mpr ⟨(qfPow_halts_iff gcdext).mpr fun f hf => h f (.power hf), ?_⟩
        intro power hpow
        refine halts_bind_iff.mpr ⟨mul_halts gcdext G power, ?_⟩
        intro f hmul
        exact reducedForm_halts_iff.mpr (h f (.product hpow hmul))
      · intro G' hG'
        obtain ⟨power, hpow, hG'⟩ := bind_eq_ok_iff.mp hG'
        obtain ⟨Gh, hmul, hreduce⟩ := bind_eq_ok_iff.mp hG'
        exact (ih G').mpr fun f hf => h f (.next hpow hmul hreduce hf)

theorem computeParameters_halts {bits T : Nat} {d : Int} (hd : ∃ x k, H.hD x k = .ok d)
    {challenges : List Bytes} (hgs : ∀ challenge ∈ challenges, ∃ g, H.hQF challenge d bits = .ok g)
    (hP : ∀ x, Halts (H.hP x bits)) (ys : List BinaryQF) :
    Halts (AggregateToyVDF.computeParameters H gcdext ⟨bits, T, d⟩ challenges ys) := by
  obtain ⟨x, k, hd⟩ := hd
  obtain ⟨p, rfl, hp⟩ := hD_discriminant hd
  obtain ⟨xs, _, hgs_eq⟩ := exists_generatorForms hgs
  refine halts_bind_iff.mpr ⟨Halts.of_eq_ok hgs_eq, ?_⟩
  intro gs hgs
  obtain rfl : xs.map ReducedForm.form = gs := Except.ok.inj (hgs_eq.symm.trans hgs)
  refine halts_bind_iff.mpr ⟨mapM_halts (qfToBytes_halts · bits) _, fun gBytes _ => ?_⟩
  refine halts_bind_iff.mpr ⟨mapM_halts (qfToBytes_halts · bits) _, fun yBytes _ => ?_⟩
  refine halts_bind_iff.mpr ⟨hP _, fun l _ => ?_⟩
  refine halts_bind_iff.mpr ⟨?_, fun G _ => halts_ok _⟩
  exact Halts.of_eq_ok (product_eq gcdext ⟨bits, T, -p⟩ rfl _ xs)

theorem aggregateVerify_halts_iff {bits T : Nat} {d : Int} (hd : ∃ x k, H.hD x k = .ok d)
    {challenges : List Bytes} (hgs : ∀ challenge ∈ challenges, ∃ g, H.hQF challenge d bits = .ok g)
    (hP : ∀ x, Halts (H.hP x bits)) (ys : List BinaryQF) (pi : BinaryQF) :
    Halts (AggregateToyVDF.verify H gcdext ⟨bits, T, d⟩ challenges ys pi) ↔
      ∀ f, AggregateReduces gcdext H ⟨bits, T, d⟩ challenges ys pi f → ¬ Stuck f := by
  constructor
  · intro h f hf
    cases hf with
    | output hparameters hf =>
      have h := (halts_bind_iff.mp h).2 _ hparameters
      exact (product_halts_iff gcdext).mp (halts_bind_iff.mp h).1 f hf
    | proof hparameters hY hf =>
      have h := (halts_bind_iff.mp h).2 _ hparameters
      have h := (halts_bind_iff.mp h).2 _ hY
      exact (proofPower_halts_iff gcdext).mp (halts_bind_iff.mp h).1 f hf
  · intro h
    refine halts_bind_iff.mpr ⟨computeParameters_halts gcdext hd hgs hP ys, ?_⟩
    intro parameters hparameters
    refine halts_bind_iff.mpr ⟨?_, ?_⟩
    · exact (product_halts_iff gcdext).mpr fun f hf => h f (.output hparameters hf)
    · intro Y hY
      refine halts_bind_iff.mpr ⟨?_, fun lhs _ => halts_ok _⟩
      exact (proofPower_halts_iff gcdext).mpr fun f hf => h f (.proof hparameters hY hf)

/-! ### Positive definite input -/

/-- A form of discriminant `d` that `qf_pow` can square. -/
def Composable (d : Int) (f : BinaryQF) : Prop := f.PosDef d ∧ IsCoprime f.a f.b

section Composable

variable {p : Nat} [PrimeDiscriminant p] {pi y : BinaryQF}

theorem proofPower_halts (hpi : Composable (-p) pi) (g : ReducedForm p) (l T : Nat) :
    Halts (proofPower gcdext pi g.form l T) := by
  obtain ⟨hposDef, hcop⟩ := hpi
  obtain ⟨x, hx⟩ := ReducedForm.exists_hasClass hposDef
  have hleft := ReducedForm.qfPow_eq gcdext l hx hcop
  have hright := ReducedForm.qfPow_eq gcdext (powMod 2 T l).toNat (ReducedForm.hasClass_form g)
    g.reduced.isCoprime
  exact Halts.of_eq_ok (bind_eq_of_ok hleft (bind_eq_of_ok hright (dot_form gcdext _ _)))

theorem vdfVerify_halts {bits : Nat} (hP : ∀ x, Halts (H.hP x bits)) (hy : y.PosDef (-p))
    (hpi : Composable (-p) pi) (g : ReducedForm p) (T : Nat) :
    Halts (vdfVerify H gcdext bits g.form y pi T) := by
  obtain ⟨z, hz⟩ := ReducedForm.exists_hasClass hy
  have hg := (ReducedForm.hasClass_form g).reducedForm_eq
  rw [vdfVerify, hg, ok_bind, hz.reducedForm_eq, ok_bind]
  refine halts_bind_iff.mpr ⟨?_, fun l _ => ?_⟩
  · refine halts_bind_iff.mpr ⟨qfToBytes_halts _ bits, fun gBytes _ => ?_⟩
    exact halts_bind_iff.mpr ⟨qfToBytes_halts _ bits, fun yBytes _ => hP _⟩
  · exact halts_bind_iff.mpr ⟨proofPower_halts gcdext hpi g l T, fun lhs _ => halts_ok _⟩

theorem exists_product (self : AggregateToyVDF) (hd : self.d = -p) (a : List Nat)
    {ys : List BinaryQF} (hys : ∀ y ∈ ys, Composable (-p) y) :
    ∃ Y : ReducedForm p, self.product gcdext a ys = .ok Y.form := by
  have hfactors : ∀ e ∈ a.zip ys, Composable (-p) e.2 := fun e he => hys e.2 (List.of_mem_zip he).2
  rw [AggregateToyVDF.product, hd, ← ReducedForm.one_form]
  generalize (1 : ReducedForm p) = G
  generalize a.zip ys = factors at hfactors
  induction factors generalizing G with
  | nil => exact ⟨G, rfl⟩
  | cons head rest ih =>
    obtain ⟨a_j, y_j⟩ := head
    obtain ⟨hposDef, hcop⟩ := hfactors (a_j, y_j) List.mem_cons_self
    obtain ⟨x, hx⟩ := ReducedForm.exists_hasClass hposDef
    obtain ⟨Y, hY⟩ := ih (G * x ^ a_j) fun e he => hfactors e (List.mem_cons_of_mem _ he)
    refine ⟨Y, ?_⟩
    rw [List.foldlM_cons]
    refine bind_eq_of_ok ?_ hY
    exact bind_eq_of_ok (ReducedForm.qfPow_eq gcdext a_j hx hcop) (dot_form gcdext G (x ^ a_j))

theorem exists_parameters_form {bits T : Nat} {challenges : List Bytes} {ys : List BinaryQF}
    (hgs : ∀ challenge ∈ challenges, ∃ g, H.hQF challenge (-p) bits = .ok g)
    {parameters : AggregateToyVDF.Parameters} (h : AggregateToyVDF.computeParameters H gcdext
      ⟨bits, T, -p⟩ challenges ys = .ok parameters) :
    ∃ G : ReducedForm p, parameters.G = G.form := by
  obtain ⟨xs, _, hgs_eq⟩ := exists_generatorForms hgs
  obtain ⟨gs, hgs, h⟩ := bind_eq_ok_iff.mp h
  obtain rfl : xs.map ReducedForm.form = gs := Except.ok.inj (hgs_eq.symm.trans hgs)
  obtain ⟨gBytes, _, h⟩ := bind_eq_ok_iff.mp h
  obtain ⟨yBytes, _, h⟩ := bind_eq_ok_iff.mp h
  obtain ⟨l, _, h⟩ := bind_eq_ok_iff.mp h
  obtain ⟨G, hG, h⟩ := bind_eq_ok_iff.mp h
  cases h
  exact ⟨_, Except.ok.inj (hG.symm.trans (product_eq gcdext ⟨bits, T, -p⟩ rfl _ xs))⟩

theorem aggregateVerify_halts {bits T : Nat} {d : Int} (hd : ∃ x k, H.hD x k = .ok d)
    {challenges : List Bytes} (hgs : ∀ challenge ∈ challenges, ∃ g, H.hQF challenge d bits = .ok g)
    (hP : ∀ x, Halts (H.hP x bits)) {ys : List BinaryQF} (hys : ∀ y ∈ ys, Composable d y)
    (hpi : Composable d pi) :
    Halts (AggregateToyVDF.verify H gcdext ⟨bits, T, d⟩ challenges ys pi) := by
  refine halts_bind_iff.mpr ⟨computeParameters_halts gcdext hd hgs hP ys, ?_⟩
  intro parameters hparameters
  obtain ⟨x, k, hd⟩ := hd
  obtain ⟨p, rfl, hp⟩ := hD_discriminant hd
  obtain ⟨Y, hY⟩ := exists_product gcdext ⟨bits, T, -p⟩ rfl parameters.a hys
  obtain ⟨G, hG⟩ := exists_parameters_form gcdext hgs hparameters
  rw [hY, ok_bind, hG]
  exact halts_bind_iff.mpr ⟨proofPower_halts gcdext hpi G parameters.l T, fun lhs _ => halts_ok _⟩

end Composable

/-- `reduced_form` ends on exactly the triples outside the family, and verification exactly when it
meets none of them; positive definite forms of the discriminant never lead there. -/
theorem verification_halts_iff (H : Hashes) (gcdext : Gcdext) {bits : Nat}
    (hP : ∀ x, Halts (H.hP x bits)) :
    (∀ f : BinaryQF, (∃ fuel, Halts (f.normalize >>= reduceLoop fuel)) ↔ ¬ Stuck f) ∧
    (∀ (T : Nat) (challenge : Bytes) (d : Int) (g : BinaryQF) (proof : ToyProof),
      H.hD challenge bits = .ok d → H.hQF challenge d bits = .ok g →
      (Halts (ToyVDF.verify H gcdext ⟨bits, T⟩ challenge proof) ↔
        ∀ f, VerifyReduces gcdext H bits g proof.y proof.pi T f → ¬ Stuck f) ∧
      (proof.y.PosDef d → Composable d proof.pi →
        Halts (ToyVDF.verify H gcdext ⟨bits, T⟩ challenge proof))) ∧
    ∀ (T : Nat) (self : AggregateToyVDF) (challenges : List Bytes) (ys : List BinaryQF)
      (pi : BinaryQF), AggregateToyVDF.new H bits T = .ok self →
      (∀ challenge ∈ challenges, ∃ g, H.hQF challenge self.d bits = .ok g) →
      (Halts (self.verify H gcdext challenges ys pi) ↔
        ∀ f, AggregateReduces gcdext H self challenges ys pi f → ¬ Stuck f) ∧
      ((∀ y ∈ ys, Composable self.d y) → Composable self.d pi →
        Halts (self.verify H gcdext challenges ys pi)) := by
  refine ⟨?_, ?_, ?_⟩
  · intro f
    constructor
    · rintro ⟨fuel, h⟩ hstuck
      exact h (hstuck.diverges fuel)
    · intro hstuck
      have h := reducedForm_halts_iff.mpr hstuck
      rw [reducedForm] at h
      obtain ⟨hnormalize, hloop⟩ := halts_bind_iff.mp h
      exact ⟨2 * f.a.natAbs + 2, halts_bind_iff.mpr ⟨hnormalize, hloop⟩⟩
  · intro T challenge d g proof hd hg
    have hverify : ToyVDF.verify H gcdext ⟨bits, T⟩ challenge proof =
        vdfVerify H gcdext bits g proof.y proof.pi T := by
      rw [ToyVDF.verify, hd, ok_bind, hg, ok_bind]
    rw [hverify]
    refine ⟨vdfVerify_halts_iff gcdext hP, ?_⟩
    intro hy hpi
    obtain ⟨p, rfl, hp⟩ := hD_discriminant hd
    obtain ⟨x, rfl⟩ := hQF_form hg
    exact vdfVerify_halts gcdext hP hy hpi x T
  · intro T self challenges ys pi hnew hgs
    obtain ⟨d, hd, hself⟩ := bind_eq_ok_iff.mp hnew
    cases hself
    refine ⟨aggregateVerify_halts_iff gcdext ⟨_, _, hd⟩ hgs hP ys pi, ?_⟩
    intro hys hpi
    exact aggregateVerify_halts gcdext ⟨_, _, hd⟩ hgs hP hys hpi

end Halting

/-- A proof object that is positive definite, one that repeats the generator, and two challenges. -/
theorem verification_halts_two_digests :
    (∃ g, twoDigests.hQF [1] (-discriminantPrime) 256 = .ok g ∧
      (Halts (ToyVDF.verify twoDigests euclid ⟨256, 5⟩ [1] ⟨-23, ⟨3, 1, 2⟩, ⟨2, 1, 3⟩, ⟨2, 1, 3⟩⟩) ↔
        ∀ f, VerifyReduces euclid twoDigests 256 g ⟨2, 1, 3⟩ ⟨2, 1, 3⟩ 5 f → ¬ Stuck f) ∧
      Halts (ToyVDF.verify twoDigests euclid ⟨256, 5⟩ [1] ⟨-discriminantPrime, g, g, g⟩)) ∧
    (Halts (AggregateToyVDF.verify twoDigests euclid ⟨256, 5, -discriminantPrime⟩ [[1], [2]]
        [⟨2, 1, 3⟩, ⟨2, 1, 3⟩] ⟨2, 1, 3⟩) ↔
      ∀ f, AggregateReduces euclid twoDigests ⟨256, 5, -discriminantPrime⟩ [[1], [2]]
        [⟨2, 1, 3⟩, ⟨2, 1, 3⟩] ⟨2, 1, 3⟩ f → ¬ Stuck f) := by
  have hhalts : ∀ x, Halts (twoDigests.hP x 256) :=
    fun x => Halts.of_eq_ok (twoDigests_hP x).choose_spec
  obtain ⟨_, hverify, haggregate⟩ := verification_halts_iff twoDigests euclid hhalts
  constructor
  · have hshort : ([1] : Bytes) ≠ toBytes 32 (discriminantPrime - 4) :=
      ne_digest_of_length_lt (by decide)
    obtain ⟨g, hg⟩ := twoDigests_hQF hshort
    have : PrimeDiscriminant discriminantPrime := ⟨discriminantPrime_prime, rfl⟩
    obtain ⟨x, rfl⟩ := hQF_form hg
    refine ⟨x.form, hg, (hverify 5 [1] _ x.form _ (twoDigests_hD hshort) hg).1, ?_⟩
    exact (hverify 5 [1] _ x.form _ (twoDigests_hD hshort) hg).2 x.reduced.toPosDef
      ⟨x.reduced.toPosDef, x.reduced.isCoprime⟩
  · refine (haggregate 5 _ _ _ _ ?_ ?_).1
    · exact twoDigests_new 5
    · intro challenge hmem
      apply twoDigests_hQF
      apply ne_digest_of_length_lt
      fin_cases hmem <;> decide

/-- `(-1, -1, -1)` goes round for ever, and the verification of a proof that holds it with it. -/
theorem verify_diverges :
    (∀ fuel, ¬ Halts ((⟨-1, -1, -1⟩ : BinaryQF).normalize >>= reduceLoop fuel)) ∧
    ¬ Halts (ToyVDF.verify twoDigests euclid ⟨256, 5⟩ [1]
      ⟨-23, ⟨3, 1, 2⟩, ⟨-1, -1, -1⟩, ⟨2, 1, 3⟩⟩) := by
  have hstuck : Stuck ⟨-1, -1, -1⟩ := ⟨by decide, 1, by decide, by decide, by decide⟩
  constructor
  · intro fuel h
    exact h (hstuck.diverges fuel)
  · intro h
    have : PrimeDiscriminant discriminantPrime := ⟨discriminantPrime_prime, rfl⟩
    have hshort : ([1] : Bytes) ≠ toBytes 32 (discriminantPrime - 4) :=
      ne_digest_of_length_lt (by decide)
    obtain ⟨g, hg⟩ := twoDigests_hQF hshort
    obtain ⟨x, rfl⟩ := hQF_form hg
    have h := (halts_bind_iff.mp h).2 _ (twoDigests_hD hshort)
    have h := (halts_bind_iff.mp h).2 _ hg
    have h := (halts_bind_iff.mp h).2 _ (ReducedForm.hasClass_form x).reducedForm_eq
    exact reducedForm_halts_iff.mp (halts_bind_iff.mp h).1 hstuck

end Lootbox.Headstart
