import Lootbox.Base.CountedLoop
import Lootbox.Base.ExponentQuotient
import Lootbox.Base.IndexRanges
import Lootbox.Chiavdf.AggUtil
import Lootbox.Chiavdf.FormArithmetic
import Lootbox.Headstart.ChiaAccumulator

/-!
# `aggvdf.h`: aggregated proofs

Prover and verifier of an aggregated proof. Threads own ranges of indices; they write to different
places, so their loops run one after the other here. An index out of bounds and a value that no
`int` holds are undefined in the source and exceptions here, and the serialization of a form is a
parameter.
-/

namespace Lootbox.Chiavdf

open Headstart BinaryQF ReducedForm IndexRanges CountedLoop

/-- A value of an `int` -/
def toInt (n : Nat) : Except PyError Nat := counter .overflowError (2 ^ 31) n

/-- `for (int i = 0; i < n; i++)`, with a bound `n` that is wider. -/
def intLoop {α : Type} (round : α → α) (n : Nat) (x : α) : Except PyError α :=
  countedLoop .overflowError (2 ^ 31) round n x

/-- What thread `tt` is bound to: `tt*proofs_num/nthreads` and
`(tt+1)==nthreads?proofs_num:(tt+1)*proofs_num/nthreads`, with the products in `int`. -/
def threadBounds (proofs_num nthreads tt : Nat) : Except PyError (List Nat) := do
  let first ← toInt (tt * proofs_num)
  let bi := first / nthreads
  let next ← toInt (tt + 1)
  let ei ← (if next = nthreads then .ok proofs_num else do
    let last ← toInt (next * proofs_num)
    return last / nthreads : Except PyError Nat)
  return List.range' bi (ei - bi)

def threadRanges (proofs_num nthreads : Nat) : Except PyError (List (List Nat)) :=
  (List.range nthreads).mapM (threadBounds proofs_num nthreads)

/-- `int2bytes` of an index -/
def int2bytes (value : Nat) : Bytes := [24, 16, 8, 0].map fun shift => UInt8.ofNat (value >>> shift)

section Program

variable (ops : ClassGroupOps) (H : Primitives) (bqfcSerialize : Int → Int → Nat → Bytes) (fuel : Nat)

def evalAggVdf (D challenge_int : Int) (t : Nat) : Except PyError (Form × Int) := do
  let (y, a_iter) ← hG H fuel challenge_int D
  let y ← intLoop (fun y => ops.pulmarkReduce (ops.nudupl y D)) t y
  return (y, a_iter)

/-- One round of `PowFormWithQuotient`. -/
def quotientRound (g : Form) (D : Int) (B : Nat) (st : Form × Nat) : Form × Nat :=
  let x := ops.nudupl st.1 D
  let x := if st.2 * 2 ≥ B then ops.pulmarkReduce (ops.nucomp x g D) else x
  (x, st.2 * 2 % B)

def powFormWithQuotient (g : Form) (D : Int) (num_iterations B : Nat) : Except PyError Form := do
  let x ← identity D
  let (x, _) ← intLoop (quotientRound ops g D B) num_iterations (x, 1)
  return x

/-- `SerializeForm`, with the form that it reduces in place. -/
def serializeForm (y : Form) (d_bits : Nat) : Except PyError (Bytes × Form) := do
  let y ← reduce y
  return (bqfcSerialize y.a y.b d_bits, y)

/-- A round of the loop that builds `s`. -/
def serializeRound (d_size : Nat) (gs ys : List Form) (i : Nat) :
    Except PyError (Bytes × Form × Form) := do
  let g ← need .indexError gs[i]?
  let y ← need .indexError ys[i]?
  let (g_bytes, g) ← serializeForm bqfcSerialize g d_size
  let (y_bytes, y) ← serializeForm bqfcSerialize y d_size
  return (g_bytes ++ y_bytes, g, y)

/-- `s`, with the forms as they are after the loop. -/
def serializeAll (proofs_num d_size : Nat) (gs ys : List Form) :
    Except PyError (Bytes × List Form × List Form) := do
  let parts ← (List.range proofs_num).mapM (serializeRound bqfcSerialize d_size gs ys)
  return (parts.flatMap fun part => part.1, parts.map fun part => part.2.1,
    parts.map fun part => part.2.2)

/-- `gs[i]` -/
def generatorAt (D : Int) (challenge_integers a_iters : List Int) (i : Nat) : Except PyError Form := do
  let challenge ← need .indexError challenge_integers[i]?
  let a_iter ← need .indexError a_iters[i]?
  hGFast H fuel challenge D a_iter

/-- `alpha` of the index `i` -/
def alpha (s : Bytes) (i : Nat) : Nat := bytesToLong (H.sha256 (int2bytes i ++ s)).toList

/-- `agg * FastPowFormNucomp(forms[i], D, alpha, ..)` -/
def aggregateStep (D : Int) (s : Bytes) (forms : List Form) (agg : Form) (i : Nat) :
    Except PyError Form := do
  let f ← need .indexError forms[i]?
  return ops.times agg (ops.fastPow f D (alpha H s i))

/-- `AggreateVdfProofs` -/
def aggregateVdfProofs (D : Int) (challenge_integers : List Int) (ys : List Form)
    (num_iterations : Nat) (a_iters : List Int) : Except PyError (Form × Int) := do
  let d_size := numBits D
  let proofs_num ← toInt challenge_integers.length
  let gs ← (List.range proofs_num).mapM (generatorAt H fuel D challenge_integers a_iters)
  let (s, gs, _) ← serializeAll bqfcSerialize proofs_num d_size gs ys
  let (B, b_iter) ← hashPrimeWithIteration H fuel s 264 [263]
  let agg_g ← identity D
  let agg_g ← (List.range proofs_num).foldlM (aggregateStep ops H D s gs) agg_g
  let proof ← powFormWithQuotient ops agg_g D num_iterations B
  return (proof, b_iter)

/-- The threads that fill `gs`. -/
def threadGenerators (D : Int) (challenge_integers a_iters : List Int) (nthreads : Nat) :
    Except PyError (List Form) := do
  let proofs_num ← toInt challenge_integers.length
  let ranges ← threadRanges proofs_num nthreads
  ranges.foldlM (fun gs is =>
    is.foldlM (fun gs i => do
      let g ← generatorAt H fuel D challenge_integers a_iters i
      return gs.set i g) gs)
    (List.replicate proofs_num ⟨0, 0, 0⟩)

/-- The threads that fill `agg_gs` or `agg_ys`, and the loop over what they return. -/
def threadProducts (D : Int) (s : Bytes) (forms : List Form) (proofs_num nthreads : Nat) :
    Except PyError Form := do
  let agg ← identity D
  let ranges ← threadRanges proofs_num nthreads
  let aggs ← ranges.mapM fun is => do
    let agg ← identity D
    is.foldlM (aggregateStep ops H D s forms) agg
  return aggs.foldl ops.times agg

def verifyAggProof (D : Int) (challenge_integers : List Int) (ys : List Form) (aggregated_proof : Form)
    (num_iterations nthreads : Nat) (a_iters : List Int) (b_iter : Int) : Except PyError Bool := do
  let proofs_num ← toInt challenge_integers.length
  let d_size := numBits D
  let gs ← threadGenerators H fuel D challenge_integers a_iters nthreads
  let (s, gs, ys) ← serializeAll bqfcSerialize proofs_num d_size gs ys
  let B ← hashPrimeFast H fuel s 264 [263] b_iter
  let agg_x ← threadProducts ops H D s gs proofs_num nthreads
  let agg_y ← threadProducts ops H D s ys proofs_num nthreads
  let r := 2 ^ num_iterations % B
  let f1 := ops.fastPow aggregated_proof D B
  let f2 := ops.fastPow agg_x D r
  return decide (ops.times f1 f2 = agg_y)

end Program

/-! ### What fits an `int` -/

section Fit

/-- The numbers of proofs and of threads, and the products that split the indices, fit an `int`. -/
structure ThreadsFit (proofs_num nthreads : Nat) : Prop where
  proofs : proofs_num < 2 ^ 31
  threads : nthreads < 2 ^ 31
  products : (nthreads - 1) * proofs_num < 2 ^ 31

instance (proofs_num nthreads : Nat) : Decidable (ThreadsFit proofs_num nthreads) :=
  decidable_of_iff (proofs_num < 2 ^ 31 ∧ nthreads < 2 ^ 31 ∧ (nthreads - 1) * proofs_num < 2 ^ 31)
    ⟨fun h => ⟨h.1, h.2.1, h.2.2⟩, fun h => ⟨h.proofs, h.threads, h.products⟩⟩

theorem intLoop_eq {α : Type} (round : α → α) (n : Nat) (x : α) :
    intLoop round n x = if n < 2 ^ 31 then .ok (round^[n] x) else .error .overflowError :=
  countedLoop_eq round n x (by decide)

theorem intLoop_eq_ok_iff {α : Type} {round : α → α} {n : Nat} {x y : α} :
    intLoop round n x = .ok y ↔ n < 2 ^ 31 ∧ y = round^[n] x := by
  rw [intLoop_eq]
  by_cases h : n < 2 ^ 31
  · rw [if_pos h]
    exact ⟨fun heq => ⟨h, (Except.ok.inj heq).symm⟩, fun heq => congrArg _ heq.2.symm⟩
  · rw [if_neg h]
    exact ⟨nofun, fun heq => absurd heq.1 h⟩

/-- The values that thread `tt` is started with. -/
def BoundsFit (proofs_num nthreads tt : Nat) : Prop :=
  tt * proofs_num < 2 ^ 31 ∧ tt + 1 < 2 ^ 31 ∧
    (tt + 1 = nthreads ∨ (tt + 1) * proofs_num < 2 ^ 31)

instance (proofs_num nthreads tt : Nat) : Decidable (BoundsFit proofs_num nthreads tt) :=
  inferInstanceAs (Decidable (_ ∧ _ ∧ (_ ∨ _)))

variable {proofs_num nthreads tt : Nat}

theorem threadBounds_of_fit (h : BoundsFit proofs_num nthreads tt) :
    threadBounds proofs_num nthreads tt = .ok (threadRange proofs_num nthreads tt) := by
  obtain ⟨hfirst, hnext, hlast⟩ := h
  rw [threadBounds, toInt, counter_of_lt hfirst, ok_bind, toInt, counter_of_lt hnext, ok_bind,
    threadRange]
  by_cases heq : tt + 1 = nthreads
  · rw [if_pos heq, if_pos heq]
    rfl
  · rw [if_neg heq, if_neg heq, toInt, counter_of_lt (hlast.resolve_left heq)]
    rfl

theorem threadBounds_of_not_fit (h : ¬ BoundsFit proofs_num nthreads tt) :
    threadBounds proofs_num nthreads tt = .error .overflowError := by
  rw [threadBounds, toInt]
  by_cases hfirst : tt * proofs_num < 2 ^ 31
  · rw [counter_of_lt hfirst, ok_bind, toInt]
    by_cases hnext : tt + 1 < 2 ^ 31
    · have hlast : ¬ (tt + 1 = nthreads ∨ (tt + 1) * proofs_num < 2 ^ 31) :=
        fun hlast => h ⟨hfirst, hnext, hlast⟩
      rw [not_or] at hlast
      rw [counter_of_lt hnext, ok_bind, if_neg hlast.1, toInt,
        counter_of_le (Nat.not_lt.mp hlast.2)]
      rfl
    · rw [counter_of_le (Nat.not_lt.mp hnext), error_bind]
  · rw [counter_of_le (Nat.not_lt.mp hfirst), error_bind]

theorem forall_boundsFit_iff (hproofs : proofs_num < 2 ^ 31) :
    (∀ tt ∈ List.range nthreads, BoundsFit proofs_num nthreads tt) ↔
      ThreadsFit proofs_num nthreads := by
  constructor
  · intro h
    rcases nthreads with _ | n
    · exact ⟨hproofs, by decide, by rw [Nat.zero_sub, Nat.zero_mul]; decide⟩
    · obtain ⟨hfirst, hnext, _⟩ := h n List.self_mem_range_succ
      exact ⟨hproofs, hnext, hfirst⟩
  · rintro ⟨_, hthreads, hproducts⟩ tt htt
    rw [List.mem_range] at htt
    have hle : ∀ k ≤ nthreads - 1, k * proofs_num < 2 ^ 31 :=
      fun k hk => (Nat.mul_le_mul_right _ hk).trans_lt hproducts
    refine ⟨hle tt (by omega), by omega, ?_⟩
    by_cases heq : tt + 1 = nthreads
    · exact Or.inl heq
    · exact Or.inr (hle (tt + 1) (by omega))

theorem threadRanges_eq (hproofs : proofs_num < 2 ^ 31) : threadRanges proofs_num nthreads =
    if ThreadsFit proofs_num nthreads then
      .ok ((List.range nthreads).map (threadRange proofs_num nthreads))
    else .error .overflowError := by
  rw [threadRanges, mapM_eq_ite (fun tt _ => threadBounds_of_fit) fun tt _ => threadBounds_of_not_fit]
  exact if_congr (forall_boundsFit_iff hproofs) rfl rfl

end Fit

/-! ### The generators -/

section Generators

variable {H : Primitives} {fuel : Nat} {D challenge a_iter : Int}

/-- A prime for which `D` is a residue. -/
def Accepted (H : Primitives) (challenge D : Int) (i : Nat) : Prop :=
  H.prime (candidate H challenge D i) = true ∧ Residue D (candidate H challenge D i)

instance (H : Primitives) (challenge D : Int) (i : Nat) : Decidable (Accepted H challenge D i) :=
  inferInstanceAs (Decidable (_ ∧ _))

/-- `H_G` takes the first accepted candidate. -/
def FirstAccepted (H : Primitives) (challenge D : Int) (i : Nat) : Prop :=
  Accepted H challenge D i ∧ ∀ k < i, ¬ Accepted H challenge D k

theorem hG_eq_ok_iff {f : Form} {ii : Int} : hG H fuel challenge D = .ok (f, ii) ↔
    ∃ i < fuel, FirstAccepted H challenge D i ∧ ii = i + 1 ∧
      generatorForm D (candidate H challenge D i) = .ok f := by
  have hfound : ∀ i, (if H.prime (candidate H challenge D i) then
      if Residue D (candidate H challenge D i) then some (candidate H challenge D i, (i : Int) + 1)
      else none else none) = if Accepted H challenge D i then
        some (candidate H challenge D i, (i : Int) + 1) else none := by
    intro i
    by_cases hprime : H.prime (candidate H challenge D i) = true
    · by_cases hresidue : Residue D (candidate H challenge D i)
      · rw [if_pos hprime, if_pos hresidue, if_pos ⟨hprime, hresidue⟩]
      · rw [if_pos hprime, if_neg hresidue, if_neg fun h => hresidue h.2]
    · rw [if_neg hprime, if_neg fun h => hprime h.1]
  rw [hG]
  simp only [hfound]
  constructor
  · intro h
    obtain ⟨⟨a, ii'⟩, hsearch, h⟩ := bind_eq_ok_iff.mp h
    obtain ⟨f', hf, h⟩ := bind_eq_ok_iff.mp h
    cases h
    obtain ⟨i, hi, hsome, hnone⟩ := search_eq_ok_iff.mp hsearch
    rw [Nat.zero_add] at hsome
    by_cases haccepted : Accepted H challenge D i
    · rw [if_pos haccepted] at hsome
      cases hsome
      refine ⟨i, hi, ⟨haccepted, ?_⟩, rfl, hf⟩
      intro k hk hacc
      have hk_none := hnone k hk
      rw [Nat.zero_add, if_pos hacc] at hk_none
      cases hk_none
    · rw [if_neg haccepted] at hsome
      cases hsome
  · rintro ⟨i, hi, ⟨haccepted, hfirst⟩, rfl, hf⟩
    have hsearch : search (fun i => if Accepted H challenge D i then
        some (candidate H challenge D i, (i : Int) + 1) else none) fuel 0 =
          .ok (candidate H challenge D i, (i : Int) + 1) := by
      refine search_eq_ok_iff.mpr ⟨i, hi, ?_, ?_⟩
      · rw [Nat.zero_add, if_pos haccepted]
      · intro k hk
        rw [Nat.zero_add, if_neg (hfirst k hk)]
    exact bind_eq_of_ok hsearch (bind_eq_of_ok hf rfl)

/-- `H_GFast` takes the claimed candidate, or the identity where it is composite. -/
theorem hGFast_eq_ok_iff {f : Form} : hGFast H fuel challenge D a_iter = .ok f ↔
    ∃ i < fuel, a_iter = i + 1 ∧
      ((Accepted H challenge D i ∧ generatorForm D (candidate H challenge D i) = .ok f) ∨
        (H.prime (candidate H challenge D i) = false ∧ identity D = .ok f)) := by
  constructor
  · intro h
    obtain ⟨found, hsearch, h⟩ := bind_eq_ok_iff.mp h
    obtain ⟨i, hi, rfl, hfound⟩ := fastSearch_eq_ok_iff.mp hsearch
    refine ⟨i, hi, rfl, ?_⟩
    rw [fastCandidate_self] at hfound
    by_cases hprime : H.prime (candidate H challenge D i) = true
    · rw [if_pos hprime] at hfound
      by_cases hresidue : Residue D (candidate H challenge D i)
      · rw [if_pos hresidue] at hfound
        cases hfound
        exact Or.inl ⟨⟨hprime, hresidue⟩, h⟩
      · rw [if_neg hresidue] at hfound
        cases hfound
    · rw [if_neg hprime] at hfound
      cases hfound
      exact Or.inr ⟨Bool.eq_false_iff.mpr hprime, h⟩
  · rintro ⟨i, hi, rfl, ⟨haccepted, hf⟩ | ⟨hprime, hf⟩⟩
    · have hsearch : search (fastCandidate H challenge D (i + 1)) fuel 0 =
          .ok (some (candidate H challenge D i)) := by
        refine fastSearch_eq_ok_iff.mpr ⟨i, hi, rfl, ?_⟩
        rw [fastCandidate_self, if_pos haccepted.1, if_pos haccepted.2]
      exact bind_eq_of_ok hsearch hf
    · have hsearch : search (fastCandidate H challenge D (i + 1)) fuel 0 = .ok none := by
        refine fastSearch_eq_ok_iff.mpr ⟨i, hi, rfl, ?_⟩
        rw [fastCandidate_self, hprime]
        rfl
      exact bind_eq_of_ok hsearch hf

theorem hGFast_of_hG {f : Form} (h : hG H fuel challenge D = .ok (f, a_iter)) :
    hGFast H fuel challenge D a_iter = .ok f := by
  obtain ⟨i, hi, hfirst, ha, hf⟩ := hG_eq_ok_iff.mp h
  exact hGFast_eq_ok_iff.mpr ⟨i, hi, ha, Or.inl ⟨hfirst.1, hf⟩⟩

theorem hGFast_form {p : Nat} [PrimeDiscriminant p] {f : Form}
    (h : hGFast H fuel challenge (-p) a_iter = .ok f) : ∃ x : ReducedForm p, f = x.form := by
  obtain ⟨i, _, _, ⟨haccepted, hf⟩ | ⟨_, hf⟩⟩ := hGFast_eq_ok_iff.mp h
  · obtain ⟨x, hx⟩ := exists_generatorForm (candidate_mod_four challenge (-p) i) haccepted.2
    rw [hx] at hf
    exact ⟨x, (Except.ok.inj hf).symm⟩
  · rw [identity_eq] at hf
    exact ⟨1, (Except.ok.inj hf).symm⟩

theorem threadGenerators_eq (challenge_integers a_iters : List Int) {nthreads : Nat}
    (hpos : 0 < nthreads) : threadGenerators H fuel D challenge_integers a_iters nthreads =
      if ThreadsFit challenge_integers.length nthreads then
        (List.range challenge_integers.length).mapM
          (generatorAt H fuel D challenge_integers a_iters)
      else .error .overflowError := by
  by_cases hproofs : challenge_integers.length < 2 ^ 31
  · rw [threadGenerators, toInt, counter_of_lt hproofs, ok_bind, threadRanges_eq hproofs]
    by_cases hfit : ThreadsFit challenge_integers.length nthreads
    · rw [if_pos hfit, if_pos hfit, ok_bind, List.foldlM_map, ← foldlM_set _ ⟨0, 0, 0⟩,
        ← flatMap_threadRange challenge_integers.length hpos, foldlM_flatMap]
      rfl
    · rw [if_neg hfit, if_neg hfit, error_bind]
  · rw [threadGenerators, toInt, counter_of_le (Nat.not_lt.mp hproofs), error_bind,
      if_neg fun hfit => hproofs hfit.proofs]

end Generators

/-! ### The challenge -/

section Challenge

variable {H : Primitives} {fuel : Nat} {seed : Bytes} {length : Nat} {bitmask : List Nat}

/-- `HashPrimeWithIteration` takes the first prime. -/
def FirstPrime (H : Primitives) (seed : Bytes) (length : Nat) (bitmask : List Nat) (i : Nat) : Prop :=
  H.prime (primeCandidate H seed length bitmask i) = true ∧
    ∀ k < i, H.prime (primeCandidate H seed length bitmask k) = false

theorem hashPrimeWithIteration_eq_ok_iff {B : Nat} {b_iter : Int} :
    hashPrimeWithIteration H fuel seed length bitmask = .ok (B, b_iter) ↔
      ∃ i < fuel, FirstPrime H seed length bitmask i ∧ b_iter = i + 1 ∧
        B = primeCandidate H seed length bitmask i := by
  rw [hashPrimeWithIteration, search_eq_ok_iff]
  simp only [Nat.zero_add]
  constructor
  · rintro ⟨i, hi, hsome, hnone⟩
    by_cases hprime : H.prime (primeCandidate H seed length bitmask i) = true
    · rw [if_pos hprime] at hsome
      cases hsome
      refine ⟨i, hi, ⟨hprime, ?_⟩, rfl, rfl⟩
      intro k hk
      by_contra hk_prime
      have hk_none := hnone k hk
      rw [if_pos (Bool.not_eq_false _ ▸ hk_prime)] at hk_none
      cases hk_none
    · rw [if_neg hprime] at hsome
      cases hsome
  · rintro ⟨i, hi, ⟨hprime, hfirst⟩, rfl, rfl⟩
    refine ⟨i, hi, if_pos hprime, ?_⟩
    intro k hk
    rw [hfirst k hk]
    rfl

/-- `HashPrimeFast` takes the first prime from the claimed iteration on. -/
def NextPrime (H : Primitives) (seed : Bytes) (length : Nat) (bitmask : List Nat)
    (skip_to_iteration : Int) (i : Nat) : Prop :=
  skip_to_iteration ≤ i + 1 ∧ H.prime (primeCandidate H seed length bitmask i) = true ∧
    ∀ k < i, skip_to_iteration ≤ k + 1 → H.prime (primeCandidate H seed length bitmask k) = false

theorem hashPrimeFast_eq_ok_iff {B : Nat} {skip_to_iteration : Int} :
    hashPrimeFast H fuel seed length bitmask skip_to_iteration = .ok B ↔
      ∃ i < fuel, NextPrime H seed length bitmask skip_to_iteration i ∧
        B = primeCandidate H seed length bitmask i := by
  rw [hashPrimeFast, search_eq_ok_iff]
  simp only [Nat.zero_add]
  constructor
  · rintro ⟨i, hi, hsome, hnone⟩
    by_cases hskip : (i : Int) + 1 < skip_to_iteration
    · rw [if_pos hskip] at hsome
      cases hsome
    · rw [if_neg hskip] at hsome
      by_cases hprime : H.prime (primeCandidate H seed length bitmask i) = true
      · rw [if_pos hprime] at hsome
        cases hsome
        refine ⟨i, hi, ⟨not_lt.mp hskip, hprime, ?_⟩, rfl⟩
        intro k hk hle
        by_contra hk_prime
        have hk_none := hnone k hk
        rw [if_neg (not_lt.mpr hle), if_pos (Bool.not_eq_false _ ▸ hk_prime)] at hk_none
        cases hk_none
      · rw [if_neg hprime] at hsome
        cases hsome
  · rintro ⟨i, hi, ⟨hle, hprime, hfirst⟩, rfl⟩
    refine ⟨i, hi, by rw [if_neg (not_lt.mpr hle), if_pos hprime], ?_⟩
    intro k hk
    by_cases hskip : (k : Int) + 1 < skip_to_iteration
    · rw [if_pos hskip]
    · rw [if_neg hskip, hfirst k hk (not_lt.mp hskip)]
      rfl

theorem FirstPrime.next {skip_to_iteration : Int} {j : Nat} (h : FirstPrime H seed length bitmask j)
    (hle : skip_to_iteration ≤ j + 1) : NextPrime H seed length bitmask skip_to_iteration j :=
  ⟨hle, h.1, fun k hk _ => h.2 k hk⟩

theorem hashPrimeFast_of_withIteration {B : Nat} {b_iter k : Int}
    (h : hashPrimeWithIteration H fuel seed length bitmask = .ok (B, b_iter)) (hk : k ≤ b_iter) :
    hashPrimeFast H fuel seed length bitmask k = .ok B := by
  obtain ⟨i, hi, hfirst, hb, hB⟩ := hashPrimeWithIteration_eq_ok_iff.mp h
  exact hashPrimeFast_eq_ok_iff.mpr ⟨i, hi, hfirst.next (hk.trans hb.le), hB⟩

theorem one_lt_setBits {e : Nat} (he : e ≠ 0) (n : Nat) : 1 < setBits ([e] ++ [0]) n := by
  have hset : setBits ([e] ++ [0]) n = n ||| 2 ^ e ||| 1 := by
    rw [List.singleton_append, setBits, List.foldl_cons, List.foldl_cons, List.foldl_nil,
      Nat.one_shiftLeft, Nat.one_shiftLeft, pow_zero]
  have hright : 2 ^ e ≤ n ||| 2 ^ e := Nat.right_le_or
  have hleft : n ||| 2 ^ e ≤ n ||| 2 ^ e ||| 1 := Nat.left_le_or
  rw [hset]
  exact (Nat.one_lt_two_pow he).trans_le (hright.trans hleft)

theorem one_lt_primeCandidate (H : Primitives) (s : Bytes) (i : Nat) :
    1 < primeCandidate H s 264 [263] i := one_lt_setBits (by decide) _

end Challenge

/-! ### Products over the threads -/

section Products

variable {p : Nat} [hp : PrimeDiscriminant p] {ops : ClassGroupOps} {H : Primitives} {s : Bytes}
  {bqfcSerialize : Int → Int → Nat → Bytes}

/-- `∏ x_i ^ alpha_i` over some of the indices. -/
noncomputable def productOver (H : Primitives) (s : Bytes) (xs : List (ReducedForm p)) (is : List Nat) :
    ReducedForm p := (is.map fun i => xs.getD i 1 ^ alpha H s i).prod

theorem map_form_getElem? {xs : List (ReducedForm p)} {i : Nat} (hi : i < xs.length) :
    (xs.map form)[i]? = some (xs.getD i 1).form := by
  rw [List.getElem?_map, List.getElem?_eq_getElem hi, List.getD_eq_getElem _ _ hi, Option.map_some]

theorem aggregateLoop_eq (hops : ops.ComputesClass p) {xs : List (ReducedForm p)} {is : List Nat}
    (his : ∀ i ∈ is, i < xs.length) (agg : ReducedForm p) :
    is.foldlM (aggregateStep ops H (-p) s (xs.map form)) agg.form =
      .ok (agg * productOver H s xs is).form := by
  induction is generalizing agg with
  | nil =>
    rw [productOver, List.map_nil, List.prod_nil, mul_one]
    rfl
  | cons i is ih =>
    rw [List.forall_mem_cons] at his
    have hget := map_form_getElem? his.1
    have hstep : aggregateStep ops H (-p) s (xs.map form) agg.form i =
        .ok (agg * xs.getD i 1 ^ alpha H s i).form := by
      refine bind_eq_of_ok (need_eq_ok_iff.mpr hget) ?_
      rw [hops.times_class _ _ _ _ (hasClass_form agg)
        (hops.fastPow_class _ _ (alpha H s i) (hasClass_form _))]
      rfl
    rw [List.foldlM_cons, hstep, ok_bind, ih his.2, productOver, productOver, List.map_cons,
      List.prod_cons, mul_assoc]

theorem foldl_times (hops : ops.ComputesClass p) (xs : List (ReducedForm p)) (agg : ReducedForm p) :
    (xs.map form).foldl ops.times agg.form = (agg * xs.prod).form := by
  induction xs generalizing agg with
  | nil => rw [List.prod_nil, mul_one]; rfl
  | cons x xs ih =>
    rw [List.map_cons, List.foldl_cons,
      hops.times_class _ _ _ _ (hasClass_form agg) (hasClass_form x), ih, List.prod_cons, mul_assoc]

theorem prod_flatMap {α : Type*} (f : Nat → ReducedForm p) (parts : α → List Nat) (ts : List α) :
    (ts.map fun t => ((parts t).map f).prod).prod = ((ts.flatMap parts).map f).prod := by
  induction ts with
  | nil => rfl
  | cons t ts ih =>
    rw [List.map_cons, List.prod_cons, ih, List.flatMap_cons, List.map_append, List.prod_append]

/-- The partial products of the threads give the whole product. -/
theorem threadProducts_eq (hops : ops.ComputesClass p) (xs : List (ReducedForm p)) {nthreads : Nat}
    (hpos : 0 < nthreads) (hfit : ThreadsFit xs.length nthreads) :
    threadProducts ops H (-p) s (xs.map form) xs.length nthreads =
      .ok (productOver H s xs (List.range xs.length)).form := by
  have hrange := flatMap_threadRange xs.length hpos
  have hpart : ∀ is ∈ (List.range nthreads).map (threadRange xs.length nthreads), (do
      let agg ← identity (-p)
      is.foldlM (aggregateStep ops H (-p) s (xs.map form)) agg) =
        .ok (productOver H s xs is).form := by
    intro is his
    have hmem : ∀ i ∈ is, i < xs.length := by
      intro i hi
      obtain ⟨tt, htt, rfl⟩ := List.mem_map.mp his
      rw [← List.mem_range, ← hrange]
      exact List.mem_flatMap.mpr ⟨tt, htt, hi⟩
    rw [identity_eq, ok_bind, aggregateLoop_eq hops hmem, one_mul]
  have hranges : threadRanges xs.length nthreads = .ok _ :=
    (threadRanges_eq hfit.proofs).trans (if_pos hfit)
  refine bind_eq_of_ok identity_eq (bind_eq_of_ok hranges (bind_eq_of_ok (mapM_eq_ok_map hpart) ?_))
  refine congrArg Except.ok ?_
  have hmap : ((List.range nthreads).map (threadRange xs.length nthreads)).map
      (fun is => (productOver H s xs is).form) =
        ((List.range nthreads).map fun tt =>
          productOver H s xs (threadRange xs.length nthreads tt)).map form := by
    rw [List.map_map, List.map_map]
    rfl
  rw [hmap, foldl_times hops, one_mul]
  simp only [productOver]
  rw [prod_flatMap, hrange]

end Products

/-! ### What is hashed -/

section Serialized

variable {p : Nat} [hp : PrimeDiscriminant p] {H : Primitives} {fuel : Nat}
  {bqfcSerialize : Int → Int → Nat → Bytes}

theorem map_range_getD {α : Type*} (xs : List α) (d : α) :
    (List.range xs.length).map (fun i => xs.getD i d) = xs := by
  apply List.ext_getElem
  · rw [List.length_map, List.length_range]
  · intro i _ hi
    rw [List.getElem_map, List.getElem_range, List.getD_eq_getElem _ _ hi]

theorem exists_generators {challenge_integers a_iters : List Int} {gs : List Form}
    (h : (List.range challenge_integers.length).mapM
      (generatorAt H fuel (-p) challenge_integers a_iters) = .ok gs) :
    ∃ xs : List (ReducedForm p), gs = xs.map form ∧ xs.length = challenge_integers.length := by
  have hforall := mapM_eq_ok_iff.mp h
  have hform : ∀ g ∈ gs, ∃ x : ReducedForm p, x.form = g := by
    intro g hg
    obtain ⟨k, hk, rfl⟩ := List.getElem_of_mem hg
    have hk_range : k < (List.range challenge_integers.length).length := hforall.length_eq ▸ hk
    have hget := List.Forall₂.get hforall hk_range hk
    obtain ⟨challenge, _, hget⟩ := bind_eq_ok_iff.mp hget
    obtain ⟨a_iter, _, hget⟩ := bind_eq_ok_iff.mp hget
    obtain ⟨x, hx⟩ := hGFast_form hget
    exact ⟨x, hx.symm⟩
  obtain ⟨xs, hxs⟩ := exists_forall₂ hform
  have hmap : gs = xs.map form := by
    rw [← List.forall₂_eq_eq_eq, List.forall₂_map_right_iff]
    exact hxs.imp fun _ _ h => h.symm
  refine ⟨xs, hmap, ?_⟩
  rw [← hxs.length_eq, ← hforall.length_eq, List.length_range]

theorem serializeForm_class {y : Form} {z : ReducedForm p} (h : HasClass y z) (d_bits : Nat) :
    serializeForm bqfcSerialize y d_bits =
      .ok (bqfcSerialize z.form.a z.form.b d_bits, z.form) :=
  bind_eq_of_ok (reduce_class h) rfl

theorem serializeRound_eq_ok_iff {d_size : Nat} {xs zs : List (ReducedForm p)} {ys : List Form}
    (hys : List.Forall₂ HasClass ys zs) {i : Nat} (hi : i < xs.length)
    (part : Bytes × Form × Form) :
    serializeRound bqfcSerialize d_size (xs.map form) ys i = .ok part ↔ i < zs.length ∧
      part = (bqfcSerialize (xs.getD i 1).form.a (xs.getD i 1).form.b d_size ++
        bqfcSerialize (zs.getD i 1).form.a (zs.getD i 1).form.b d_size,
        (xs.getD i 1).form, (zs.getD i 1).form) := by
  rw [serializeRound, map_form_getElem? hi, need_some, ok_bind]
  by_cases hlt : i < zs.length
  · have hlt_ys : i < ys.length := by rwa [hys.length_eq]
    have hclass : HasClass ys[i] (zs.getD i 1) := by
      rw [List.getD_eq_getElem _ _ hlt]
      exact List.Forall₂.get hys hlt_ys hlt
    rw [List.getElem?_eq_getElem hlt_ys, need_some, ok_bind, serializeForm_class (hasClass_form _),
      ok_bind]
    simp only [serializeForm_class hclass, ok_bind]
    constructor
    · intro h
      cases h
      exact ⟨hlt, rfl⟩
    · rintro ⟨_, rfl⟩
      rfl
  · rw [List.getElem?_eq_none (by rw [hys.length_eq]; omega), need_none, error_bind]
    constructor
    · intro h
      cases h
    · rintro ⟨h, _⟩
      exact absurd h hlt

theorem serializeAll_forms {proofs_num d_size : Nat} {xs zs : List (ReducedForm p)}
    {ys gs' ys' : List Form} {s : Bytes} (hxs : xs.length = proofs_num)
    (hys : List.Forall₂ HasClass ys zs)
    (h : serializeAll bqfcSerialize proofs_num d_size (xs.map form) ys = .ok (s, gs', ys')) :
    gs' = xs.map form ∧ ys' = (zs.take proofs_num).map form ∧ proofs_num ≤ zs.length := by
  obtain ⟨parts, hparts, h⟩ := bind_eq_ok_iff.mp h
  cases h
  obtain ⟨hlt, rfl⟩ := (mapM_eq_ok_map_iff fun i hi part => serializeRound_eq_ok_iff hys
    (hxs ▸ List.mem_range.mp hi) part).mp hparts
  have hle : proofs_num ≤ zs.length := by
    rcases proofs_num with _ | n
    · exact Nat.zero_le _
    · exact hlt n (List.mem_range.mpr (Nat.lt_succ_self n))
  have htake : (List.range proofs_num).map (fun i => zs.getD i 1) = zs.take proofs_num := by
    have hlen : (zs.take proofs_num).length = proofs_num := List.length_take_of_le hle
    have hrange := map_range_getD (zs.take proofs_num) 1
    rw [hlen] at hrange
    rw [← hrange]
    refine List.map_congr_left fun i hi => ?_
    rw [List.getD_eq_getElem?_getD, List.getD_eq_getElem?_getD,
      List.getElem?_take_of_lt (List.mem_range.mp hi)]
  refine ⟨?_, ?_, hle⟩
  · rw [List.map_map]
    conv_rhs => rw [← map_range_getD xs 1, hxs, List.map_map]
    rfl
  · rw [List.map_map, ← htake, List.map_map]
    rfl

end Serialized

/-! ### Prover and verifier -/

section Agreement

variable {p : Nat} [hp : PrimeDiscriminant p] {ops : ClassGroupOps} {H : Primitives} {fuel : Nat}
  {bqfcSerialize : Int → Int → Nat → Bytes}

theorem productOver_pow (s : Bytes) (xs : List (ReducedForm p)) (n : Nat) (is : List Nat) :
    productOver H s (xs.map (· ^ n)) is = productOver H s xs is ^ n := by
  have hpow : is.map (fun i => (xs.map (· ^ n)).getD i 1 ^ alpha H s i) =
      (is.map fun i => xs.getD i 1 ^ alpha H s i).map (powMonoidHom n) := by
    rw [List.map_map]
    refine List.map_congr_left fun i _ => ?_
    have hget : (xs.map (· ^ n)).getD i 1 = xs.getD i 1 ^ n := by
      rw [List.getD_eq_getElem?_getD, List.getElem?_map, List.getD_eq_getElem?_getD]
      cases xs[i]? with
      | none => exact (one_pow n).symm
      | some x => rfl
    rw [hget, Function.comp_apply, powMonoidHom_apply, ← pow_mul, ← pow_mul, Nat.mul_comm]
  rw [productOver, productOver, hpow, List.prod_hom, powMonoidHom_apply]

theorem iterate_nudupl (hops : ops.ComputesClass p) (x : ReducedForm p) (t : Nat) :
    HasClass ((fun y => ops.pulmarkReduce (ops.nudupl y (-p)))^[t] x.form) (x ^ 2 ^ t) := by
  induction t with
  | zero =>
    rw [pow_zero, pow_one]
    exact hasClass_form x
  | succ t ih =>
    rw [Function.iterate_succ_apply', pow_succ 2 t, pow_mul, sq]
    exact hops.reduce_class _ _ (hops.nudupl_class _ _ ih)

theorem evalAggVdf_eq_ok (hops : ops.ComputesClass p) {challenge a_iter : Int} {t : Nat} {y : Form}
    (h : evalAggVdf ops H fuel (-p) challenge t = .ok (y, a_iter)) :
    t < 2 ^ 31 ∧ ∃ x : ReducedForm p, hGFast H fuel challenge (-p) a_iter = .ok x.form ∧
      HasClass y (x ^ 2 ^ t) := by
  obtain ⟨⟨g, a⟩, hg, h⟩ := bind_eq_ok_iff.mp h
  obtain ⟨y', hloop, h⟩ := bind_eq_ok_iff.mp h
  cases h
  obtain ⟨ht, rfl⟩ := intLoop_eq_ok_iff.mp hloop
  have hfast := hGFast_of_hG hg
  obtain ⟨x, rfl⟩ := hGFast_form hfast
  exact ⟨ht, x, hfast, iterate_nudupl hops x t⟩

omit hp in
/-- With a number of squarings that fits, `EvalAggVdf` returns when `H_G` does. -/
theorem exists_evalAggVdf {challenge : Int} {t : Nat} {g : Form × Int}
    (hg : hG H fuel challenge (-p) = .ok g) (ht : t < 2 ^ 31) :
    ∃ r, evalAggVdf ops H fuel (-p) challenge t = .ok r :=
  ⟨_, bind_eq_of_ok hg (bind_eq_of_ok (intLoop_eq_ok_iff.mpr ⟨ht, rfl⟩) rfl)⟩

/-- The state of the loop after `i` rounds: the power to the quotient of `2 ^ i` so far, and the
remainder. -/
theorem quotientRound_iterate (hops : ops.ComputesClass p) (g : ReducedForm p) {B : Nat} (hB : 1 < B)
    (i : Nat) : HasClass ((quotientRound ops g.form (-p) B)^[i] ((1 : ReducedForm p).form, 1)).1
        (g ^ (2 ^ i / B)) ∧
      ((quotientRound ops g.form (-p) B)^[i] ((1 : ReducedForm p).form, 1)).2 = 2 ^ i % B := by
  induction i with
  | zero =>
    rw [pow_zero, Nat.div_eq_of_lt hB, pow_zero, Nat.mod_eq_of_lt hB]
    exact ⟨hasClass_form 1, rfl⟩
  | succ i ih =>
    rw [Function.iterate_succ_apply']
    generalize (quotientRound ops g.form (-p) B)^[i] ((1 : ReducedForm p).form, 1) = st at ih ⊢
    obtain ⟨hclass, hrem⟩ := ih
    have hsquare := hops.nudupl_class _ _ hclass
    have hlt : 2 ^ i % B < B := Nat.mod_lt _ (by omega)
    have hstep := ExponentQuotient.quotient_step g B i
    refine ⟨?_, ?_⟩
    · rw [quotientRound]
      by_cases hbit : st.2 * 2 ≥ B
      · have hone : 2 * (2 ^ i % B) / B = 1 := by
          rw [hrem] at hbit
          exact Nat.div_eq_of_lt_le (by omega) (by omega)
        rw [hone, pow_one] at hstep
        rw [if_pos hbit, ← hstep]
        exact hops.reduce_class _ _ (hops.nucomp_class _ _ _ _ hsquare (hasClass_form g))
      · have hzero : 2 * (2 ^ i % B) / B = 0 := by
          rw [hrem] at hbit
          exact Nat.div_eq_of_lt (by omega)
        rw [hzero, pow_zero, mul_one] at hstep
        rw [if_neg hbit, ← hstep]
        exact hsquare
    · rw [quotientRound, ExponentQuotient.two_pow_succ_mod, hrem, Nat.mul_comm]

theorem exists_powFormWithQuotient (hops : ops.ComputesClass p) (g : ReducedForm p)
    {num_iterations B : Nat} (hB : 1 < B) (ht : num_iterations < 2 ^ 31) :
    ∃ proof, powFormWithQuotient ops g.form (-p) num_iterations B = .ok proof ∧
      HasClass proof (g ^ (2 ^ num_iterations / B)) :=
  ⟨_, bind_eq_of_ok identity_eq (bind_eq_of_ok (intLoop_eq_ok_iff.mpr ⟨ht, rfl⟩) rfl),
    (quotientRound_iterate hops g hB num_iterations).1⟩

variable {challenge_integers a_iters : List Int} {ys : List Form} {s : Bytes}
  {xs zs : List (ReducedForm p)} {num_iterations nthreads B : Nat} {b_iter : Int}

theorem verifyAggProof_eq (hops : ops.ComputesClass p) (hpos : 0 < nthreads)
    (hfit : ThreadsFit challenge_integers.length nthreads)
    (hxs : xs.length = challenge_integers.length) (hzs : zs.length = challenge_integers.length)
    (hgs : (List.range challenge_integers.length).mapM
      (generatorAt H fuel (-p) challenge_integers a_iters) = .ok (xs.map form))
    (hs : serializeAll bqfcSerialize challenge_integers.length (numBits (-p)) (xs.map form) ys =
      .ok (s, xs.map form, zs.map form))
    (hB : hashPrimeFast H fuel s 264 [263] b_iter = .ok B) (proof : Form) :
    verifyAggProof ops H bqfcSerialize fuel (-p) challenge_integers ys proof num_iterations nthreads
      a_iters b_iter = .ok (decide (ops.times (ops.fastPow proof (-p) B)
        (ops.fastPow (productOver H s xs (List.range xs.length)).form (-p) (2 ^ num_iterations % B)) =
          (productOver H s zs (List.range zs.length)).form)) := by
  have hagg_x := threadProducts_eq hops (H := H) (s := s) xs hpos (hxs ▸ hfit)
  have hagg_y := threadProducts_eq hops (H := H) (s := s) zs hpos (hzs ▸ hfit)
  rw [hxs] at hagg_x
  rw [hzs] at hagg_y
  have hthreads := (threadGenerators_eq _ _ hpos).trans ((if_pos hfit).trans hgs)
  refine bind_eq_of_ok (counter_of_lt hfit.proofs) (bind_eq_of_ok hthreads (bind_eq_of_ok hs
    (bind_eq_of_ok hB (bind_eq_of_ok hagg_x (bind_eq_of_ok hagg_y ?_)))))
  rw [hxs, hzs]
  rfl

theorem verifyAggProof_of_powers (hops : ops.ComputesClass p) (hpos : 0 < nthreads)
    (hfit : ThreadsFit challenge_integers.length nthreads)
    (hxs : xs.length = challenge_integers.length)
    (hgs : (List.range challenge_integers.length).mapM
      (generatorAt H fuel (-p) challenge_integers a_iters) = .ok (xs.map form))
    (hs : serializeAll bqfcSerialize challenge_integers.length (numBits (-p)) (xs.map form) ys =
      .ok (s, xs.map form, (xs.map (· ^ 2 ^ num_iterations)).map form))
    (hB : hashPrimeFast H fuel s 264 [263] b_iter = .ok B) {proof : Form}
    (hproof : HasClass proof
      (productOver H s xs (List.range xs.length) ^ (2 ^ num_iterations / B))) :
    verifyAggProof ops H bqfcSerialize fuel (-p) challenge_integers ys proof num_iterations nthreads
      a_iters b_iter = .ok true := by
  have hlen : (xs.map (· ^ 2 ^ num_iterations)).length = xs.length := List.length_map _
  have hf1 := hops.fastPow_class _ _ B hproof
  have hf2 := hops.fastPow_class _ _ (2 ^ num_iterations % B)
    (hasClass_form (productOver H s xs (List.range xs.length)))
  rw [verifyAggProof_eq hops hpos hfit hxs (hlen.trans hxs) hgs hs hB,
    hops.times_class _ _ _ _ hf1 hf2, productOver_pow, hlen, ExponentQuotient.pow_quotient_mul,
    decide_eq_true rfl]

omit hp in
theorem verifyAggProof_of_not_fit (hpos : 0 < nthreads)
    (hfit : ¬ ThreadsFit challenge_integers.length nthreads) (proof : Form) :
    verifyAggProof ops H bqfcSerialize fuel (-p) challenge_integers ys proof num_iterations nthreads
      a_iters b_iter = .error .overflowError := by
  rw [verifyAggProof, toInt]
  by_cases hproofs : challenge_integers.length < 2 ^ 31
  · rw [counter_of_lt hproofs, ok_bind, threadGenerators_eq _ _ hpos, if_neg hfit]
    rfl
  · rw [counter_of_le (Nat.not_lt.mp hproofs), error_bind]

/-- Whatever is claimed, the verdict does not depend on the number of threads. -/
theorem verifyAggProof_threads (hops : ops.ComputesClass p) (hys : ∀ y ∈ ys, y.PosDef (-p))
    {nthreads' : Nat} (hpos : 0 < nthreads) (hpos' : 0 < nthreads')
    (hfit : ThreadsFit challenge_integers.length nthreads)
    (hfit' : ThreadsFit challenge_integers.length nthreads') (proof : Form) :
    verifyAggProof ops H bqfcSerialize fuel (-p) challenge_integers ys proof num_iterations nthreads
        a_iters b_iter =
      verifyAggProof ops H bqfcSerialize fuel (-p) challenge_integers ys proof num_iterations nthreads'
        a_iters b_iter := by
  obtain ⟨zs, hzs⟩ := exists_forall₂ fun y hy => exists_hasClass (hys y hy)
  rw [verifyAggProof, verifyAggProof, toInt, counter_of_lt hfit.proofs, ok_bind, ok_bind,
    threadGenerators_eq _ _ hpos, threadGenerators_eq _ _ hpos', if_pos hfit, if_pos hfit']
  refine bind_congr_of_ok fun gs hgs => ?_
  obtain ⟨xs, rfl, hxs⟩ := exists_generators hgs
  refine bind_congr_of_ok fun ⟨s, gs', ys'⟩ hs => ?_
  obtain ⟨rfl, rfl, hle⟩ := serializeAll_forms hxs hzs hs
  have hzs_len : (zs.take challenge_integers.length).length = challenge_integers.length :=
    List.length_take_of_le hle
  have hagg (xs' : List (ReducedForm p)) (hlen : xs'.length = challenge_integers.length) :
      threadProducts ops H (-p) s (xs'.map form) challenge_integers.length nthreads =
        threadProducts ops H (-p) s (xs'.map form) challenge_integers.length nthreads' := by
    rw [← hlen] at hfit hfit' ⊢
    rw [threadProducts_eq hops xs' hpos hfit, threadProducts_eq hops xs' hpos' hfit']
  refine bind_congr_of_ok fun B _ => ?_
  dsimp only
  rw [hagg xs hxs, hagg _ hzs_len]

omit hp in
theorem form_injective : Function.Injective (form : ReducedForm p → Form) := by
  rintro ⟨f, hf⟩ ⟨g, hg⟩ rfl
  rfl

theorem evals_class (hops : ops.ComputesClass p) {evals : List (Form × Int)}
    (hevals : challenge_integers.mapM (fun challenge_int =>
      evalAggVdf ops H fuel (-p) challenge_int num_iterations) = .ok evals)
    (hgs : (List.range challenge_integers.length).mapM
      (generatorAt H fuel (-p) challenge_integers (evals.map Prod.snd)) = .ok (xs.map form)) :
    List.Forall₂ HasClass (evals.map Prod.fst) (xs.map (· ^ 2 ^ num_iterations)) := by
  obtain ⟨hevals_len, heval⟩ := List.forall₂_iff_get.mp (mapM_eq_ok_iff.mp hevals)
  obtain ⟨hgs_len, hg⟩ := List.forall₂_iff_get.mp (mapM_eq_ok_iff.mp hgs)
  rw [List.length_range, List.length_map] at hgs_len
  refine List.forall₂_iff_get.mpr ⟨by rw [List.length_map, List.length_map]; omega, ?_⟩
  intro i hi _
  rw [List.length_map] at hi
  have hi_challenge : i < challenge_integers.length := by omega
  have hi_xs : i < xs.length := by omega
  obtain ⟨_, x, hx, hy⟩ := evalAggVdf_eq_ok hops (heval i hi_challenge hi)
  have hget := hg i (by rwa [List.length_range]) (by rwa [List.length_map])
  simp only [List.get_eq_getElem, List.getElem_range, List.getElem_map, generatorAt,
    List.getElem?_eq_getElem hi_challenge, List.getElem?_map, List.getElem?_eq_getElem hi,
    Option.map_some, need_some, ok_bind] at hget hx hy ⊢
  rw [hx] at hget
  have hxs_i : x = xs[i] := form_injective (Except.ok.inj hget)
  rw [← hxs_i]
  exact hy

/-- The generators that the claimed counters lead to, and what is hashed. -/
theorem exists_generators_of_evals (hops : ops.ComputesClass p)
    (bqfcSerialize : Int → Int → Nat → Bytes) {evals : List (Form × Int)}
    (hevals : challenge_integers.mapM (fun challenge_int =>
      evalAggVdf ops H fuel (-p) challenge_int num_iterations) = .ok evals) :
    ∃ (xs : List (ReducedForm p)) (s : Bytes), xs.length = challenge_integers.length ∧
      (List.range challenge_integers.length).mapM
        (generatorAt H fuel (-p) challenge_integers (evals.map Prod.snd)) = .ok (xs.map form) ∧
      serializeAll bqfcSerialize challenge_integers.length (numBits (-p)) (xs.map form)
        (evals.map Prod.fst) =
          .ok (s, xs.map form, (xs.map (· ^ 2 ^ num_iterations)).map form) := by
  have hforall := mapM_eq_ok_iff.mp hevals
  obtain ⟨hevals_len, heval⟩ := List.forall₂_iff_get.mp hforall
  obtain ⟨gs, hgs⟩ : ∃ gs, (List.range challenge_integers.length).mapM
      (generatorAt H fuel (-p) challenge_integers (evals.map Prod.snd)) = .ok gs := by
    refine exists_mapM_eq_ok fun i hi => ?_
    rw [List.mem_range] at hi
    have hi_evals : i < evals.length := hevals_len ▸ hi
    obtain ⟨_, x, hx, _⟩ := evalAggVdf_eq_ok hops (heval i hi hi_evals)
    refine ⟨x.form, ?_⟩
    rw [generatorAt, List.getElem?_eq_getElem hi, need_some, ok_bind, List.getElem?_map,
      List.getElem?_eq_getElem hi_evals]
    exact hx
  obtain ⟨xs, rfl, hxs⟩ := exists_generators hgs
  have hys := evals_class hops hevals hgs
  have hlen : (xs.map (· ^ 2 ^ num_iterations)).length = xs.length := List.length_map _
  obtain ⟨parts, hparts⟩ : ∃ parts, (List.range challenge_integers.length).mapM
      (serializeRound bqfcSerialize (numBits (-p)) (xs.map form) (evals.map Prod.fst)) =
        .ok parts := by
    refine exists_mapM_eq_ok fun i hi => ?_
    have hi_xs : i < xs.length := hxs ▸ List.mem_range.mp hi
    exact ⟨_, (serializeRound_eq_ok_iff hys hi_xs _).mpr ⟨hlen ▸ hi_xs, rfl⟩⟩
  obtain ⟨⟨s, gs', ys'⟩, hs⟩ : ∃ r, serializeAll bqfcSerialize challenge_integers.length
      (numBits (-p)) (xs.map form) (evals.map Prod.fst) = .ok r := ⟨_, bind_eq_of_ok hparts rfl⟩
  obtain ⟨rfl, rfl, hle⟩ := serializeAll_forms hxs hys hs
  rw [List.take_of_length_le (by rw [hlen, hxs])] at hs
  exact ⟨xs, s, hxs, hgs, hs⟩

/-- With a prime in reach, the prover returns a proof, and every fitting number of threads accepts
it. -/
theorem verifyAggProof_complete (hops : ops.ComputesClass p) (ht : num_iterations < 2 ^ 31)
    (hproofs : challenge_integers.length < 2 ^ 31) {evals : List (Form × Int)}
    (hevals : challenge_integers.mapM (fun challenge_int =>
      evalAggVdf ops H fuel (-p) challenge_int num_iterations) = .ok evals)
    (hsearch : aggregateVdfProofs ops H bqfcSerialize fuel (-p) challenge_integers
      (evals.map Prod.fst) num_iterations (evals.map Prod.snd) ≠ .error .diverges) :
    ∃ proof b_iter, aggregateVdfProofs ops H bqfcSerialize fuel (-p) challenge_integers
        (evals.map Prod.fst) num_iterations (evals.map Prod.snd) = .ok (proof, b_iter) ∧
      ∀ nthreads, 0 < nthreads → ThreadsFit challenge_integers.length nthreads →
        verifyAggProof ops H bqfcSerialize fuel (-p) challenge_integers (evals.map Prod.fst) proof
          num_iterations nthreads (evals.map Prod.snd) b_iter = .ok true := by
  obtain ⟨xs, s, hxs, hgs, hs⟩ := exists_generators_of_evals hops bqfcSerialize hevals
  have hagg : (List.range challenge_integers.length).foldlM
      (aggregateStep ops H (-p) s (xs.map form)) (1 : ReducedForm p).form =
        .ok (productOver H s xs (List.range xs.length)).form := by
    rw [← hxs, aggregateLoop_eq hops (fun i hi => List.mem_range.mp hi) 1, one_mul]
  have hrun : aggregateVdfProofs ops H bqfcSerialize fuel (-p) challenge_integers
      (evals.map Prod.fst) num_iterations (evals.map Prod.snd) =
      hashPrimeWithIteration H fuel s 264 [263] >>= fun (B, b_iter) =>
        powFormWithQuotient ops (productOver H s xs (List.range xs.length)).form (-p)
          num_iterations B >>= fun proof => .ok (proof, b_iter) := by
    rw [aggregateVdfProofs, toInt, counter_of_lt hproofs, ok_bind, hgs, ok_bind]
    dsimp only
    rw [hs, ok_bind]
    refine congrArg _ (funext fun (B, b_iter) => ?_)
    dsimp only
    rw [identity_eq, ok_bind, hagg, ok_bind]
    rfl
  rw [hrun] at hsearch ⊢
  rcases search_ok_or_diverges (fun i => if H.prime (primeCandidate H s 264 [263] i) then
      some (primeCandidate H s 264 [263] i, (i : Int) + 1) else none) fuel 0 with
    ⟨⟨B, b_iter⟩, hB⟩ | hdiverges
  · have hB : hashPrimeWithIteration H fuel s 264 [263] = .ok (B, b_iter) := hB
    have hone : 1 < B := by
      obtain ⟨i, _, _, _, rfl⟩ := hashPrimeWithIteration_eq_ok_iff.mp hB
      exact one_lt_primeCandidate H s i
    obtain ⟨proof, hpow, hproof⟩ := exists_powFormWithQuotient hops
      (productOver H s xs (List.range xs.length)) hone ht
    refine ⟨proof, b_iter, bind_eq_of_ok hB (bind_eq_of_ok hpow rfl), ?_⟩
    intro nthreads hpos hfit
    exact verifyAggProof_of_powers hops hpos hfit hxs hgs hs (hashPrimeFast_of_withIteration hB le_rfl)
      hproof
  · have hB : hashPrimeWithIteration H fuel s 264 [263] = .error .diverges := hdiverges
    rw [hB, error_bind] at hsearch
    exact absurd rfl hsearch

end Agreement

/-- `15`, `3` and composites as the candidates of the challenge `0`, and a prime as the first
candidate of every other seed. -/
def smallHashes : Primitives where
  sha256 m := (Vector.replicate 32 0).set 31 (if m = [1] then 12 else if m = [2] then 0 else 49)
  prime n := n == 3 || n == 2 ^ 263 + 12545

def twoBytes (a b : Int) (_ : Nat) : Bytes := [UInt8.ofNat a.natAbs, UInt8.ofNat b.natAbs]

end Lootbox.Chiavdf
