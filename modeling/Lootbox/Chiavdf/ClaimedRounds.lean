import Lootbox.Chiavdf.AggVdf

/-!
# Claimed counters

The verifier tests the candidates that the counters of the prover name. Here is when they are the
candidates that the full searches stop at.
-/

namespace Lootbox.Chiavdf

open Headstart BinaryQF ReducedForm CountedLoop

section Search

variable {H : Primitives} {fuel : Nat} {D challenge a_iter b_iter : Int} {s : Bytes}

/-- `g` is the form that `H_G` returns. -/
def HashesTo (H : Primitives) (D challenge : Int) (g : Form) : Prop :=
  ∃ fuel ii, hG H fuel challenge D = .ok (g, ii)

/-- `B` is the prime that `HashPrimeWithIteration` returns. -/
def HashesToPrime (H : Primitives) (s : Bytes) (B : Nat) : Prop :=
  ∃ fuel b_iter, hashPrimeWithIteration H fuel s 264 [263] = .ok (B, b_iter)

theorem hashesTo_iff {g : Form} : HashesTo H D challenge g ↔
    ∃ j, FirstAccepted H challenge D j ∧ generatorForm D (candidate H challenge D j) = .ok g := by
  constructor
  · rintro ⟨fuel, ii, h⟩
    obtain ⟨j, _, hfirst, _, hform⟩ := hG_eq_ok_iff.mp h
    exact ⟨j, hfirst, hform⟩
  · rintro ⟨j, hfirst, hform⟩
    exact ⟨j + 1, j + 1, hG_eq_ok_iff.mpr ⟨j, Nat.lt_succ_self j, hfirst, rfl, hform⟩⟩

theorem FirstAccepted.unique {i j : Nat} (hi : FirstAccepted H challenge D i)
    (hj : FirstAccepted H challenge D j) : i = j := by
  rcases lt_trichotomy i j with hlt | heq | hlt
  · exact absurd hi.1 (hj.2 i hlt)
  · exact heq
  · exact absurd hj.1 (hi.2 j hlt)

theorem HashesTo.unique {g g' : Form} (h : HashesTo H D challenge g)
    (h' : HashesTo H D challenge g') : g = g' := by
  obtain ⟨j, hfirst, hform⟩ := hashesTo_iff.mp h
  obtain ⟨j', hfirst', hform'⟩ := hashesTo_iff.mp h'
  obtain rfl := hfirst.unique hfirst'
  exact Except.ok.inj (hform.symm.trans hform')

theorem hashesToPrime_iff {B : Nat} : HashesToPrime H s B ↔
    ∃ j, FirstPrime H s 264 [263] j ∧ B = primeCandidate H s 264 [263] j := by
  constructor
  · rintro ⟨fuel, b_iter, h⟩
    obtain ⟨j, _, hfirst, _, hB⟩ := hashPrimeWithIteration_eq_ok_iff.mp h
    exact ⟨j, hfirst, hB⟩
  · rintro ⟨j, hfirst, hB⟩
    exact ⟨j + 1, j + 1,
      hashPrimeWithIteration_eq_ok_iff.mpr ⟨j, Nat.lt_succ_self j, hfirst, rfl, hB⟩⟩

/-- The counter is that of the first accepted candidate, or names a candidate with the same form: a
later accepted one, or a composite where that form is the identity. -/
def NamesGenerator (H : Primitives) (D challenge a_iter : Int) : Prop :=
  ∃ i j : Nat, a_iter = i + 1 ∧ FirstAccepted H challenge D j ∧
    (i = j ∨
      (Accepted H challenge D i ∧
        generatorForm D (candidate H challenge D i) = generatorForm D (candidate H challenge D j)) ∨
      (H.prime (candidate H challenge D i) = false ∧
        identity D = generatorForm D (candidate H challenge D j)))

/-- The counter does not skip the first prime, or the next one that it leaves is the same. -/
def NamesPrime (H : Primitives) (s : Bytes) (b_iter : Int) : Prop :=
  ∃ j : Nat, FirstPrime H s 264 [263] j ∧
    (b_iter ≤ j + 1 ∨ ∃ k : Nat, NextPrime H s 264 [263] b_iter k ∧
      primeCandidate H s 264 [263] k = primeCandidate H s 264 [263] j)

theorem NextPrime.unique {i j : Nat} (hi : NextPrime H s 264 [263] b_iter i)
    (hj : NextPrime H s 264 [263] b_iter j) : i = j := by
  obtain ⟨hi_le, hi_prime, hi_skipped⟩ := hi
  obtain ⟨hj_le, hj_prime, hj_skipped⟩ := hj
  rcases lt_trichotomy i j with hlt | heq | hlt
  · rw [hj_skipped i hlt hi_le] at hi_prime
    cases hi_prime
  · exact heq
  · rw [hi_skipped j hlt hj_le] at hj_prime
    cases hj_prime

theorem hashesTo_iff_names {g : Form} (h : hGFast H fuel challenge D a_iter = .ok g) :
    HashesTo H D challenge g ↔ NamesGenerator H D challenge a_iter := by
  obtain ⟨i, _, ha, hfound⟩ := hGFast_eq_ok_iff.mp h
  rw [hashesTo_iff]
  constructor
  · rintro ⟨j, hfirst, hform⟩
    refine ⟨i, j, ha, hfirst, ?_⟩
    rcases hfound with ⟨haccepted, hi⟩ | ⟨hcomposite, hidentity⟩
    · exact Or.inr (Or.inl ⟨haccepted, hi.trans hform.symm⟩)
    · exact Or.inr (Or.inr ⟨hcomposite, hidentity.trans hform.symm⟩)
  · rintro ⟨i', j, ha', hfirst, hnames⟩
    obtain rfl : i = i' := by omega
    refine ⟨j, hfirst, ?_⟩
    rcases hfound with ⟨haccepted, hi⟩ | ⟨hcomposite, hidentity⟩
    · rcases hnames with rfl | ⟨_, hsame⟩ | ⟨hcomposite, _⟩
      · exact hi
      · exact hsame.symm.trans hi
      · rw [haccepted.1] at hcomposite
        cases hcomposite
    · rcases hnames with rfl | ⟨haccepted, _⟩ | ⟨_, hsame⟩
      · rw [hfirst.1.1] at hcomposite
        cases hcomposite
      · rw [haccepted.1] at hcomposite
        cases hcomposite
      · exact hsame.symm.trans hidentity

theorem hashesToPrime_iff_names {B : Nat} (h : hashPrimeFast H fuel s 264 [263] b_iter = .ok B) :
    HashesToPrime H s B ↔ NamesPrime H s b_iter := by
  obtain ⟨k, _, hnext, hB⟩ := hashPrimeFast_eq_ok_iff.mp h
  rw [hashesToPrime_iff]
  constructor
  · rintro ⟨j, hfirst, hj⟩
    exact ⟨j, hfirst, Or.inr ⟨k, hnext, hB.symm.trans hj⟩⟩
  · rintro ⟨j, hfirst, hle | ⟨k', hnext', hsame⟩⟩
    · obtain rfl := hnext.unique (hfirst.next hle)
      exact ⟨k, hfirst, hB⟩
    · obtain rfl := hnext.unique hnext'
      exact ⟨j, hfirst, hB.trans hsame⟩

end Search

/-- The fast loops find what the full searches found, when they are told its counter, and the prime
from any smaller counter on as well. -/
theorem fast_rederivation (H : Primitives) (fuel : Nat) :
    (∀ (seed : Bytes) (length : Nat) (bitmask : List Nat) (p : Nat) (n k : Int),
      hashPrimeWithIteration H fuel seed length bitmask = .ok (p, n) → k ≤ n →
        hashPrimeFast H fuel seed length bitmask k = .ok p) ∧
    ∀ (challenge D : Int) (g : Form) (n : Int), hG H fuel challenge D = .ok (g, n) →
      hGFast H fuel challenge D n = .ok g := by
  constructor
  · intro seed length bitmask p n k h hk
    exact hashPrimeFast_of_withIteration h hk
  · intro challenge D g n h
    exact hGFast_of_hG h

theorem fast_rederivation_small :
    hashPrimeFast smallHashes 2 [5] 264 [263] 0 = .ok (2 ^ 263 + 12545) ∧
      hGFast smallHashes 2 0 (-23) 2 = .ok ⟨2, -1, 3⟩ := by
  obtain ⟨hprime, hform⟩ := fast_rederivation smallHashes 2
  constructor
  · exact hprime [5] 264 [263] (2 ^ 263 + 12545) 1 0 (by decide +kernel) (by decide)
  · exact hform 0 (-23) ⟨2, -1, 3⟩ 2 (by decide +kernel)

/-! ### What an accepted proof is bound to -/

section Verifier

variable {ops : ClassGroupOps} {H : Primitives} {bqfcSerialize : Int → Int → Nat → Bytes}
  {fuel num_iterations nthreads : Nat} {D b_iter : Int} {challenge_integers a_iters : List Int}
  {ys : List Form} {proof : Form}

/-- `gs`, `s` and `B` of `VerifyAggProof` -/
def verifierInputs (H : Primitives) (bqfcSerialize : Int → Int → Nat → Bytes) (fuel : Nat) (D : Int)
    (challenge_integers : List Int) (ys : List Form) (nthreads : Nat) (a_iters : List Int)
    (b_iter : Int) : Except PyError (List Form × Bytes × Nat) := do
  let gs ← threadGenerators H fuel D challenge_integers a_iters nthreads
  let (s, _, _) ← serializeAll bqfcSerialize challenge_integers.length (numBits D) gs ys
  let B ← hashPrimeFast H fuel s 264 [263] b_iter
  return (gs, s, B)

/-- The generators are those of `H_G`, and the prime is that of `HashPrimeWithIteration`. -/
def Bound (H : Primitives) (bqfcSerialize : Int → Int → Nat → Bytes) (fuel : Nat) (D : Int)
    (challenge_integers : List Int) (ys : List Form) (nthreads : Nat) (a_iters : List Int)
    (b_iter : Int) : Prop :=
  ∃ gs s B, verifierInputs H bqfcSerialize fuel D challenge_integers ys nthreads a_iters b_iter =
      .ok (gs, s, B) ∧
    List.Forall₂ (HashesTo H D) challenge_integers gs ∧ HashesToPrime H s B

/-- Every counter names what the full search finds. -/
structure Named (H : Primitives) (bqfcSerialize : Int → Int → Nat → Bytes) (D : Int)
    (challenge_integers : List Int) (ys : List Form) (a_iters : List Int) (b_iter : Int) : Prop where
  generators : ∀ (i : Nat) (challenge a_iter : Int), challenge_integers[i]? = some challenge →
    a_iters[i]? = some a_iter → NamesGenerator H D challenge a_iter
  prime : ∀ gs s forms, List.Forall₂ (HashesTo H D) challenge_integers gs →
    serializeAll bqfcSerialize challenge_integers.length (numBits D) gs ys = .ok (s, forms) →
      NamesPrime H s b_iter

theorem exists_verifierInputs
    (haccept : verifyAggProof ops H bqfcSerialize fuel D challenge_integers ys proof num_iterations
      nthreads a_iters b_iter = .ok true) :
    ∃ gs s forms B, threadGenerators H fuel D challenge_integers a_iters nthreads = .ok gs ∧
      serializeAll bqfcSerialize challenge_integers.length (numBits D) gs ys = .ok (s, forms) ∧
      hashPrimeFast H fuel s 264 [263] b_iter = .ok B ∧
      verifierInputs H bqfcSerialize fuel D challenge_integers ys nthreads a_iters b_iter =
        .ok (gs, s, B) := by
  obtain ⟨n, hn, haccept⟩ := bind_eq_ok_iff.mp haccept
  obtain ⟨_, rfl⟩ := counter_eq_ok_iff.mp hn
  obtain ⟨gs, hgs, haccept⟩ := bind_eq_ok_iff.mp haccept
  obtain ⟨⟨s, gs', ys'⟩, hs, haccept⟩ := bind_eq_ok_iff.mp haccept
  obtain ⟨B, hB, _⟩ := bind_eq_ok_iff.mp haccept
  exact ⟨gs, s, (gs', ys'), B, hgs, hs, hB,
    bind_eq_of_ok hgs (bind_eq_of_ok hs (bind_eq_of_ok hB rfl))⟩

theorem generators_of_serializeAll {gs : List Form} {s : Bytes} {forms : List Form × List Form}
    (hgs : threadGenerators H fuel D challenge_integers a_iters nthreads = .ok gs)
    (hs : serializeAll bqfcSerialize challenge_integers.length (numBits D) gs ys = .ok (s, forms)) :
    (List.range challenge_integers.length).mapM
      (generatorAt H fuel D challenge_integers a_iters) = .ok gs := by
  rcases Nat.eq_zero_or_pos nthreads with rfl | hpos
  · obtain ⟨n, hn, hgs⟩ := bind_eq_ok_iff.mp hgs
    obtain ⟨_, rfl⟩ := counter_eq_ok_iff.mp hn
    cases hgs
    rcases challenge_integers with _ | ⟨challenge, challenge_integers⟩
    · rfl
    · obtain ⟨parts, hparts, _⟩ := bind_eq_ok_iff.mp hs
      rw [List.length_cons, List.range_succ_eq_map, List.mapM_cons] at hparts
      obtain ⟨part, hpart, _⟩ := bind_eq_ok_iff.mp hparts
      obtain ⟨g, hg, hpart⟩ := bind_eq_ok_iff.mp hpart
      obtain ⟨y, _, hpart⟩ := bind_eq_ok_iff.mp hpart
      cases need_eq_ok_iff.mp hg
      cases hpart
  · rw [threadGenerators_eq _ _ hpos] at hgs
    split_ifs at hgs
    exact hgs

theorem forall_generatorAt {gs : List Form}
    (hgs : (List.range challenge_integers.length).mapM
      (generatorAt H fuel D challenge_integers a_iters) = .ok gs) :
    gs.length = challenge_integers.length ∧
      ∀ (i : Nat) (hi : i < challenge_integers.length) (hi_gs : i < gs.length),
        ∃ a_iter, a_iters[i]? = some a_iter ∧
          hGFast H fuel challenge_integers[i] D a_iter = .ok gs[i] := by
  obtain ⟨hlen, hget⟩ := List.forall₂_iff_get.mp (mapM_eq_ok_iff.mp hgs)
  rw [List.length_range] at hlen
  refine ⟨hlen.symm, ?_⟩
  intro i hi hi_gs
  obtain ⟨challenge, hchallenge, hg⟩ := bind_eq_ok_iff.mp
    (hget i (by rwa [List.length_range]) hi_gs)
  obtain ⟨a_iter, ha_iter, hg⟩ := bind_eq_ok_iff.mp hg
  rw [need_eq_ok_iff, List.get_eq_getElem, List.getElem_range] at hchallenge ha_iter
  rw [List.getElem?_eq_getElem hi] at hchallenge
  cases hchallenge
  exact ⟨a_iter, ha_iter, hg⟩

/-- An accepted proof is bound to its challenges exactly when its counters name what the full
searches find. -/
theorem bound_iff_named
    (haccept : verifyAggProof ops H bqfcSerialize fuel D challenge_integers ys proof num_iterations
      nthreads a_iters b_iter = .ok true) :
    Bound H bqfcSerialize fuel D challenge_integers ys nthreads a_iters b_iter ↔
      Named H bqfcSerialize D challenge_integers ys a_iters b_iter := by
  obtain ⟨gs, s, forms, B, hthreads, hs, hB, hinputs⟩ := exists_verifierInputs haccept
  obtain ⟨hlen, hgs⟩ := forall_generatorAt (generators_of_serializeAll hthreads hs)
  constructor
  · rintro ⟨gs', s', B', hinputs', hhash, hprime⟩
    rw [hinputs] at hinputs'
    cases hinputs'
    constructor
    · intro i challenge a_iter hchallenge ha_iter
      obtain ⟨hi, rfl⟩ := List.getElem?_eq_some_iff.mp hchallenge
      have hi_gs : i < gs.length := by rwa [hlen]
      obtain ⟨a_iter', ha_iter', hfast⟩ := hgs i hi hi_gs
      rw [ha_iter] at ha_iter'
      cases ha_iter'
      exact (hashesTo_iff_names hfast).mp (hhash.get hi hi_gs)
    · intro gs' s' forms' hhash' hs'
      have hsame : gs = gs' := by
        refine List.ext_get (hhash.length_eq.symm.trans hhash'.length_eq) ?_
        intro i hi hi'
        have hi_challenge : i < challenge_integers.length := by rwa [hhash.length_eq]
        exact (hhash.get hi_challenge hi).unique (hhash'.get hi_challenge hi')
      rw [← hsame, hs] at hs'
      cases hs'
      exact (hashesToPrime_iff_names hB).mp hprime
  · rintro ⟨hgenerators, hnames⟩
    have hhash : List.Forall₂ (HashesTo H D) challenge_integers gs := by
      refine List.forall₂_iff_get.mpr ⟨hlen.symm, ?_⟩
      intro i hi hi_gs
      obtain ⟨a_iter, ha_iter, hfast⟩ := hgs i hi hi_gs
      exact (hashesTo_iff_names hfast).mpr
        (hgenerators i _ a_iter (List.getElem?_eq_getElem hi) ha_iter)
    exact ⟨gs, s, B, hinputs, hhash, (hashesToPrime_iff_names hB).mpr (hnames gs s forms hhash hs)⟩

/-- The honest counters of the challenges `0` and `1`. -/
theorem bound_iff_named_23 :
    Bound smallHashes twoBytes 2 (-23) [0, 1] [⟨2, 1, 3⟩, ⟨2, 1, 3⟩] 3 [2, 1] 1 ↔
      Named smallHashes twoBytes (-23) [0, 1] [⟨2, 1, 3⟩, ⟨2, 1, 3⟩] [2, 1] 1 := by
  have haccept : verifyAggProof (plainOps euclid) smallHashes twoBytes 2 (-23) [0, 1]
      [⟨2, 1, 3⟩, ⟨2, 1, 3⟩] ⟨1, 1, 6⟩ 3 3 [2, 1] 1 = .ok true := by decide +kernel
  exact bound_iff_named haccept

/-- The first counter of the challenge `0` names the composite `15`: any statement about the
identity is then accepted, while `H_G` returns a form of order three. -/
theorem identity_accepted :
    verifyAggProof (plainOps euclid) smallHashes twoBytes 2 (-23) [0] [⟨1, 1, 6⟩] ⟨1, 1, 6⟩ 3 4 [1] 1 =
        .ok true ∧
      ¬ Bound smallHashes twoBytes 2 (-23) [0] [⟨1, 1, 6⟩] 4 [1] 1 := by
  constructor
  · decide +kernel
  · rintro ⟨gs, s, B, hinputs, hhash, _⟩
    have hrun : verifierInputs smallHashes twoBytes 2 (-23) [0] [⟨1, 1, 6⟩] 4 [1] 1 =
        .ok ([⟨1, 1, 6⟩], [1, 1, 1, 1], 2 ^ 263 + 12545) := by decide +kernel
    rw [hrun] at hinputs
    cases hinputs
    have hhonest : HashesTo smallHashes (-23) 0 ⟨2, -1, 3⟩ := ⟨2, 2, by decide +kernel⟩
    rw [List.forall₂_cons] at hhash
    exact absurd (hhash.1.unique hhonest) (by decide)

end Verifier

end Lootbox.Chiavdf
