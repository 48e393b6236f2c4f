import Lootbox.Base.Stitching
import Lootbox.Commitment.IdealCommitments

/-!
# `geo_seq`: what the geometric sequence test asks of a polynomial

The virtual oracle lets the ratio fail only at the ends of the sequences, and what is opened are
their first values; so the values along the domain are the stitched sequences.
-/

namespace Lootbox.FunctionRelation

open Stitching ZeroOverK
open ProofOfFunctionRelation (element_one_pow element_one_mul element_size)
open ProofOfFunctionRelation.GeoSeqTest (sequenceStartingIndices)

variable {F R : Type} [Field F] [DecidableEq F]

namespace GeoSeqTest

/-- The inner loop of `naive_verify`; nothing where it returns `false`. -/
def naiveVerifySequence (seq : List F) (r a : F) : Nat → F → Nat → Except Error (Option Nat)
  | 0, _, i => .ok (some i)
  | count + 1, r_pow, i => do
    let value ← nth seq i
    if a * r_pow ≠ value then return none
    else naiveVerifySequence seq r a count (r * r_pow) (i + 1)

def naiveVerifyLoop (seq : List F) (r : F) : List (F × Nat) → Nat → Except Error Bool
  | [], _ => .ok true
  | (a, c) :: sequences, i => do
    match ← naiveVerifySequence seq r a c 1 i with
    | some i => naiveVerifyLoop seq r sequences i
    | none => return false

def naiveVerify (seq : List F) (r : F) (a_s : List F) (c_s : List Nat) : Except Error Bool :=
  if a_s.length ≠ c_s.length then .ok false
  else if c_s.foldl (· + ·) 0 ≠ seq.length then .ok false
  else naiveVerifyLoop seq r (a_s.zip c_s) 0

end GeoSeqTest

/-! ### The naive check -/

section Naive

variable {r : F}

/-- `length` terms of the sequence from `a` on. -/
def terms (r a : F) (length : Nat) : List F := (List.range length).map fun i => a * r ^ i

omit [DecidableEq F] in
theorem terms_succ (r a : F) (length : Nat) :
    terms r a (length + 1) = a :: terms r (a * r) length := by
  rw [terms, List.range_succ_eq_map, List.map_cons, pow_zero, mul_one, List.map_map, terms]
  congr 1
  apply List.map_congr_left
  intro i _
  rw [Function.comp_apply, pow_succ']
  ring

omit [DecidableEq F] in
theorem length_terms (r a : F) (length : Nat) : (terms r a length).length = length := by
  rw [terms, List.length_map, List.length_range]

theorem naiveVerifySequence_eq (pre rest : List F) (a r_pow : F) {c : Nat} (hc : c ≤ rest.length) :
    GeoSeqTest.naiveVerifySequence (pre ++ rest) r a c r_pow pre.length =
      .ok (if rest.take c = terms r (a * r_pow) c then some (pre.length + c) else none) := by
  induction c generalizing pre rest r_pow with
  | zero => rfl
  | succ c ih =>
    cases rest with
    | nil => cases hc
    | cons value rest =>
      have hnth : nth (pre ++ value :: rest) pre.length = .ok value := by
        rw [nth, List.getElem?_append_right le_rfl, Nat.sub_self]
        rfl
      rw [GeoSeqTest.naiveVerifySequence, hnth, ok_bind, List.take_succ_cons, terms_succ]
      by_cases hvalue : a * r_pow = value
      · have hstep := ih (pre ++ [value]) rest (r * r_pow) (Nat.le_of_succ_le_succ hc)
        rw [List.append_assoc, List.singleton_append, List.length_append, List.length_singleton] at hstep
        have hpow : a * (r * r_pow) = value * r := by
          rw [← hvalue]
          ring
        rw [if_neg (not_not.mpr hvalue), hstep, hvalue, hpow, Nat.add_assoc, Nat.add_comm 1 c]
        simp only [List.cons.injEq, true_and]
      · rw [if_pos hvalue, if_neg]
        · rfl
        · intro heq
          exact hvalue (List.cons.inj heq).1.symm

theorem naiveVerifyLoop_eq (pre rest : List F) (sequences : List (F × Nat))
    (hlen : rest.length = (sequences.map Prod.snd).sum) :
    GeoSeqTest.naiveVerifyLoop (pre ++ rest) r sequences pre.length =
      .ok (decide (rest = sequences.flatMap fun e => terms r e.1 e.2)) := by
  induction sequences generalizing pre rest with
  | nil =>
    obtain rfl : rest = [] := List.length_eq_zero_iff.mp hlen
    rfl
  | cons e sequences ih =>
    obtain ⟨a, c⟩ := e
    rw [List.map_cons, List.sum_cons] at hlen
    have hc : c ≤ rest.length := by omega
    rw [GeoSeqTest.naiveVerifyLoop, naiveVerifySequence_eq pre rest a 1 hc, mul_one, ok_bind,
      List.flatMap_cons]
    by_cases htake : rest.take c = terms r a c
    · have hstep := ih (pre ++ rest.take c) (rest.drop c) (by
        rw [List.length_drop]
        omega)
      rw [List.append_assoc, List.take_append_drop, List.length_append, List.length_take,
        Nat.min_eq_left hc] at hstep
      have hsplit : ∀ others, rest.drop c = others ↔ rest = terms r a c ++ others := by
        intro others
        constructor
        · intro h
          rw [← htake, ← h, List.take_append_drop]
        · intro h
          rw [h]
          exact List.drop_left' (length_terms r a c)
      rw [if_pos htake]
      dsimp only
      rw [hstep, decide_eq_decide.mpr (hsplit _)]
    · have hne : rest ≠ terms r a c ++ sequences.flatMap fun e => terms r e.1 e.2 := by
        intro heq
        apply htake
        rw [heq]
        exact List.take_left' (length_terms r a c)
      rw [if_neg htake, decide_eq_false hne]
      rfl

theorem naiveVerify_iff {seq a_s : List F} {c_s : List Nat} (hlen : a_s.length = c_s.length)
    (hsum : c_s.sum = seq.length) : GeoSeqTest.naiveVerify seq r a_s c_s = .ok true ↔
      seq = (a_s.zip c_s).flatMap fun e => terms r e.1 e.2 := by
  have hsnd : (a_s.zip c_s).map Prod.snd = c_s := List.map_snd_zip (Nat.le_of_eq hlen.symm)
  have hloop := naiveVerifyLoop_eq (r := r) [] seq (a_s.zip c_s) (by rw [hsnd, hsum])
  rw [List.nil_append, List.length_nil] at hloop
  rw [GeoSeqTest.naiveVerify, if_neg (not_not.mpr hlen), ← List.sum_eq_foldl,
    if_neg (not_not.mpr hsum), hloop, Except.ok.injEq, decide_eq_true_iff]

end Naive

/-! ### The generator -/

section Generator

variable {domain : EvaluationDomain F} {r : F} {a_s : List F} {c_s : List Nat}
  {f : DensePolynomial F}

omit [DecidableEq F] in
theorem generateSequence_eq (hlen : a_s.length = c_s.length) (hne : a_s ≠ []) :
    generateSequence r a_s c_s = .ok ((a_s.zip c_s).flatMap fun e => terms r e.1 e.2) := by
  have hcond : ¬ (a_s.length = 0 ∨ c_s.length ≠ a_s.length) := by
    rw [not_or, not_not]
    exact ⟨fun h => hne (List.length_eq_zero_iff.mp h), hlen.symm⟩
  rw [generateSequence, if_neg hcond]
  rfl

omit [DecidableEq F] in
theorem evaluations_eq_iff (hlen : a_s.length = c_s.length) (hsum : c_s.sum = domain.size) :
    (domain.elements.map f.evaluate = (a_s.zip c_s).flatMap fun e => terms r e.1 e.2) ↔
      ∀ e ∈ spans 0 a_s c_s, ∀ t < e.2.2,
        f.evaluate (domain.element (e.1 + t)) = e.2.1 * r ^ t := by
  have hvalues : _ ↔ ∀ e ∈ spans 0 a_s c_s, _ :=
    map_range_eq_flatMap_iff hlen (fun j => f.evaluate (domain.element j)) fun a t => a * r ^ t
  rw [EvaluationDomain.elements, List.map_map, ← hsum, ← hvalues]
  simp only [Nat.zero_add]
  rfl

end Generator

/-! ### The virtual oracle -/

section Vanishing

variable {domain : EvaluationDomain F} {r : F} {a_s : List F} {c_s : List Nat}
  {f : DensePolynomial F}

omit [DecidableEq F] in
theorem geometricSeqCheck_hasTerm (gamma : F) (lengths : List Nat) :
    (CombineFunction.geometricSeqCheck r gamma lengths).hasTerm = true := by
  have hfold : ∀ (lengths : List Nat) (evaluation_function : CombineFunction F) (start : Nat),
      evaluation_function.hasTerm = true →
      (lengths.foldl (fun check length =>
        (.mul check.1 (CombineFunction.stitch gamma check.2 length), check.2 + length))
        (evaluation_function, start)).1.hasTerm = true := by
    intro lengths
    induction lengths with
    | nil => exact fun _ _ h => h
    | cons length lengths ih =>
      intro evaluation_function start h
      apply ih
      rw [CombineFunction.hasTerm, h, Bool.true_or]
  exact hfold lengths _ 0 rfl

omit [DecidableEq F] in
theorem stitch_value_eq_zero_iff {start len j : Nat} (hlen : 0 < start + len)
    (hend : start + len ≤ domain.size) (hj : j < domain.size) {values : Nat → F}
    (hvalues : values 0 = domain.element j) :
    (CombineFunction.stitch (domain.element 1) start len).value values = 0 ↔ j + 1 = start + len := by
  constructor
  · intro h
    rw [CombineFunction.stitch, CombineFunction.value, CombineFunction.value, CombineFunction.value,
      hvalues, if_neg (by omega), element_one_pow, sub_eq_zero] at h
    have := domain.element_injective hj (by omega) h
    omega
  · intro h
    exact ProofOfFunctionRelation.stitch_value_eq_zero domain h.symm values hvalues

/-- The virtual oracle vanishes where the ratio fails at the ends of the sequences only. -/
theorem geoSeq_vanishesOn_iff (hlen : a_s.length = c_s.length) (hpos : ∀ c ∈ c_s, 0 < c)
    (hsum : c_s.sum = domain.size) :
    (shiftVO (domain.element 1) (CombineFunction.geometricSeqCheck r (domain.element 1)
      c_s)).VanishesOn [f] domain ↔
      ∀ j < domain.size, f.evaluate (domain.element (j + 1)) = r * f.evaluate (domain.element j) ∨
        ∃ e ∈ spans 0 a_s c_s, j + 1 = e.1 + e.2.2 := by
  have halpha : domain.element 1 ≠ 0 := pow_ne_zero 1 domain.groupGen_ne_zero
  rw [shiftVO_vanishesOn_iff halpha
    (ProofOfFunctionRelation.geometricSeqCheck_termsBelow r _ _) (geometricSeqCheck_hasTerm _ _),
    EvaluationDomain.elements, List.forall_mem_map]
  simp only [List.mem_range]
  apply forall₂_congr
  intro j hj
  rw [ProofOfFunctionRelation.geometricSeqCheck_value, sequenceStartingIndices,
    zip_eq_map_spans hlen]
  simp only [List.getD_cons_succ, List.getD_cons_zero, element_one_mul, List.mem_map,
    exists_exists_and_eq_and]
  apply or_congr_right
  apply exists_congr
  intro e
  apply and_congr_right
  intro he
  have hbounds := bounds_of_mem he
  have hc : 0 < e.2.2 := length_pos_of_mem hpos he
  exact stitch_value_eq_zero_iff (by omega) (by omega) hj rfl

end Vanishing

/-! ### The openings -/

section Openings

variable {domain : EvaluationDomain F} {a_s : List F} {c_s : List Nat} {f : DensePolynomial F}

omit [DecidableEq F] in
theorem points_eq (hlen : a_s.length = c_s.length) (hsum : c_s.sum = domain.size) :
    GeoSeqTest.points c_s domain =
      (spans 0 a_s c_s).map (fun e => domain.element e.1) ++ [1] := by
  have hone : domain.element 0 = 1 := pow_zero domain.groupGen
  rw [GeoSeqTest.points, sequenceStartingIndices, scanl_eq_spans hlen, List.map_append, List.map_map,
    List.map_singleton, Nat.zero_add, hsum, element_one_pow, element_size, hone]
  congr 1
  exact List.map_congr_left fun e _ => element_one_pow domain e.1

omit [DecidableEq F] in
theorem openings_eq (hlen : a_s.length = c_s.length) :
    (GeoSeqTest.points c_s domain).zip a_s =
      (spans 0 a_s c_s).map fun e => (domain.element e.1, e.2.1) := by
  rw [GeoSeqTest.points, sequenceStartingIndices, List.zip_map_left, zip_labels_eq_map_spans hlen,
    List.map_map]
  apply List.map_congr_left
  intro e _
  rw [Function.comp_apply, Prod.map_apply, element_one_pow]
  rfl

omit [Field F] in
theorem lookup_reverse_of_nodup {l : List (F × F)} (hnodup : (l.map Prod.fst).Nodup) {k v : F}
    (h : (k, v) ∈ l) : l.reverse.lookup k = some v := by
  obtain ⟨pre, post, hl⟩ := List.append_of_mem (List.mem_reverse.mpr h)
  refine List.lookup_eq_some_iff.mpr ⟨pre, post, hl, ?_⟩
  have hnodup' : (l.reverse.map Prod.fst).Nodup := by
    rw [List.map_reverse]
    exact List.nodup_reverse.mpr hnodup
  rw [hl, List.map_append, List.map_cons, List.nodup_append] at hnodup'
  intro e he
  have hne := hnodup'.2.2 e.1 (List.mem_map_of_mem he) k List.mem_cons_self
  exact bne_iff_ne.mpr hne.symm

theorem lookup_openings (hlen : a_s.length = c_s.length) (hpos : ∀ c ∈ c_s, 0 < c)
    (hsum : c_s.sum = domain.size) {e : Nat × F × Nat} (he : e ∈ spans 0 a_s c_s) :
    ((GeoSeqTest.points c_s domain).zip a_s).reverse.lookup (domain.element e.1) = some e.2.1 := by
  have hlt : ∀ e ∈ spans 0 a_s c_s, e.1 < domain.size := by
    intro e he
    have hbounds := bounds_of_mem he
    have hc := length_pos_of_mem hpos he
    omega
  rw [openings_eq hlen]
  apply lookup_reverse_of_nodup
  · rw [List.map_map]
    refine List.pairwise_map.mpr ((spans_pairwise hpos).imp_of_mem ?_)
    intro e e' he he' hless heq
    have := domain.element_injective (hlt e he) (hlt e' he') heq
    omega
  · exact List.mem_map_of_mem he

theorem geoSeq_openings_iff (hlen : a_s.length = c_s.length) (hpos : ∀ c ∈ c_s, 0 < c)
    (hsum : c_s.sum = domain.size) :
    (∀ point ∈ GeoSeqTest.points c_s domain,
      ((GeoSeqTest.points c_s domain).zip a_s).reverse.lookup point = some (f.evaluate point)) ↔
      ∀ e ∈ spans 0 a_s c_s, f.evaluate (domain.element e.1) = e.2.1 := by
  constructor
  · intro h e he
    have hmem : domain.element e.1 ∈ GeoSeqTest.points c_s domain := by
      rw [points_eq hlen hsum]
      exact List.mem_append_left _ (List.mem_map_of_mem he)
    have hlookup := h _ hmem
    rw [lookup_openings hlen hpos hsum he, Option.some.injEq] at hlookup
    exact hlookup.symm
  · intro h point hpoint
    have hstart : ∃ e ∈ spans 0 a_s c_s, point = domain.element e.1 := by
      rw [points_eq hlen hsum, List.mem_append, List.mem_map, List.mem_singleton] at hpoint
      rcases hpoint with ⟨e, he, rfl⟩ | rfl
      · exact ⟨e, he, rfl⟩
      · have hsize := domain.size_pos
        obtain ⟨e, he, t, _, ht⟩ := exists_mem_spans hlen (Nat.zero_le 0) (by omega)
        have hzero : e.1 = 0 := by omega
        exact ⟨e, he, by rw [hzero, EvaluationDomain.element, pow_zero]⟩
    obtain ⟨e, he, rfl⟩ := hstart
    rw [lookup_openings hlen hpos hsum he, h e he]

end Openings

/-! ### The test -/

section Test

variable (setup : IdealSetup F R) {bound : Option Nat} {domain : EvaluationDomain F} {r : F}
  {a_s : List F} {c_s : List Nat} {f : DensePolynomial F}

theorem geoSeq_values_iff (hlen : a_s.length = c_s.length) (hpos : ∀ c ∈ c_s, 0 < c)
    (hsum : c_s.sum = domain.size) :
    (shiftVO (domain.element 1) (CombineFunction.geometricSeqCheck r (domain.element 1)
        c_s)).VanishesOn [f] domain ∧
      (∀ e ∈ spans 0 a_s c_s, f.evaluate (domain.element e.1) = e.2.1) ↔
    ∀ e ∈ spans 0 a_s c_s, ∀ t < e.2.2, f.evaluate (domain.element (e.1 + t)) = e.2.1 * r ^ t := by
  let value (a : F) (t : Nat) := a * r ^ t
  have hnext : ∀ a t, value a (t + 1) = r * value a t := by
    intro a t
    dsimp only [value]
    rw [pow_succ]
    ring
  have hstep : _ ↔ ∀ e ∈ spans 0 a_s c_s, _ :=
    forall_step_iff hlen hpos (fun j => f.evaluate (domain.element j)) hnext
  rw [← hstep, geoSeq_vanishesOn_iff hlen hpos hsum, hsum]
  simp only [value, Nat.zero_le, Nat.zero_add, pow_zero, mul_one, forall_true_left]

omit [DecidableEq F] in
theorem geoSeq_vo_eq (r : F) (c_s : List Nat) (domain : EvaluationDomain F) :
    GeoSeqTest.vo r c_s domain =
      .ok (shiftVO (domain.element 1) (CombineFunction.geometricSeqCheck r (domain.element 1) c_s)) :=
  newVO_eq_ok _ (by rfl) (by rfl)

theorem GeoSeqTest.verify_iff_checks {c : LabeledCommitment (DensePolynomial F)}
    {proof : GeoSeqTest.Proof (ZeroOverK.Proof F) Unit} :
    GeoSeqTest.verify (idealScheme setup) r a_s c_s domain c bound proof = .ok () ↔
      (shiftVO (domain.element 1) (CombineFunction.geometricSeqCheck r (domain.element 1)
        c_s)).VanishesOn [c.commitment] domain ∧
      ∀ point ∈ GeoSeqTest.points c_s domain,
        ((GeoSeqTest.points c_s domain).zip a_s).reverse.lookup point =
          some (c.commitment.evaluate point) := by
  have hvanish : (idealScheme setup).verifyZeroOverK proof.zProof [c.bounded bound] bound
      (shiftVO (domain.element 1) (CombineFunction.geometricSeqCheck r (domain.element 1) c_s))
        domain = .ok () ↔
      (shiftVO (domain.element 1) (CombineFunction.geometricSeqCheck r (domain.element 1)
        c_s)).VanishesOn [c.commitment] domain :=
    verifyZeroOverK_eq_ok_iff setup
  rw [GeoSeqTest.verify, geoSeq_vo_eq, ok_bind]
  by_cases hopen : ∀ point ∈ GeoSeqTest.points c_s domain,
      ((GeoSeqTest.points c_s domain).zip a_s).reverse.lookup point =
        some (c.commitment.evaluate point)
  · have hcheck : (idealScheme setup).batchCheck (c.bounded bound) (GeoSeqTest.points c_s domain)
        ((GeoSeqTest.points c_s domain).zip a_s) proof.openingProof
        ((idealScheme setup).initializeAndRand
          (GeoSeqTest.fsBytes (idealScheme setup) r a_s c_s domain c)) = .ok true :=
      congrArg Except.ok (decide_eq_true hopen)
    dsimp only
    rw [hcheck, and_iff_left hopen]
    exact hvanish
  · have hcheck : (idealScheme setup).batchCheck (c.bounded bound) (GeoSeqTest.points c_s domain)
        ((GeoSeqTest.points c_s domain).zip a_s) proof.openingProof
        ((idealScheme setup).initializeAndRand
          (GeoSeqTest.fsBytes (idealScheme setup) r a_s c_s domain c)) = .ok false :=
      congrArg Except.ok (decide_eq_false hopen)
    dsimp only
    rw [hcheck]
    constructor
    · intro h
      cases h
    · exact fun h => absurd h.2 hopen

theorem GeoSeqTest.verify_iff_values (hlen : a_s.length = c_s.length) (hpos : ∀ c ∈ c_s, 0 < c)
    (hsum : c_s.sum = domain.size) {c : LabeledCommitment (DensePolynomial F)}
    {proof : GeoSeqTest.Proof (ZeroOverK.Proof F) Unit} :
    GeoSeqTest.verify (idealScheme setup) r a_s c_s domain c bound proof = .ok () ↔
      domain.elements.map c.commitment.evaluate =
        (a_s.zip c_s).flatMap fun e => terms r e.1 e.2 := by
  rw [GeoSeqTest.verify_iff_checks, geoSeq_openings_iff hlen hpos hsum,
    geoSeq_values_iff hlen hpos hsum, evaluations_eq_iff hlen hsum]

omit [DecidableEq F] in
theorem ne_nil_of_sum (hlen : a_s.length = c_s.length)
    (hsum : c_s.sum = domain.size) : a_s ≠ [] := by
  rintro rfl
  obtain rfl : c_s = [] := List.length_eq_zero_iff.mp hlen.symm
  have hsize := domain.size_pos
  rw [← hsum, List.sum_nil] at hsize
  exact absurd hsize (Nat.lt_irrefl 0)

theorem GeoSeqTest.accepts_iff_generated (hlen : a_s.length = c_s.length)
    (hpos : ∀ c ∈ c_s, 1 ≤ c) (hsum : c_s.sum = domain.size) :
    ((((∃ vo, GeoSeqTest.vo r c_s domain = .ok vo ∧ vo.VanishesOn [f] domain) ∧
          ∀ j a, a_s[j]? = some a → f.evaluate (domain.element 1 ^ (c_s.take j).sum) = a) ↔
        generateSequence r a_s c_s = .ok (domain.elements.map f.evaluate)) ∧
      (generateSequence r a_s c_s = .ok (domain.elements.map f.evaluate) ↔
        GeoSeqTest.naiveVerify (domain.elements.map f.evaluate) r a_s c_s = .ok true)) ∧
      GeoSeqTest.points c_s domain =
        ((List.range a_s.length).map fun j => domain.element 1 ^ (c_s.take j).sum) ++ [1] := by
  have hgenerated : generateSequence r a_s c_s = .ok (domain.elements.map f.evaluate) ↔
      domain.elements.map f.evaluate = (a_s.zip c_s).flatMap fun e => terms r e.1 e.2 := by
    rw [generateSequence_eq hlen (ne_nil_of_sum hlen hsum), Except.ok.injEq]
    exact eq_comm
  have hstarts : (∀ e ∈ spans 0 a_s c_s, f.evaluate (domain.element e.1) = e.2.1) ↔ _ :=
    forall_starts_iff hlen (P := fun start a => f.evaluate (domain.element start) = a)
  have hsize : c_s.sum = (domain.elements.map f.evaluate).length := by
    rw [hsum, EvaluationDomain.elements, List.length_map, List.length_map, List.length_range]
  refine ⟨⟨?_, ?_⟩, ?_⟩
  · rw [hgenerated, evaluations_eq_iff hlen hsum, ← geoSeq_values_iff hlen hpos hsum, hstarts]
    simp only [geoSeq_vo_eq, Except.ok.injEq, exists_eq_left', element_one_pow, Nat.zero_add]
  · rw [hgenerated, naiveVerify_iff hlen hsize]
  · have hfst : (spans 0 a_s c_s).map (fun e => domain.element e.1) =
        ((spans 0 a_s c_s).map Prod.fst).map domain.element := by
      rw [List.map_map]
      rfl
    rw [points_eq hlen hsum, hfst, map_fst_spans hlen, List.map_map]
    congr 1
    apply List.map_congr_left
    intro j _
    rw [Function.comp_apply, Nat.zero_add, element_one_pow]

end Test

section Units

open ProofOfFunctionRelation (primitive_two)

theorem primitive_one_add_one : IsPrimitiveRoot (1 + 1 : ZMod 5) 4 := by
  rw [one_add_one_eq_two]
  exact primitive_two

def units5 : EvaluationDomain (ZMod 5) where
  size := 4
  groupGen := 1 + 1
  size_pos := Nat.succ_pos 3
  primitive := primitive_one_add_one

/-- The identity takes the values `1` and then `2, 4, 3` on the units: a sequence of one term and one
of three, of ratio `2`. -/
theorem GeoSeqTest.accepts_iff_generated_units :
    ((((∃ vo, GeoSeqTest.vo 2 [1, 3] units5 = .ok vo ∧ vo.VanishesOn [⟨[0, 1]⟩] units5) ∧
          ∀ j a, [(1 : ZMod 5), 2][j]? = some a →
            (⟨[0, 1]⟩ : DensePolynomial (ZMod 5)).evaluate
              (units5.element 1 ^ (([1, 3] : List Nat).take j).sum) = a) ↔
        generateSequence 2 [1, 2] [1, 3] =
          .ok (units5.elements.map (DensePolynomial.evaluate ⟨[0, 1]⟩))) ∧
      (generateSequence 2 [1, 2] [1, 3] =
          .ok (units5.elements.map (DensePolynomial.evaluate ⟨[0, 1]⟩)) ↔
        GeoSeqTest.naiveVerify (units5.elements.map (DensePolynomial.evaluate ⟨[0, 1]⟩)) 2 [1, 2]
          [1, 3] = .ok true)) ∧
      GeoSeqTest.points [1, 3] units5 =
        ((List.range [(1 : ZMod 5), 2].length).map fun j =>
          units5.element 1 ^ (([1, 3] : List Nat).take j).sum) ++ [1] :=
  GeoSeqTest.accepts_iff_generated (by decide) (by decide) (by decide)

end Units

end Lootbox.FunctionRelation
