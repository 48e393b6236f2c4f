import Lootbox.Commitment.FunctionalTriple
import Lootbox.Commitment.DiagonalTest
import Lootbox.Commitment.RationalSumcheck

/-!
# `functional_commitment`: committing to a function

A compiled circuit is indexed, its matrices are committed to, and the functional triple is
proved. For circuits of ordered calls the proof exists and is accepted.
-/

namespace Lootbox.FunctionRelation

open AcCompiler IndexPrivateMarlin ZeroOverK

section Program

variable {F C Rand ZP OP R : Type} [Field F] [DecidableEq F]

/-- `AHPForR1CS::max_degree`, the degree that the keys are trimmed to. -/
def maxDegree (info : R1CSfIndex) : Nat :=
  let zk_bound := 1
  let domain_h_size := 2 ^ Nat.clog 2 info.numberOfConstraints
  let domain_k_size := 2 ^ Nat.clog 2 info.numberOfNonZeroEntries
  max (3 * domain_h_size + 2 * zk_bound - 1) (6 * domain_k_size + 7)

def matrixPolynomials (mPrefix : String) (arith : MatrixArithmetization F) (degree_bound : Option Nat) :
    List (LabeledPolynomial F) :=
  [⟨mPrefix ++ "_row", arith.row, degree_bound⟩, ⟨mPrefix ++ "_col", arith.col, degree_bound⟩,
    ⟨mPrefix ++ "_val", arith.val, degree_bound⟩]

def indexPolynomials (idx : Index F) (degree_bound : Option Nat) : List (LabeledPolynomial F) :=
  matrixPolynomials "a" idx.aArith degree_bound ++ matrixPolynomials "b" idx.bArith degree_bound ++
    matrixPolynomials "c" idx.cArith degree_bound

def labels : List PolynomialLabel :=
  ["a_row", "a_col", "a_val", "b_row", "b_col", "b_val", "c_row", "c_col", "c_val"]

/-- The commitments of a verifier key under their labels. -/
def labelCommits (domain_k : EvaluationDomain F) (commits : List C) : List (LabeledCommitment C) :=
  (commits.zip labels).map fun (cm, label) => ⟨label, cm, some (domain_k.size + 1)⟩

/-- The files that `commit_function` writes. -/
structure FunctionCommitment (C : Type) where
  indexInfo : R1CSfIndex
  commits : List C
  tftProof : List UInt8

def oracle (polys : List (LabeledPolynomial F)) (commits : List (LabeledCommitment C))
    (rands : List Rand) (i : Nat) : Except Error (TFT.Oracle F C Rand) := do
  let poly ← nth polys i
  let commit ← nth commits i
  let random ← nth rands i
  return ⟨poly, commit, random⟩

variable {FS : Type} [FiatShamirRng FS]

/-- `commit_function` without the setup of the keys. Rows and columns of `A` and `B` trade
places, since the index holds transposed matrices. -/
def commitFunction (S : Scheme F C Rand ZP OP R) (serialize : TFT.Proof C ZP OP → List UInt8)
    (roots : ProofOfFunctionRelation.SquareRootField F) (params : EvaluationDomain.FftParameters F)
    (constraints : List (Call F)) (fs_rng : FS) (rng : R) :
    Except Error (FunctionCommitment C × FS × R) := do
  let (synthesized_circuit, _) ← need .aborted (Circuit.synthesize constraints)
  let (index_info, a, b, c) := ac2tft synthesized_circuit
  let domain_k ← need .aborted (params.radix2Domain index_info.numberOfNonZeroEntries)
  let domain_h ← need .aborted (params.radix2Domain index_info.numberOfConstraints)
  let idx ← (index params index_info a b c).mapError fun _ => .aborted
  let polys := indexPolynomials idx (some (domain_k.size + 1))
  let (matrix_poly_commits, rands, rng) ← S.commit polys rng
  let vk_commits := matrix_poly_commits.map LabeledCommitment.commitment
  let commits := labelCommits domain_k vk_commits
  let a_row ← oracle polys commits rands 0
  let a_col ← oracle polys commits rands 1
  let b_row ← oracle polys commits rands 3
  let b_col ← oracle polys commits rands 4
  let c_row ← oracle polys commits rands 6
  let c_col ← oracle polys commits rands 7
  let c_val ← oracle polys commits rands 8
  let (tft_proof, fs_rng, rng) ← TFT.prove S serialize roots index_info.numberOfInputRows domain_k
    domain_h (some (domain_k.size + 1)) ⟨a_col, a_row, b_col, b_row, c_row, c_col, c_val⟩ fs_rng rng
  return (⟨index_info, vk_commits, tft_proof⟩, fs_rng, rng)

/-- The check of the function relation in `verify.rs`. -/
def verifyFunction (S : Scheme F C Rand ZP OP R) (deserialize : List UInt8 → Option (TFT.Proof C ZP OP))
    (roots : ProofOfFunctionRelation.SquareRootField F) (params : EvaluationDomain.FftParameters F)
    (commitment : FunctionCommitment C) (fs_rng : FS) : Except Error Unit := do
  let index_info := commitment.indexInfo
  let domain_k ← need .aborted (params.radix2Domain index_info.numberOfNonZeroEntries)
  let domain_h ← need .aborted (params.radix2Domain index_info.numberOfConstraints)
  let commits := labelCommits domain_k commitment.commits
  let a_row ← nth commits 0
  let a_col ← nth commits 1
  let b_row ← nth commits 3
  let b_col ← nth commits 4
  let c_row ← nth commits 6
  let c_col ← nth commits 7
  let c_val ← nth commits 8
  (TFT.verify S deserialize roots index_info.numberOfInputRows a_col a_row b_col b_row c_row c_col
    c_val (some (domain_k.size + 1)) domain_h domain_k commitment.tftProof fs_rng).1

end Program

/-! ### What the arithmetized matrices encode -/

section Encode

variable {F : Type} [Field F] [DecidableEq F] {m : Matrix F} {domain_k domain_h : EvaluationDomain F}
  {is_diag_matrix : Bool} {arith : MatrixArithmetization F}

omit [DecidableEq F] [Field F] in
theorem mem_matrixEntries {e : (F × Nat) × Nat} (he : e ∈ matrixEntries m) :
    ∃ row, m[e.2]? = some row ∧ e.1 ∈ row := by
  obtain ⟨⟨row, i⟩, hrow, he⟩ := List.mem_flatMap.mp he
  obtain ⟨entry, hentry, rfl⟩ := List.mem_map.mp he
  exact ⟨row, List.mk_mem_zipIdx_iff_getElem?.mp hrow, hentry⟩

/-- An entry of the matrix stands transposed at its position in `K`, and the padding behind
the entries repeats the last one or, for a diagonal matrix, is the first corner. -/
theorem arithmetizeMatrix_at (h : arithmetizeMatrix m domain_k domain_h is_diag_matrix = .ok arith)
    {k : Nat} (hk : k < domain_k.size) :
    (∀ e, (matrixEntries m)[k]? = some e →
      arith.row.evaluate (domain_k.element k) = domain_h.element e.1.2 ∧
      arith.col.evaluate (domain_k.element k) = domain_h.element e.2 ∧
      (arith.val.evaluate (domain_k.element k) = 0 ↔ e.1.1 = 0)) ∧
    ((matrixEntries m).length ≤ k → arith.val.evaluate (domain_k.element k) = 0 ∧
      (is_diag_matrix = true → arith.row.evaluate (domain_k.element k) = 1 ∧
        arith.col.evaluate (domain_k.element k) = 1) ∧
      (is_diag_matrix = false → ∃ e ∈ matrixEntries m,
        arith.row.evaluate (domain_k.element k) = domain_h.element e.1.2 ∧
        arith.col.evaluate (domain_k.element k) = domain_h.element e.2)) := by
  obtain ⟨_, last, hlast, hat⟩ := arithmetizeMatrix_eq_ok h
  have hrow := congrArg EntryEvals.row (hat k hk)
  have hcol := congrArg EntryEvals.col (hat k hk)
  have hval := congrArg EntryEvals.val (hat k hk)
  dsimp only [MatrixArithmetization.at] at hrow hcol hval
  rw [hrow, hcol, hval]
  constructor
  · intro e he
    obtain ⟨hlt, rfl⟩ := List.getElem?_eq_some_iff.mp he
    rw [List.getD_eq_getElem _ _ (by rw [List.length_map]; exact hlt), List.getElem_map]
    exact ⟨rfl, rfl, entryAt_val_eq_zero domain_h⟩
  · intro hge
    rw [List.getD_eq_default _ _ (by rw [List.length_map]; exact hge)]
    cases is_diag_matrix with
    | true => exact ⟨rfl, fun _ => ⟨rfl, rfl⟩, nofun⟩
    | false => exact ⟨rfl, nofun, fun _ => ⟨last, hlast, rfl, rfl⟩⟩

theorem encodesLower_of_rows (h : arithmetizeMatrix m domain_k domain_h false = .ok arith)
    (hrows : m.length ≤ domain_h.size) (hlower : ∀ (i : Nat) (row : List (F × Nat)), m[i]? = some row →
      ∀ e ∈ row, e.2 < i) :
    EncodesLower domain_k domain_h arith.col arith.row := by
  have hentry : ∀ e ∈ matrixEntries m, e.1.2 < e.2 ∧ e.2 < domain_h.size := by
    intro e he
    obtain ⟨row, hrow, hmem⟩ := mem_matrixEntries he
    have hlt := (List.getElem?_eq_some_iff.mp hrow).1
    exact ⟨hlower e.2 row hrow e.1 hmem, by omega⟩
  intro x hx
  obtain ⟨k, hk, rfl⟩ := List.mem_map.mp hx
  obtain ⟨hinside, hpadding⟩ := arithmetizeMatrix_at h (List.mem_range.mp hk)
  rcases Nat.lt_or_ge k (matrixEntries m).length with hlt | hge
  · obtain ⟨hrow, hcol, _⟩ := hinside _ (List.getElem?_eq_getElem hlt)
    have he := hentry _ (List.getElem_mem hlt)
    exact ⟨_, _, he.1, he.2, hcol, hrow⟩
  · obtain ⟨e, hmem, hrow, hcol⟩ := (hpadding hge).2.2 rfl
    have he := hentry e hmem
    exact ⟨_, _, he.1, he.2, hcol, hrow⟩

omit [DecidableEq F] in
theorem matrixEntries_diagonal {t n : Nat} (hlen : m.length = n) (ht : t ≤ n)
    (hdiag : ∀ i row, m[i]? = some row → row = if t ≤ i then [(1, i)] else []) :
    matrixEntries m = (List.range (n - t)).map fun j => ((1, t + j), t + j) := by
  have hm : m = (List.range n).map fun i => if t ≤ i then [((1 : F), i)] else [] := by
    apply List.ext_getElem
    · simp [hlen]
    · intro i h₁ h₂
      rw [hdiag i m[i] (List.getElem?_eq_getElem h₁)]
      simp
  have hsplit : List.range n = List.range t ++ (List.range (n - t)).map (t + ·) := by
    rw [← List.range_add, Nat.add_sub_cancel' ht]
  have hfirst : (List.range t).flatMap (fun i =>
      (if t ≤ i then [((1 : F), i)] else []).map fun entry => (entry, i)) = [] := by
    rw [List.flatMap_eq_nil_iff]
    intro i hi
    rw [if_neg (by have := List.mem_range.mp hi; omega)]
    rfl
  have hrest : ((List.range (n - t)).map (t + ·)).flatMap (fun i =>
      (if t ≤ i then [((1 : F), i)] else []).map fun entry => (entry, i)) =
        (List.range (n - t)).map fun j => ((1, t + j), t + j) := by
    rw [List.flatMap_map, ← List.flatMap_pure_eq_map]
    apply List.flatMap_congr
    intro j _
    rw [if_pos (Nat.le_add_right t j)]
    rfl
  rw [matrixEntries, hm, zipIdx_map_range, List.flatMap_map, hsplit, List.flatMap_append]
  exact (congrArg₂ (· ++ ·) hfirst hrest).trans (List.nil_append _)

theorem encodesDiagonal_of_rows (h : arithmetizeMatrix m domain_k domain_h true = .ok arith) {t : Nat}
    (ht : t ≤ domain_h.size) (hlen : m.length = domain_h.size)
    (hdiag : ∀ i row, m[i]? = some row → row = if t ≤ i then [(1, i)] else []) :
    EncodesDiagonal domain_k domain_h t arith.row arith.col arith.val := by
  have hentries := matrixEntries_diagonal hlen ht hdiag
  have hinside : ∀ k < domain_k.size, k < domain_h.size - t →
      arith.row.evaluate (domain_k.element k) = domain_h.element (t + k) ∧
      arith.col.evaluate (domain_k.element k) = domain_h.element (t + k) ∧
      arith.val.evaluate (domain_k.element k) ≠ 0 := by
    intro k hk hin
    obtain ⟨hrow, hcol, hval⟩ := (arithmetizeMatrix_at h hk).1 ((1, t + k), t + k) (by
      rw [hentries, List.getElem?_map, List.getElem?_range hin]
      rfl)
    exact ⟨hrow, hcol, fun hzero => one_ne_zero (hval.mp hzero)⟩
  have houtside : ∀ k < domain_k.size, ¬ k < domain_h.size - t →
      arith.row.evaluate (domain_k.element k) = 1 ∧ arith.col.evaluate (domain_k.element k) = 1 ∧
      arith.val.evaluate (domain_k.element k) = 0 := by
    intro k hk hout
    obtain ⟨hval, hdiag, _⟩ := (arithmetizeMatrix_at h hk).2 (by
      rw [hentries, List.length_map, List.length_range]
      omega)
    exact ⟨(hdiag rfl).1, (hdiag rfl).2, hval⟩
  constructor
  · intro k hk
    by_cases hin : k < domain_h.size - t
    · rw [if_pos hin, (hinside k hk hin).1]
    · rw [if_neg hin, (houtside k hk hin).1]
  · intro x hx
    obtain ⟨k, hk, rfl⟩ := List.mem_map.mp hx
    rw [List.mem_range] at hk
    by_cases hin : k < domain_h.size - t
    · rw [(hinside k hk hin).1, (hinside k hk hin).2.1]
    · rw [(houtside k hk hin).1, (houtside k hk hin).2.1]
  · intro k hk
    by_cases hin : k < domain_h.size - t
    · exact ⟨fun hzero => absurd hzero (hinside k hk hin).2.2, fun hout => absurd hin hout⟩
    · exact ⟨fun _ => hin, fun _ => (houtside k hk hin).2.2⟩

end Encode

/-! ### The functional triple -/

section TFT

variable {F R : Type} [Field F] [DecidableEq F] (setup : IdealSetup F R)
  {roots : ProofOfFunctionRelation.SquareRootField F} {domain_k domain_h : EvaluationDomain F}
  {bound : Option Nat} {delta : F} {t : Nat} {FS : Type} [FiatShamirRng FS]
  {row_a col_a row_b col_b row_c col_c val_c : LabeledPolynomial F}

def idealOracle (p : LabeledPolynomial F) : TFT.Oracle F (DensePolynomial F) Unit :=
  ⟨p, commitTo p, ()⟩

theorem TFT.complete (serialize : TFT.Proof (DensePolynomial F) (ZeroOverK.Proof F) Unit → List UInt8)
    (ht : t < domain_h.size) (hdelta : roots.sqrt (domain_h.element 1) = some delta)
    (hsize : domain_h.size ≤ domain_k.size)
    (hpolys : ∀ p ∈ [row_a, col_a, row_b, col_b, row_c, col_c, val_c],
      p.degreeBound = bound ∧ p.polynomial.coeffs.length ≤ domain_k.size)
    (hlabel : val_c.label ≠ "h2")
    (ha : EncodesLower domain_k domain_h row_a.polynomial col_a.polynomial)
    (hb : EncodesLower domain_k domain_h row_b.polynomial col_b.polynomial)
    (hc : EncodesDiagonal domain_k domain_h t row_c.polynomial col_c.polynomial val_c.polynomial)
    (hsupported : checkSupportedDegree bound setup.supportedDegree = .ok ()) (fs_rng : FS) (rng : R) :
    ∃ proof fs_rng' rng', TFT.prove (idealScheme setup) serialize roots t domain_k domain_h bound
        ⟨idealOracle row_a, idealOracle col_a, idealOracle row_b, idealOracle col_b,
          idealOracle row_c, idealOracle col_c, idealOracle val_c⟩ fs_rng rng =
        .ok (serialize proof, fs_rng', rng') ∧
      ∀ deserialize : List UInt8 → Option _, deserialize (serialize proof) = some proof →
        ∀ fs_rng : FS, (TFT.verify (idealScheme setup) deserialize roots t (commitTo row_a)
          (commitTo col_a) (commitTo row_b) (commitTo col_b) (commitTo row_c) (commitTo col_c)
          (commitTo val_c) bound domain_h domain_k (serialize proof) fs_rng).1 = .ok () := by
  simp only [List.forall_mem_cons, List.not_mem_nil, false_implies, implies_true, and_true] at hpolys
  obtain ⟨⟨hrab, hral⟩, ⟨hcab, hcal⟩, ⟨hrbb, hrbl⟩, ⟨hcbb, hcbl⟩, ⟨hrcb, _⟩, ⟨hccb, _⟩, hvcb, hvcl⟩ :=
    hpolys
  obtain ⟨a, fs₁, rng₁, h₁, v₁⟩ := TStrictlyLowerTriangular.complete setup ht hdelta hsize hral hcal ha
    hrab hcab hsupported fs_rng rng
  obtain ⟨b, fs₂, rng₂, h₂, v₂⟩ := TStrictlyLowerTriangular.complete setup ht hdelta hsize hrbl hcbl hb
    hrbb hcbb hsupported fs₁ rng₁
  obtain ⟨c, rng₃, h₃, v₃⟩ := TDiag.complete setup ht hsize hvcl hlabel hc hrcb hccb hvcb hsupported
    rng₂
  refine ⟨⟨a, b, c⟩, fs₂, rng₃, ?_, ?_⟩
  · simp only [TFT.prove, idealOracle, h₁, h₂, h₃, ok_bind]
    rfl
  · intro deserialize hround fs_rng
    have hfirst := v₁ fs_rng
    rw [TFT.verify, hround]
    dsimp only
    generalize TStrictlyLowerTriangular.verify (idealScheme setup) roots t domain_k domain_h
      (commitTo row_a) (commitTo col_a) bound a fs_rng = first at hfirst ⊢
    obtain ⟨result, fs_rng₁⟩ := first
    obtain rfl : result = .ok () := hfirst
    have hsecond := v₂ fs_rng₁
    dsimp only
    generalize TStrictlyLowerTriangular.verify (idealScheme setup) roots t domain_k domain_h
      (commitTo row_b) (commitTo col_b) bound b fs_rng₁ = second at hsecond ⊢
    obtain ⟨result, fs_rng₂⟩ := second
    obtain rfl : result = .ok () := hsecond
    exact v₃

end TFT

/-! ### From ordered calls to an accepted proof -/

section Complete

variable {F R : Type} [Field F] [DecidableEq F]

omit [DecidableEq F] in
/-- The generator of `H` is a square when the order of the field leaves room for it. -/
theorem exists_sqrt_generator [Fintype F] (roots : ProofOfFunctionRelation.SquareRootField F)
    (domain_h : EvaluationDomain F) (h : 2 * domain_h.size ∣ Fintype.card F - 1) :
    ∃ delta, roots.sqrt (domain_h.element 1) = some delta := by
  apply Option.isSome_iff_exists.mp
  apply roots.isSome_of_isSquare
  obtain ⟨c, hc⟩ := h
  have hcard : 1 < Fintype.card F := Fintype.one_lt_card
  have heven : Fintype.card F / 2 = domain_h.size * c := by
    rw [Nat.mul_assoc] at hc
    omega
  have hchar : ringChar F ≠ 2 := by
    intro htwo
    have := FiniteField.even_card_of_char_two htwo
    rw [Nat.mul_assoc] at hc
    omega
  have hne : domain_h.element 1 ≠ 0 := pow_ne_zero 1 domain_h.groupGen_ne_zero
  rw [FiniteField.isSquare_iff hchar hne, heven, pow_mul, domain_h.element_pow_size, one_pow]

section Domains

variable {params : EvaluationDomain.FftParameters F} {info : R1CSfIndex}

omit [DecidableEq F] in
/-- The check of the sizes leaves both domains, and `H` has a power of two as its size. -/
theorem exists_domains (hsizes : checkDomainsSizes params info = .ok true)
    (hpower : ∃ k, info.numberOfConstraints = 2 ^ k) :
    ∃ domain_k domain_h, params.radix2Domain info.numberOfNonZeroEntries = some domain_k ∧
      params.radix2Domain info.numberOfConstraints = some domain_h ∧
      domain_k.size = 2 ^ Nat.clog 2 info.numberOfNonZeroEntries ∧
      domain_h.size = info.numberOfConstraints ∧ info.numberOfConstraints ≤ domain_k.size := by
  obtain ⟨domain_k, hk, hle⟩ := bind_eq_ok_iff.mp hsizes
  rw [need_eq_ok_iff] at hk
  have hle : info.numberOfConstraints ≤ domain_k.size := of_decide_eq_true (Except.ok.inj hle)
  obtain ⟨k, hpower⟩ := hpower
  have hk_size := params.radix2Domain_size hk
  have hlog : Nat.clog 2 info.numberOfConstraints ≤ params.twoAdicity := by
    have hadicity : Nat.clog 2 info.numberOfNonZeroEntries ≤ params.twoAdicity := by
      by_contra hlt
      rw [EvaluationDomain.FftParameters.radix2Domain, dif_neg hlt] at hk
      cases hk
    rw [hk_size] at hle
    exact (Nat.clog_le_of_le_pow hle).trans hadicity
  obtain ⟨domain_h, hh⟩ := params.exists_radix2Domain hlog
  refine ⟨domain_k, domain_h, hk, hh, hk_size, ?_, hle⟩
  rw [params.radix2Domain_size hh, hpower, Nat.clog_pow 2 k Nat.one_lt_two]

end Domains

section Calls

variable {calls : List (Call F)} {circuit : Circuit} {cb' : ConstraintBuilder F}
  {vars : List (Variable F)}

omit [DecidableEq F] in
theorem numberOfConstraints_power (hord : Ordered calls)
    (hsyn : Circuit.synthesize calls = some (circuit, cb', vars)) :
    ∃ k, (ac2tft (F := F) circuit).1.numberOfConstraints = 2 ^ k := by
  obtain ⟨cb, hrun, hfinal, rfl⟩ := synthesize_inv hsyn
  obtain ⟨hprepared, _⟩ := prepared_of_ordered hord hrun
  obtain ⟨N, hN, _⟩ := finalize_eq_some_iff.mp hfinal
  have hin := hprepared.built.inputs
  have hsize := nextPowerOf2_le hN
  obtain ⟨cb'', hfinal', hsat⟩ := hprepared.finalize_satisfied (by omega)
  rw [hfinal] at hfinal'
  cases hfinal'
  exact hsat.power

omit [DecidableEq F] in
theorem flatten_ne_nil (hgate : circuit.gates ≠ []) :
    ∀ m ∈ [(ac2tft (F := F) circuit).2.1, (ac2tft circuit).2.2.1, (ac2tft circuit).2.2.2],
      m.flatten ≠ [] := by
  obtain ⟨gate, hgate₀⟩ : ∃ gate, circuit.gates[0]? = some gate := by
    cases hgates : circuit.gates with
    | nil => exact absurd hgates hgate
    | cons gate gates => exact ⟨gate, rfl⟩
  have hpos := (List.getElem?_eq_some_iff.mp hgate₀).1
  obtain ⟨hA, hB, hC⟩ := ac2tft_rows (F := F) circuit (r := 1 + circuit.numberOfInputs)
    (by omega)
  have hrow : ∀ f : Gate → Nat → List (F × Nat), rowAt f circuit (1 + circuit.numberOfInputs) =
      f gate (1 + circuit.numberOfInputs) := by
    intro f
    rw [rowAt, if_pos (Nat.le_refl _), Nat.sub_self, hgate₀]
    rfl
  have hne : ∀ (m : Matrix F) (row : List (F × Nat)), m[1 + circuit.numberOfInputs]? = some row →
      row ≠ [] → m.flatten ≠ [] := by
    intro m row hm hrow hnil
    exact hrow (List.flatten_eq_nil_iff.mp hnil row (List.mem_of_getElem? hm))
  rw [hrow] at hA hB hC
  simp only [List.forall_mem_cons, List.not_mem_nil, false_implies, implies_true, and_true]
  refine ⟨hne _ _ hA ?_, hne _ _ hB ?_, hne _ _ hC (List.cons_ne_nil _ _)⟩
  · cases h : gate.symbol <;> simp [rowA, h]
  · cases h : gate.symbol <;> simp [rowB, h]

end Calls

/-- The keys of `commit_function` support the degree that its index asks for. -/
def IdealSetup.trim (setup : IdealSetup F R) (info : R1CSfIndex) : IdealSetup F R :=
  { setup with supportedDegree := maxDegree info }

section Committed

variable {domain_k domain_h : EvaluationDomain F} {idx : Index F} {a b c : Matrix F}

/-- The polynomials of an index with their labels written out. -/
def labelledPolynomials (idx : Index F) (bound : Option Nat) : List (LabeledPolynomial F) :=
  [⟨"a_row", idx.aArith.row, bound⟩, ⟨"a_col", idx.aArith.col, bound⟩,
    ⟨"a_val", idx.aArith.val, bound⟩, ⟨"b_row", idx.bArith.row, bound⟩,
    ⟨"b_col", idx.bArith.col, bound⟩, ⟨"b_val", idx.bArith.val, bound⟩,
    ⟨"c_row", idx.cArith.row, bound⟩, ⟨"c_col", idx.cArith.col, bound⟩,
    ⟨"c_val", idx.cArith.val, bound⟩]

omit [Field F] [DecidableEq F] in
theorem indexPolynomials_eq (idx : Index F) (bound : Option Nat) :
    indexPolynomials idx bound = labelledPolynomials idx bound := by
  simp [indexPolynomials, matrixPolynomials, labelledPolynomials]

theorem committed_polynomials (ha : arithmetizeMatrix a domain_k domain_h false = .ok idx.aArith)
    (hb : arithmetizeMatrix b domain_k domain_h false = .ok idx.bArith)
    (hc : arithmetizeMatrix c domain_k domain_h true = .ok idx.cArith) (bound : Option Nat) :
    ∀ p ∈ ([⟨"a_col", idx.aArith.col, bound⟩, ⟨"a_row", idx.aArith.row, bound⟩,
      ⟨"b_col", idx.bArith.col, bound⟩, ⟨"b_row", idx.bArith.row, bound⟩,
      ⟨"c_row", idx.cArith.row, bound⟩, ⟨"c_col", idx.cArith.col, bound⟩,
      ⟨"c_val", idx.cArith.val, bound⟩] : List (LabeledPolynomial F)),
        p.degreeBound = bound ∧ p.polynomial.coeffs.length ≤ domain_k.size := by
  obtain ⟨har, hac, _⟩ := arithmetizeMatrix_length ha
  obtain ⟨hbr, hbc, _⟩ := arithmetizeMatrix_length hb
  obtain ⟨hcr, hcc, hcv⟩ := arithmetizeMatrix_length hc
  simp only [List.forall_mem_cons, List.not_mem_nil, false_implies, implies_true, and_true, true_and]
  exact ⟨hac, har, hbc, hbr, hcr, hcc, hcv⟩

omit [DecidableEq F] in
theorem labelCommits_index (domain_k : EvaluationDomain F) (idx : Index F) :
    labelCommits domain_k ((labelledPolynomials idx (some (domain_k.size + 1))).map
        LabeledPolynomial.polynomial) =
      (labelledPolynomials idx (some (domain_k.size + 1))).map commitTo := rfl

omit [Field F] [DecidableEq F] in
theorem nth_commitTo {idx : Index F} {bound : Option Nat} {i : Nat} {p : LabeledPolynomial F}
    (hp : (labelledPolynomials idx bound)[i]? = some p) :
    nth ((labelledPolynomials idx bound).map commitTo) i = .ok (commitTo p) := by
  rw [nth, List.getElem?_map, hp]
  rfl

omit [Field F] [DecidableEq F] in
theorem oracle_index {idx : Index F} {bound : Option Nat} {i : Nat} {p : LabeledPolynomial F}
    (hp : (labelledPolynomials idx bound)[i]? = some p) :
    oracle (labelledPolynomials idx bound) ((labelledPolynomials idx bound).map commitTo)
      ((labelledPolynomials idx bound).map fun _ => ()) i = .ok (idealOracle p) := by
  have hrand : nth ((labelledPolynomials idx bound).map fun _ => ()) i = .ok () := by
    rw [nth, List.getElem?_map, hp]
    rfl
  rw [oracle, nth, hp, need_some, ok_bind, nth_commitTo hp, ok_bind, hrand]
  rfl

omit [Field F] [DecidableEq F] in
theorem commitment_commitTo (polys : List (LabeledPolynomial F)) :
    (polys.map commitTo).map LabeledCommitment.commitment =
      polys.map LabeledPolynomial.polynomial := by
  rw [List.map_map]
  rfl

omit [DecidableEq F] in
theorem supported_of_trim (setup : IdealSetup F R) {info : R1CSfIndex}
    (hk : domain_k.size = 2 ^ Nat.clog 2 info.numberOfNonZeroEntries) :
    checkSupportedDegree (some (domain_k.size + 1)) (setup.trim info).supportedDegree = .ok () := by
  have hle : domain_k.size + 1 ≤ (setup.trim info).supportedDegree := by
    show domain_k.size + 1 ≤ maxDegree info
    rw [maxDegree, hk]
    apply le_max_of_le_right
    omega
  exact if_neg (by omega)

section Runs

variable {setup : IdealSetup F R} {FS : Type} [FiatShamirRng FS]
  {roots : ProofOfFunctionRelation.SquareRootField F} {params : EvaluationDomain.FftParameters F}
  {info : R1CSfIndex} {calls : List (Call F)} {circuit : Circuit} {cb' : ConstraintBuilder F}
  {vars : List (Variable F)} {fs_rng fs_rng' : FS} {rng rng' : R}

def indexOracles (idx : Index F) (bound : Option Nat) :
    TFT.Oracles F (DensePolynomial F) Unit :=
  ⟨idealOracle ⟨"a_col", idx.aArith.col, bound⟩, idealOracle ⟨"a_row", idx.aArith.row, bound⟩,
    idealOracle ⟨"b_col", idx.bArith.col, bound⟩, idealOracle ⟨"b_row", idx.bArith.row, bound⟩,
    idealOracle ⟨"c_row", idx.cArith.row, bound⟩, idealOracle ⟨"c_col", idx.cArith.col, bound⟩,
    idealOracle ⟨"c_val", idx.cArith.val, bound⟩⟩

theorem idealScheme_commit (setup : IdealSetup F R) (polys : List (LabeledPolynomial F)) (rng : R) :
    (idealScheme setup).commit polys rng = .ok (polys.map commitTo, polys.map fun _ => (), rng) := rfl

theorem commitFunction_eq_ok
    {serialize : TFT.Proof (DensePolynomial F) (ZeroOverK.Proof F) Unit → List UInt8}
    {proof : List UInt8} (hsyn : Circuit.synthesize calls = some (circuit, cb', vars))
    (hac : ac2tft (F := F) circuit = (info, a, b, c))
    (hk : params.radix2Domain info.numberOfNonZeroEntries = some domain_k)
    (hh : params.radix2Domain info.numberOfConstraints = some domain_h)
    (hidx : index params info a b c = .ok idx)
    (hprove : TFT.prove (idealScheme setup) serialize roots info.numberOfInputRows domain_k domain_h
      (some (domain_k.size + 1)) (indexOracles idx (some (domain_k.size + 1))) fs_rng rng =
        .ok (proof, fs_rng', rng')) :
    commitFunction (idealScheme setup) serialize roots params calls fs_rng rng =
      .ok (⟨info, (labelledPolynomials idx (some (domain_k.size + 1))).map
        LabeledPolynomial.polynomial, proof⟩, fs_rng', rng') := by
  have hidx' : (index params info a b c).mapError (fun _ => Error.aborted) = .ok idx := by
    rw [hidx]
    rfl
  simp only [commitFunction, hsyn, need_some, ok_bind, hac, hk, hh]
  refine bind_eq_ok_iff.mpr ⟨idx, hidx', ?_⟩
  rw [indexPolynomials_eq]
  refine bind_eq_ok_iff.mpr ⟨_, idealScheme_commit setup _ rng, ?_⟩
  dsimp only
  rw [commitment_commitTo, labelCommits_index]
  refine bind_eq_ok_iff.mpr ⟨_, oracle_index rfl, ?_⟩
  refine bind_eq_ok_iff.mpr ⟨_, oracle_index rfl, ?_⟩
  refine bind_eq_ok_iff.mpr ⟨_, oracle_index rfl, ?_⟩
  refine bind_eq_ok_iff.mpr ⟨_, oracle_index rfl, ?_⟩
  refine bind_eq_ok_iff.mpr ⟨_, oracle_index rfl, ?_⟩
  refine bind_eq_ok_iff.mpr ⟨_, oracle_index rfl, ?_⟩
  refine bind_eq_ok_iff.mpr ⟨_, oracle_index rfl, ?_⟩
  rw [indexOracles] at hprove
  rw [hprove]
  rfl

theorem verifyFunction_eq
    {deserialize : List UInt8 → Option (TFT.Proof (DensePolynomial F) (ZeroOverK.Proof F) Unit)}
    {proof : List UInt8}
    (hk : params.radix2Domain info.numberOfNonZeroEntries = some domain_k)
    (hh : params.radix2Domain info.numberOfConstraints = some domain_h) :
    verifyFunction (idealScheme setup) deserialize roots params
      ⟨info, (labelledPolynomials idx (some (domain_k.size + 1))).map
        LabeledPolynomial.polynomial, proof⟩ fs_rng =
      (TFT.verify (idealScheme setup) deserialize roots info.numberOfInputRows
        (commitTo ⟨"a_col", idx.aArith.col, some (domain_k.size + 1)⟩)
        (commitTo ⟨"a_row", idx.aArith.row, some (domain_k.size + 1)⟩)
        (commitTo ⟨"b_col", idx.bArith.col, some (domain_k.size + 1)⟩)
        (commitTo ⟨"b_row", idx.bArith.row, some (domain_k.size + 1)⟩)
        (commitTo ⟨"c_row", idx.cArith.row, some (domain_k.size + 1)⟩)
        (commitTo ⟨"c_col", idx.cArith.col, some (domain_k.size + 1)⟩)
        (commitTo ⟨"c_val", idx.cArith.val, some (domain_k.size + 1)⟩)
        (some (domain_k.size + 1)) domain_h domain_k proof fs_rng).1 := by
  have hk' : need Error.aborted (params.radix2Domain info.numberOfNonZeroEntries) = .ok domain_k := by
    rw [hk, need_some]
  have hh' : need Error.aborted (params.radix2Domain info.numberOfConstraints) = .ok domain_h := by
    rw [hh, need_some]
  refine bind_eq_of_ok hk' (bind_eq_of_ok hh' ?_)
  rw [labelCommits_index]
  refine bind_eq_of_ok (nth_commitTo rfl) ?_
  refine bind_eq_of_ok (nth_commitTo rfl) ?_
  refine bind_eq_of_ok (nth_commitTo rfl) ?_
  refine bind_eq_of_ok (nth_commitTo rfl) ?_
  refine bind_eq_of_ok (nth_commitTo rfl) ?_
  refine bind_eq_of_ok (nth_commitTo rfl) ?_
  exact bind_eq_of_ok (nth_commitTo rfl) rfl

end Runs

end Committed

/-- For ordered calls with a gate `commit_function` ends with a proof that is accepted. -/
theorem commitFunction_complete [Fintype F] {FS : Type} [FiatShamirRng FS] (setup : IdealSetup F R)
    (serialize : TFT.Proof (DensePolynomial F) (ZeroOverK.Proof F) Unit → List UInt8)
    (roots : ProofOfFunctionRelation.SquareRootField F) (params : EvaluationDomain.FftParameters F)
    {calls : List (Call F)} {circuit : Circuit} {cb' : ConstraintBuilder F} {vars : List (Variable F)}
    (hord : Ordered calls) (hsyn : Circuit.synthesize calls = some (circuit, cb', vars))
    (hgate : circuit.gates ≠ [])
    (hsizes : checkDomainsSizes params (ac2tft (F := F) circuit).1 = .ok true)
    (hroot : 2 * (ac2tft (F := F) circuit).1.numberOfConstraints ∣ Fintype.card F - 1)
    (fs_rng : FS) (rng : R) :
    ∃ output fs_rng' rng', commitFunction
        (idealScheme (setup.trim (ac2tft (F := F) circuit).1)) serialize roots params calls fs_rng rng =
          .ok (output, fs_rng', rng') ∧
      ∃ proof, output.tftProof = serialize proof ∧
        ∀ deserialize : List UInt8 → Option _, deserialize (serialize proof) = some proof →
          ∀ fs_rng : FS, verifyFunction (idealScheme (setup.trim (ac2tft (F := F) circuit).1))
            deserialize roots params output fs_rng = .ok () := by
  obtain ⟨domain_k, domain_h, hk, hh, hk_size, hh_size, hle⟩ :=
    exists_domains hsizes (numberOfConstraints_power hord hsyn)
  have htriple := ac2tft_functional hord hsyn
  have hnonempty := flatten_ne_nil (F := F) hgate
  obtain ⟨info, a, b, c, hac⟩ : ∃ info a b c, ac2tft (F := F) circuit = (info, a, b, c) :=
    ⟨_, _, _, _, rfl⟩
  have ht : info.numberOfInputRows < info.numberOfConstraints := by
    have hpos := List.length_pos_of_ne_nil hgate
    have hinfo : info = (ac2tft (F := F) circuit).1 := by rw [hac]
    rw [hinfo]
    show circuit.numberOfInputs + 1 < circuit.gates.length + circuit.numberOfInputs + 1
    omega
  rw [hac] at htriple hnonempty hk hh hk_size hh_size hle hroot ⊢
  dsimp only at htriple hnonempty hk hh hk_size hh_size hle hroot ⊢
  obtain ⟨hlenA, hlenB, hlenC⟩ := htriple.rows
  have hcols : ∀ (m : Matrix F), (∀ (i : Nat) (row : List (F × Nat)), m[i]? = some row →
      ∀ e ∈ row, e.2 ≤ i) → m.length = info.numberOfConstraints →
        ∀ e ∈ m.flatten, e.2 < domain_h.size := by
    intro m hm hlen e he
    obtain ⟨row, hrow, he⟩ := List.mem_flatten.mp he
    obtain ⟨i, hi, rfl⟩ := List.mem_iff_getElem.mp hrow
    have := hm i m[i] (List.getElem?_eq_getElem hi) e he
    omega
  have hdomains := indexDomains_eq_ok hk hh hle
  obtain ⟨idx, hidx⟩ : ∃ idx, index params info a b c = .ok idx := by
    apply exists_index hdomains
    simp only [List.forall_mem_cons, List.not_mem_nil, false_implies, implies_true, and_true] at hnonempty ⊢
    refine ⟨⟨hnonempty.1, by omega, hcols a ?_ hlenA⟩, ⟨hnonempty.2.1, by omega, hcols b ?_ hlenB⟩,
      ⟨hnonempty.2.2, by omega, hcols c ?_ hlenC⟩⟩
    · exact fun i row hrow e he => Nat.le_of_lt (htriple.lowerA i row hrow e he).2
    · exact fun i row hrow e he => Nat.le_of_lt (htriple.lowerB i row hrow e he).2
    · intro i row hrow e he
      rw [htriple.diagonal i row hrow] at he
      split at he
      · rw [List.mem_singleton.mp he]
      · cases he
  obtain ⟨ha, hb, hc⟩ := index_eq_ok hidx hdomains
  obtain ⟨delta, hdelta⟩ := exists_sqrt_generator roots domain_h (by rw [hh_size]; exact hroot)
  have hlabel : ("c_val" : PolynomialLabel) ≠ "h2" := by decide
  obtain ⟨proof, fs_rng', rng', hprove, hverify⟩ := TFT.complete (setup.trim info) serialize
    (hh_size ▸ ht) hdelta (hh_size ▸ hle)
    (committed_polynomials ha hb hc (some (domain_k.size + 1))) hlabel
    (encodesLower_of_rows ha (by omega) fun i row hrow e he => (htriple.lowerA i row hrow e he).2)
    (encodesLower_of_rows hb (by omega) fun i row hrow e he => (htriple.lowerB i row hrow e he).2)
    (encodesDiagonal_of_rows hc (by omega) (by omega) htriple.diagonal)
    (supported_of_trim setup hk_size) fs_rng rng
  refine ⟨⟨info, (labelledPolynomials idx (some (domain_k.size + 1))).map LabeledPolynomial.polynomial,
    serialize proof⟩, fs_rng', rng', commitFunction_eq_ok hsyn hac hk hh hidx hprove, proof, rfl, ?_⟩
  intro deserialize hround fs_rng
  rw [verifyFunction_eq hk hh]
  exact hverify deserialize hround fs_rng

def sumCalls : List (Call (ZMod 17)) :=
  [.newInputVariable "x" 1, .enforceConstraint 0 0 .Add false, .enforceConstraint 1 0 .Add true]

theorem sumCalls_ordered : Ordered sumCalls := by
  refine ⟨[.newInputVariable "x" 1], [.enforceConstraint 0 0 .Add false],
    [.enforceConstraint 1 0 .Add true], rfl, ?_, ?_, ?_, Or.inr ?_⟩
  all_goals simp [Call.isInput, Call.isGate, Call.operandsBelow]

def sumCircuit : Circuit := ⟨[⟨1, 1, .Add⟩, ⟨2, 1, .Add⟩], 1, 1⟩

theorem synthesize_sumCalls : ∃ cb' vars,
    Circuit.synthesize sumCalls = some (sumCircuit, cb', vars) :=
  ⟨_, _, rfl⟩

def roots17 : ProofOfFunctionRelation.SquareRootField (ZMod 17) where
  sqrt x := (List.range 17).find? (fun y => (y : ZMod 17) * y = x) |>.map fun y => (y : ZMod 17)
  mul_self_eq := by decide
  isSome_of_isSquare := by
    rintro x ⟨y, rfl⟩
    revert y
    decide

def polynomialBytes (p : DensePolynomial (ZMod 17)) : List UInt8 :=
  UInt8.ofNat p.coeffs.length :: p.coeffs.map fun x => UInt8.ofNat x.val

def setup17 : IdealSetup (ZMod 17) Unit where
  supportedDegree := 0
  coins _ := (fun _ => (0, 0), ⟨9, 10, 1⟩, ())
  initializeAndRand _ := 1
  commitmentBytes := polynomialBytes
  fieldBytes x := [UInt8.ofNat x.val]

def serialize17 (proof : TFT.Proof (DensePolynomial (ZMod 17)) (ZeroOverK.Proof (ZMod 17)) Unit) :
    List UInt8 :=
  [proof.aSltProof.hCommit, proof.aSltProof.dlProof.sCommit, proof.bSltProof.hCommit,
    proof.bSltProof.dlProof.sCommit, proof.cDiagProof.h1Commit, proof.cDiagProof.h2Commit].flatMap
      polynomialBytes

theorem checkDomainsSizes_sumCircuit :
    checkDomainsSizes params17 (ac2tft (F := ZMod 17) sumCircuit).1 = .ok true := by
  have hclog : Nat.clog 2 4 = 2 := by norm_num
  have hinfo : (ac2tft (F := ZMod 17) sumCircuit).1.numberOfNonZeroEntries = 4 := by decide
  obtain ⟨domain_k, hk⟩ : ∃ domain_k, params17.radix2Domain 4 = some domain_k :=
    params17.exists_radix2Domain (by rw [hclog]; decide)
  have hk_size := params17.radix2Domain_size hk
  rw [hclog] at hk_size
  rw [← hinfo] at hk
  refine bind_eq_of_ok (need_eq_ok_iff.mpr hk) ?_
  rw [hk_size]
  rfl

theorem commitFunction_sumCalls : ∃ output fs_rng' rng',
    commitFunction (idealScheme (setup17.trim (ac2tft (F := ZMod 17) sumCircuit).1)) serialize17
        roots17 params17 sumCalls (⟨[]⟩ : Transcript) () = .ok (output, fs_rng', rng') ∧
      ∃ proof, output.tftProof = serialize17 proof ∧
        ∀ deserialize : List UInt8 → Option _, deserialize (serialize17 proof) = some proof →
          ∀ fs_rng : Transcript, verifyFunction
            (idealScheme (setup17.trim (ac2tft (F := ZMod 17) sumCircuit).1)) deserialize roots17
            params17 output fs_rng = .ok () := by
  obtain ⟨cb', vars, hsyn⟩ := synthesize_sumCalls
  have hroot : 2 * (ac2tft (F := ZMod 17) sumCircuit).1.numberOfConstraints ∣
      Fintype.card (ZMod 17) - 1 := by
    rw [ZMod.card]
    decide
  have hcomplete := commitFunction_complete setup17 serialize17 roots17 params17 sumCalls_ordered hsyn
    (List.cons_ne_nil _ _) checkDomainsSizes_sumCircuit hroot (⟨[]⟩ : Transcript) ()
  exact hcomplete

end Complete

end Lootbox.FunctionRelation
