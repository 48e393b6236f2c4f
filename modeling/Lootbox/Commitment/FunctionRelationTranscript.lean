import Lootbox.Commitment.CommitFunction

/-!
# What the function-relation proofs absorb

The prover and the verifier of a proof build the bytes they absorb separately. The prover
commits to one polynomial more than the verifier finds in the proof, and only the prover of
the strictly lower triangular test absorbs the name of that test.
-/

namespace Lootbox.FunctionRelation

/-! ### The commitment scheme -/

variable {F C Rand ZP OP R : Type} [Field F] [DecidableEq F] {S : Scheme F C Rand ZP OP R}

/-- One commitment for each polynomial, and none is serialized to nothing. -/
structure Scheme.Lawful (S : Scheme F C Rand ZP OP R) : Prop where
  commitments_length : ∀ polys rng cs rands rng', S.commit polys rng = .ok (cs, rands, rng') →
    cs.length = polys.length
  commitmentBytes_ne_nil : ∀ c, S.commitmentBytes c ≠ []

theorem nth_eq_ok_iff {α : Type} {xs : List α} {i : Nat} {a : α} :
    nth xs i = .ok a ↔ xs[i]? = some a := need_eq_ok_iff

/-! ### One absorption each -/

section Runs

variable {FS : Type} [FiatShamirRng FS] {roots : ProofOfFunctionRelation.SquareRootField F} {t : Nat}
  {domain_k domain_h : EvaluationDomain F} {enforced_degree_bound : Option Nat}

section DLComparison

variable {f g : LabeledPolynomial F} {f_commit g_commit : LabeledCommitment C} {f_rand g_rand : Rand}
  {round : DLComparison.ProverFirstRound F} {commitments : List (LabeledCommitment C)}
  {rands : List Rand} {rng rng' : R} {proof : DLComparison.Proof C ZP OP}

theorem DLComparison.proveSubProtocols_commitments
    (h : DLComparison.proveSubProtocols S domain_k f g f_commit g_commit f_rand g_rand
      enforced_degree_bound round commitments rands rng = .ok (proof, rng')) :
    (commitments.take 5).map LabeledCommitment.commitment =
      (DLComparison.proofCommitments enforced_degree_bound proof).map LabeledCommitment.commitment := by
  simp only [DLComparison.proveSubProtocols, bind_eq_ok_iff, Prod.exists, nth_eq_ok_iff] at h
  obtain ⟨s_commit, hs, f_prime_commit, hf, g_prime_commit, hg, s_prime_commit, hs', h_commit, hh,
    h⟩ := h
  -- the openings of the randomness, then the sub-protocols, then the value returned
  obtain ⟨_, _, _, _, _, _, _, _, _, _, h⟩ := h
  obtain ⟨_, _, _, _, _, _, _, _, _, _, _, _, _, _, _, _, h⟩ := h
  obtain ⟨_, _, _, _, _, _, _, _, _, _, _, _, _, _, _, _, _, _, heq⟩ := h
  cases heq
  simp only [List.take_add_one, hs, hf, hg, hs', hh]
  rfl

theorem DLComparison.prove_absorbs (hS : S.Lawful) {fs_rng fs_rng' : FS}
    (h : DLComparison.prove S roots domain_k domain_h f f_commit f_rand g g_commit g_rand
      enforced_degree_bound fs_rng rng = .ok (proof, fs_rng', rng')) :
    ∃ bytes, bytes ≠ [] ∧ fs_rng' = FiatShamirRng.absorb fs_rng
      (DLComparison.fsBytes S (DLComparison.proofCommitments enforced_degree_bound proof) ++ bytes) := by
  simp only [DLComparison.prove, bind_eq_ok_iff, Prod.exists] at h
  obtain ⟨round, _, commitments, rands, rng₁, hcommit, proof', rng₂, hsub, heq⟩ := h
  cases heq
  have hlength : commitments.length = 6 := hS.commitments_length _ _ _ _ _ hcommit
  have hfirst := proveSubProtocols_commitments hsub
  obtain ⟨one_commit, hone⟩ : ∃ c, commitments.drop 5 = [c] := by
    apply List.length_eq_one_iff.mp
    rw [List.length_drop, hlength]
  refine ⟨S.commitmentBytes one_commit.commitment, hS.commitmentBytes_ne_nil _, ?_⟩
  have hflatMap : ∀ cs : List (LabeledCommitment C), cs.flatMap (fun c => S.commitmentBytes
      c.commitment) = (cs.map LabeledCommitment.commitment).flatMap S.commitmentBytes := by
    intro cs
    rw [List.flatMap_map]
  rw [DLComparison.fsBytes, DLComparison.fsBytes, ← List.take_append_drop 5 commitments, hone,
    List.flatMap_append, hflatMap (commitments.take 5), hfirst, ← hflatMap, List.append_assoc]
  simp

end DLComparison

section TStrictlyLowerTriangular

variable {row col : LabeledPolynomial F} {row_commit col_commit : LabeledCommitment C}
  {row_random col_random : Rand} {rng rng' : R} {proof : TStrictlyLowerTriangular.Proof C ZP OP}

theorem TStrictlyLowerTriangular.prove_absorbs (hS : S.Lawful) {fs_rng fs_rng' : FS}
    (h : TStrictlyLowerTriangular.prove S roots t domain_k domain_h row row_commit row_random col
      col_commit col_random enforced_degree_bound fs_rng rng = .ok (proof, fs_rng', rng')) :
    ∃ bytes, fs_rng' = FiatShamirRng.absorb (FiatShamirRng.absorb fs_rng
      (protocolBytes "t-Strictly Lower Triangular Test")) bytes := by
  simp only [TStrictlyLowerTriangular.prove] at h
  by_cases ht : t > domain_h.size
  · rw [if_pos ht] at h
    cases h
  · rw [if_neg ht] at h
    simp only [bind_eq_ok_iff, Prod.exists] at h
    obtain ⟨_, _, _, _, _, _, _, _, _, _, _, _, _, _, _, _, dl_proof, fs_rng₁, rng₁, hdl, heq⟩ := h
    cases heq
    obtain ⟨bytes, _, hbytes⟩ := DLComparison.prove_absorbs hS hdl
    exact ⟨_, hbytes⟩

end TStrictlyLowerTriangular

section TFT

variable {serialize : TFT.Proof C ZP OP → List UInt8} {o : TFT.Oracles F C Rand} {rng rng' : R}
  {proof_bytes : List UInt8}

theorem TFT.prove_absorbs (hS : S.Lawful) {fs_rng fs_rng' : FS}
    (h : TFT.prove S serialize roots t domain_k domain_h enforced_degree_bound o fs_rng rng =
      .ok (proof_bytes, fs_rng', rng')) :
    ∃ bytes_a bytes_b, fs_rng' = FiatShamirRng.absorb (FiatShamirRng.absorb
      (FiatShamirRng.absorb (FiatShamirRng.absorb fs_rng
        (protocolBytes "t-Strictly Lower Triangular Test")) bytes_a)
        (protocolBytes "t-Strictly Lower Triangular Test")) bytes_b := by
  simp only [TFT.prove, bind_eq_ok_iff, Prod.exists] at h
  obtain ⟨_, fs_rng₁, _, ha, _, fs_rng₂, _, hb, _, _, _, heq⟩ := h
  cases heq
  obtain ⟨bytes_a, rfl⟩ := TStrictlyLowerTriangular.prove_absorbs hS ha
  obtain ⟨bytes_b, rfl⟩ := TStrictlyLowerTriangular.prove_absorbs hS hb
  exact ⟨bytes_a, bytes_b, rfl⟩

end TFT

end Runs

/-! ### What the verifiers absorb, whatever they answer -/

section Verifiers

variable (S) (roots : ProofOfFunctionRelation.SquareRootField F) (t : Nat)
  (domain_k domain_h : EvaluationDomain F) (enforced_degree_bound : Option Nat)

theorem TStrictlyLowerTriangular.verify_absorbed_length (row_commit col_commit : LabeledCommitment C)
    (proof : TStrictlyLowerTriangular.Proof C ZP OP) (fs_rng : Transcript) :
    (TStrictlyLowerTriangular.verify S roots t domain_k domain_h row_commit col_commit
      enforced_degree_bound proof fs_rng).2.absorbed.length ≤ fs_rng.absorbed.length + 1 := by
  rw [TStrictlyLowerTriangular.verify]
  split
  · exact Nat.le_succ _
  · rw [DLComparison.verify, Transcript.absorb_absorbed, List.length_append, List.length_singleton]

theorem TFT.verify_absorbed_length (deserialize : List UInt8 → Option (TFT.Proof C ZP OP))
    (row_a col_a row_b col_b row_c col_c val_c : LabeledCommitment C) (proof_bytes : List UInt8)
    (fs_rng : Transcript) :
    (TFT.verify S deserialize roots t row_a col_a row_b col_b row_c col_c val_c enforced_degree_bound
      domain_h domain_k proof_bytes fs_rng).2.absorbed.length ≤ fs_rng.absorbed.length + 2 := by
  rw [TFT.verify]
  split
  · exact Nat.le_add_right _ _
  · rename_i proof _
    have ha := TStrictlyLowerTriangular.verify_absorbed_length S roots t domain_k domain_h
      enforced_degree_bound row_a col_a proof.aSltProof fs_rng
    split
    · rename_i fs_rng₁ hverify
      rw [hverify] at ha
      exact ha.trans (Nat.le_succ _)
    · rename_i fs_rng₁ hverify
      rw [hverify] at ha
      have hb := TStrictlyLowerTriangular.verify_absorbed_length S roots t domain_k domain_h
        enforced_degree_bound row_b col_b proof.bSltProof fs_rng₁
      split
      · rename_i fs_rng₂ hverify₂
        rw [hverify₂] at hb
        exact hb.trans (Nat.add_le_add_right ha 1)
      · rename_i fs_rng₂ hverify₂
        rw [hverify₂] at hb
        exact hb.trans (Nat.add_le_add_right ha 1)

end Verifiers

/-! ### Prover and verifier -/

section Transcripts

variable {roots : ProofOfFunctionRelation.SquareRootField F} {t : Nat}
  {domain_k domain_h : EvaluationDomain F} {enforced_degree_bound : Option Nat}

section Two

variable {row col : LabeledPolynomial F} {row_commit col_commit : LabeledCommitment C}
  {row_random col_random : Rand} {rng rng' : R}

theorem DLComparison.transcript_ne (hS : S.Lawful) {proof : DLComparison.Proof C ZP OP}
    {fs_rng fs_rng' : Transcript}
    (hprove : DLComparison.prove S roots domain_k domain_h row row_commit row_random col col_commit
      col_random enforced_degree_bound fs_rng rng = .ok (proof, fs_rng', rng')) :
    (DLComparison.verify S roots domain_k domain_h row_commit col_commit enforced_degree_bound proof
      fs_rng).2 ≠ fs_rng' := by
  intro heq
  obtain ⟨bytes, hbytes, hprover⟩ := DLComparison.prove_absorbs hS hprove
  have habsorbed := congrArg Transcript.absorbed (heq.trans hprover)
  rw [DLComparison.verify, Transcript.absorb_absorbed, Transcript.absorb_absorbed,
    List.append_cancel_left_eq, List.cons.injEq, List.self_eq_append_right] at habsorbed
  exact hbytes habsorbed.1

theorem TStrictlyLowerTriangular.transcript_ne (hS : S.Lawful)
    {proof : TStrictlyLowerTriangular.Proof C ZP OP} {fs_rng fs_rng' : Transcript}
    (hprove : TStrictlyLowerTriangular.prove S roots t domain_k domain_h row row_commit row_random col
      col_commit col_random enforced_degree_bound fs_rng rng = .ok (proof, fs_rng', rng')) :
    (TStrictlyLowerTriangular.verify S roots t domain_k domain_h row_commit col_commit
      enforced_degree_bound proof fs_rng).2 ≠ fs_rng' := by
  intro heq
  obtain ⟨bytes, hprover⟩ := TStrictlyLowerTriangular.prove_absorbs hS hprove
  have hverifier := TStrictlyLowerTriangular.verify_absorbed_length S roots t domain_k domain_h
    enforced_degree_bound row_commit col_commit proof fs_rng
  rw [heq, hprover, Transcript.absorb_absorbed, Transcript.absorb_absorbed] at hverifier
  simp only [List.length_append, List.length_singleton] at hverifier
  omega

end Two

theorem TFT.transcript_ne (hS : S.Lawful) {serialize : TFT.Proof C ZP OP → List UInt8}
    (deserialize : List UInt8 → Option (TFT.Proof C ZP OP)) {o : TFT.Oracles F C Rand}
    {proof_bytes : List UInt8} {fs_rng fs_rng' : Transcript} {rng rng' : R}
    (hprove : TFT.prove S serialize roots t domain_k domain_h enforced_degree_bound o fs_rng rng =
      .ok (proof_bytes, fs_rng', rng')) :
    (TFT.verify S deserialize roots t o.rowA.commit o.colA.commit o.rowB.commit o.colB.commit
      o.rowC.commit o.colC.commit o.valC.commit enforced_degree_bound domain_h domain_k proof_bytes
      fs_rng).2 ≠ fs_rng' := by
  intro heq
  obtain ⟨bytes_a, bytes_b, hprover⟩ := TFT.prove_absorbs hS hprove
  have hverifier := TFT.verify_absorbed_length S roots t domain_k domain_h enforced_degree_bound
    deserialize o.rowA.commit o.colA.commit o.rowB.commit o.colB.commit o.rowC.commit o.colC.commit
    o.valC.commit proof_bytes fs_rng
  rw [heq, hprover] at hverifier
  simp only [Transcript.absorb_absorbed, List.length_append, List.length_singleton] at hverifier
  omega

end Transcripts

/-- No successful prover leaves the transcript that its verifier builds from the proof. -/
theorem transcripts_ne (hS : S.Lawful) (serialize : TFT.Proof C ZP OP → List UInt8)
    (deserialize : List UInt8 → Option (TFT.Proof C ZP OP))
    (roots : ProofOfFunctionRelation.SquareRootField F) (t : Nat)
    (domain_k domain_h : EvaluationDomain F) (enforced_degree_bound : Option Nat)
    (o : TFT.Oracles F C Rand) (fs_rng : Transcript) (rng : R) :
    (∀ proof fs_rng' rng', DLComparison.prove S roots domain_k domain_h o.rowA.poly o.rowA.commit
        o.rowA.random o.colA.poly o.colA.commit o.colA.random enforced_degree_bound fs_rng rng =
          .ok (proof, fs_rng', rng') →
      (DLComparison.verify S roots domain_k domain_h o.rowA.commit o.colA.commit
        enforced_degree_bound proof fs_rng).2 ≠ fs_rng') ∧
    (∀ proof fs_rng' rng', TStrictlyLowerTriangular.prove S roots t domain_k domain_h o.rowA.poly
        o.rowA.commit o.rowA.random o.colA.poly o.colA.commit o.colA.random enforced_degree_bound
        fs_rng rng = .ok (proof, fs_rng', rng') →
      (TStrictlyLowerTriangular.verify S roots t domain_k domain_h o.rowA.commit o.colA.commit
        enforced_degree_bound proof fs_rng).2 ≠ fs_rng') ∧
    (∀ proof_bytes fs_rng' rng', TFT.prove S serialize roots t domain_k domain_h
        enforced_degree_bound o fs_rng rng = .ok (proof_bytes, fs_rng', rng') →
      (TFT.verify S deserialize roots t o.rowA.commit o.colA.commit o.rowB.commit o.colB.commit
        o.rowC.commit o.colC.commit o.valC.commit enforced_degree_bound domain_h domain_k
        proof_bytes fs_rng).2 ≠ fs_rng') := by
  exact ⟨fun _ _ _ => DLComparison.transcript_ne hS, fun _ _ _ => TStrictlyLowerTriangular.transcript_ne hS,
    fun _ _ _ => TFT.transcript_ne hS deserialize⟩

/-! ### The entry below the diagonal -/

section Entry

def domain17 : EvaluationDomain (ZMod 17) where
  size := 2
  groupGen := -1
  size_pos := Nat.two_pos
  primitive := IsPrimitiveRoot.neg_one 17 (by decide)

/-- `A` and `B` have an entry in row one and column zero, `C` is the diagonal behind row zero. -/
def entryOracles : TFT.Oracles (ZMod 17) (DensePolynomial (ZMod 17)) Unit :=
  ⟨idealOracle ⟨"a_col", .constant 16, none⟩, idealOracle ⟨"a_row", .constant 1, none⟩,
    idealOracle ⟨"b_col", .constant 16, none⟩, idealOracle ⟨"b_row", .constant 1, none⟩,
    idealOracle ⟨"c_row", ⟨[0, 16]⟩, none⟩, idealOracle ⟨"c_col", ⟨[0, 16]⟩, none⟩,
    idealOracle ⟨"c_val", ⟨[1, 1]⟩, none⟩⟩

theorem setup17_lawful : (idealScheme setup17).Lawful := by
  constructor
  · intro polys rng cs rands rng' h
    rw [idealScheme_commit] at h
    cases h
    exact List.length_map _
  · intro c
    exact List.cons_ne_nil _ _

theorem entry_encodesLower :
    EncodesLower domain17 domain17 (.constant 16) (.constant 1) := by
  intro x _
  refine ⟨1, 0, Nat.one_pos, by decide, ?_, ?_⟩
  · rw [DensePolynomial.evaluate_constant]
    decide
  · rw [DensePolynomial.evaluate_constant]
    decide

theorem entry_encodesDiagonal :
    EncodesDiagonal domain17 domain17 1 ⟨[0, 16]⟩ ⟨[0, 16]⟩ ⟨[1, 1]⟩ := by
  constructor <;> decide

theorem roots17_sqrt : roots17.sqrt (domain17.element 1) = some 4 := by decide

theorem exists_entry_prove : ∃ proof fs_rng' rng', TFT.prove (idealScheme setup17) serialize17 roots17
    1 domain17 domain17 none entryOracles (⟨[]⟩ : Transcript) () =
      .ok (serialize17 proof, fs_rng', rng') := by
  have hpolys : ∀ p ∈ [entryOracles.rowA.poly, entryOracles.colA.poly, entryOracles.rowB.poly,
      entryOracles.colB.poly, entryOracles.rowC.poly, entryOracles.colC.poly, entryOracles.valC.poly],
      p.degreeBound = none ∧ p.polynomial.coeffs.length ≤ domain17.size := by decide
  obtain ⟨proof, fs_rng', rng', hprove, _⟩ := TFT.complete setup17 serialize17
    (by decide : 1 < domain17.size) roots17_sqrt le_rfl hpolys (by decide) entry_encodesLower
    entry_encodesLower entry_encodesDiagonal rfl (⟨[]⟩ : Transcript) ()
  exact ⟨proof, fs_rng', rng', hprove⟩

theorem transcripts_ne_entry :
    (∀ proof fs_rng' rng', DLComparison.prove (idealScheme setup17) roots17 domain17 domain17
        entryOracles.rowA.poly entryOracles.rowA.commit () entryOracles.colA.poly
        entryOracles.colA.commit () none (⟨[]⟩ : Transcript) () = .ok (proof, fs_rng', rng') →
      (DLComparison.verify (idealScheme setup17) roots17 domain17 domain17 entryOracles.rowA.commit
        entryOracles.colA.commit none proof (⟨[]⟩ : Transcript)).2 ≠ fs_rng') ∧
    (∀ proof fs_rng' rng', TStrictlyLowerTriangular.prove (idealScheme setup17) roots17 1 domain17
        domain17 entryOracles.rowA.poly entryOracles.rowA.commit () entryOracles.colA.poly
        entryOracles.colA.commit () none (⟨[]⟩ : Transcript) () = .ok (proof, fs_rng', rng') →
      (TStrictlyLowerTriangular.verify (idealScheme setup17) roots17 1 domain17 domain17
        entryOracles.rowA.commit entryOracles.colA.commit none proof (⟨[]⟩ : Transcript)).2 ≠ fs_rng') ∧
    ∃ proof fs_rng' rng', TFT.prove (idealScheme setup17) serialize17 roots17 1 domain17 domain17
        none entryOracles (⟨[]⟩ : Transcript) () = .ok (serialize17 proof, fs_rng', rng') ∧
      (TFT.verify (idealScheme setup17) (fun bytes => if bytes = serialize17 proof then some proof
        else none) roots17 1 entryOracles.rowA.commit entryOracles.colA.commit
        entryOracles.rowB.commit entryOracles.colB.commit entryOracles.rowC.commit
        entryOracles.colC.commit entryOracles.valC.commit none domain17 domain17
        (serialize17 proof) (⟨[]⟩ : Transcript)).2 ≠ fs_rng' := by
  obtain ⟨proof, fs_rng', rng', hprove⟩ := exists_entry_prove
  obtain ⟨htwo, hlower, htft⟩ := transcripts_ne setup17_lawful serialize17
    (fun bytes => if bytes = serialize17 proof then some proof else none) roots17 1 domain17 domain17
    none entryOracles ⟨[]⟩ ()
  exact ⟨htwo, hlower, proof, fs_rng', rng', hprove, htft _ _ _ hprove⟩

/-- The three provers succeed here, and none of them agrees with its verifier. -/
theorem entry_transcripts_differ :
    (∃ proof fs_rng' rng', DLComparison.prove (idealScheme setup17) roots17 domain17 domain17
        entryOracles.rowA.poly entryOracles.rowA.commit () entryOracles.colA.poly
        entryOracles.colA.commit () none (⟨[]⟩ : Transcript) () = .ok (proof, fs_rng', rng') ∧
      (DLComparison.verify (idealScheme setup17) roots17 domain17 domain17 entryOracles.rowA.commit
        entryOracles.colA.commit none proof (⟨[]⟩ : Transcript)).2 ≠ fs_rng') ∧
    (∃ proof fs_rng' rng', TStrictlyLowerTriangular.prove (idealScheme setup17) roots17 1 domain17
        domain17 entryOracles.rowA.poly entryOracles.rowA.commit () entryOracles.colA.poly
        entryOracles.colA.commit () none (⟨[]⟩ : Transcript) () = .ok (proof, fs_rng', rng') ∧
      (TStrictlyLowerTriangular.verify (idealScheme setup17) roots17 1 domain17 domain17
        entryOracles.rowA.commit entryOracles.colA.commit none proof (⟨[]⟩ : Transcript)).2 ≠ fs_rng') ∧
    ∃ proof fs_rng' rng', TFT.prove (idealScheme setup17) serialize17 roots17 1 domain17 domain17
        none entryOracles (⟨[]⟩ : Transcript) () = .ok (serialize17 proof, fs_rng', rng') ∧
      ∀ deserialize, deserialize (serialize17 proof) = some proof →
        (TFT.verify (idealScheme setup17) deserialize roots17 1 entryOracles.rowA.commit
          entryOracles.colA.commit entryOracles.rowB.commit entryOracles.colB.commit
          entryOracles.rowC.commit entryOracles.colC.commit entryOracles.valC.commit none domain17
          domain17 (serialize17 proof) (⟨[]⟩ : Transcript)).2 ≠ fs_rng' := by
  have hrow : entryOracles.rowA.poly.polynomial.coeffs.length ≤ domain17.size := by decide
  have hcol : entryOracles.colA.poly.polynomial.coeffs.length ≤ domain17.size := by decide
  have ht : 1 < domain17.size := by decide
  refine ⟨?_, ?_, ?_⟩
  · obtain ⟨proof, fs_rng', rng', hprove, _⟩ := DLComparison.complete setup17 roots17_sqrt le_rfl
      hrow hcol entry_encodesLower rfl rfl rfl (⟨[]⟩ : Transcript) ()
    exact ⟨proof, fs_rng', rng', hprove, DLComparison.transcript_ne setup17_lawful hprove⟩
  · obtain ⟨proof, fs_rng', rng', hprove, _⟩ := TStrictlyLowerTriangular.complete setup17
      ht roots17_sqrt le_rfl hrow hcol entry_encodesLower rfl rfl rfl (⟨[]⟩ : Transcript) ()
    exact ⟨proof, fs_rng', rng', hprove, TStrictlyLowerTriangular.transcript_ne setup17_lawful hprove⟩
  · obtain ⟨proof, fs_rng', rng', hprove⟩ := exists_entry_prove
    exact ⟨proof, fs_rng', rng', hprove, fun deserialize _ =>
      TFT.transcript_ne setup17_lawful deserialize hprove⟩

end Entry

end Lootbox.FunctionRelation
