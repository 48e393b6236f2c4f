import Lootbox.Commitment.FunctionalTriple
import Lootbox.Commitment.IndexPrivateMarlin
import Lootbox.Commitment.WinCircuit

/-!
# The index of the win circuit

The circuit of a win makes the same calls for every input of one length, so its index is that of
the inputs that are all zero. The padding never exceeds the domain of its entries.
-/

namespace Lootbox.AcCompiler

variable {F : Type}

/-! ### The order of the calls -/

section Calls

theorem length_inputBitCalls (bits : List (F × F)) : ∀ idx,
    (inputBitCalls idx bits).length = 2 * bits.length := by
  induction bits with
  | nil => exact fun _ => rfl
  | cons bit bits ih =>
    intro idx
    rw [inputBitCalls, List.length_cons, List.length_cons, ih, List.length_cons, Nat.mul_add]

theorem inputBitCalls_isInput (bits : List (F × F)) : ∀ idx,
    ∀ call ∈ inputBitCalls idx bits, call.isInput := by
  induction bits with
  | nil => exact fun _ => nofun
  | cons bit bits ih =>
    intro idx
    rw [inputBitCalls, List.forall_mem_cons, List.forall_mem_cons]
    exact ⟨trivial, trivial, ih (idx + 1)⟩

theorem xorCalls_isGate (a c minus_one next : Nat) :
    ∀ call ∈ (xorCalls a c minus_one next : List (Call F)), call.isGate false := by
  simp [xorCalls, Call.isGate]

theorem length_multiplyXorsCalls (minus_one count : Nat) : ∀ idx last,
    (multiplyXorsCalls minus_one count idx last : List (Call F)).length = 8 * count := by
  induction count with
  | zero => exact fun _ _ => rfl
  | succ count ih =>
    intro idx last
    rw [multiplyXorsCalls, List.length_append, List.length_cons, ih]
    change 7 + (8 * count + 1) = _
    omega

theorem multiplyXorsCalls_isGate (minus_one count : Nat) : ∀ idx last,
    ∀ call ∈ (multiplyXorsCalls minus_one count idx last : List (Call F)), call.isGate false := by
  induction count with
  | zero => exact fun _ _ => nofun
  | succ count ih =>
    intro idx last
    rw [multiplyXorsCalls, List.forall_mem_append, List.forall_mem_cons]
    exact ⟨xorCalls_isGate _ _ _ _, rfl, ih _ _⟩

theorem length_witnessCalls (count : Nat) :
    (witnessCalls count : List (Call F)).length = 8 * count + 7 := by
  rw [witnessCalls, List.length_append, length_multiplyXorsCalls, Nat.add_comm]
  rfl

theorem witnessCalls_isGate (count : Nat) :
    ∀ call ∈ (witnessCalls count : List (Call F)), call.isGate false := by
  rw [witnessCalls, List.forall_mem_append]
  exact ⟨xorCalls_isGate _ _ _ _, multiplyXorsCalls_isGate _ _ _ _⟩

variable [Field F]

theorem length_inputCalls (bits : List (F × F)) : (inputCalls bits).length = 2 * bits.length + 2 := by
  rw [inputCalls, List.length_append, length_inputBitCalls]
  rfl

theorem inputCalls_isInput (bits : List (F × F)) : ∀ call ∈ inputCalls bits, call.isInput := by
  rw [inputCalls, List.forall_mem_append]
  exact ⟨inputBitCalls_isInput bits 0, by simp [Call.isInput]⟩

theorem length_xorCircuitCalls {bits : List (F × F)} (hne : bits ≠ []) :
    (xorCircuitCalls bits).length = 10 * bits.length + 2 := by
  have hpos := List.length_pos_iff.mpr hne
  rw [xorCircuitCalls, List.length_append, List.length_append, length_inputCalls,
    length_witnessCalls, List.length_singleton]
  omega

/-! ### Other inputs -/

/-- The values of the inputs, in the order of their calls. -/
def inputValues (bits : List (F × F)) : List F :=
  (bits.flatMap fun bit => [bit.1, bit.2]) ++ [0 - 1, 1]

omit [Field F] in
theorem setInputs_inputBitCalls {bits : List (F × F)} {rest : List (Call F)} {xs : List F} :
    ∀ {bits' : List (F × F)} {idx : Nat}, bits'.length = bits.length →
      setInputs (inputBitCalls idx bits ++ rest) ((bits'.flatMap fun bit => [bit.1, bit.2]) ++ xs) =
        inputBitCalls idx bits' ++ setInputs rest xs := by
  induction bits with
  | nil =>
    intro bits' idx hlen
    rw [List.eq_nil_of_length_eq_zero hlen]
    rfl
  | cons bit bits ih =>
    intro bits' idx hlen
    cases bits' with
    | nil => cases hlen
    | cons bit' bits' =>
      have hrest := @ih bits' (idx + 1) (Nat.succ.inj hlen)
      simp only [inputBitCalls, List.flatMap_cons, List.cons_append, List.nil_append, setInputs]
      rw [hrest]

def gateCalls (count : Nat) : List (Call F) :=
  witnessCalls count ++ [.enforceConstraint (10 * count + 10) (2 * count + 3) .Mul true]

omit [Field F] in
theorem gateCalls_not_isInput (count : Nat) :
    ∀ call ∈ (gateCalls count : List (Call F)), ¬ call.isInput := by
  rw [gateCalls, List.forall_mem_append, List.forall_mem_singleton]
  exact ⟨fun call hcall => (witnessCalls_isGate _ call hcall).not_isInput, id⟩

theorem xorCircuitCalls_eq (bits : List (F × F)) :
    xorCircuitCalls bits = inputCalls bits ++ gateCalls (bits.length - 1) :=
  List.append_assoc _ _ _

theorem setInputs_xorCircuitCalls {bits bits' : List (F × F)} (hlen : bits'.length = bits.length) :
    setInputs (xorCircuitCalls bits) (inputValues bits') = xorCircuitCalls bits' := by
  rw [xorCircuitCalls_eq, xorCircuitCalls_eq, hlen]
  simp only [inputCalls, inputValues, List.append_assoc]
  rw [setInputs_inputBitCalls hlen]
  simp only [List.cons_append, List.nil_append, setInputs]
  rw [setInputs_gates (gateCalls_not_isInput _)]

omit [Field F] in
theorem inputCount_append {inputs rest : List (Call F)} (hin : ∀ call ∈ inputs, call.isInput)
    (hrest : ∀ call ∈ rest, ¬ call.isInput) : inputCount (inputs ++ rest) = inputs.length := by
  induction inputs with
  | nil => exact inputCount_gates hrest
  | cons call inputs ih =>
    rw [List.forall_mem_cons] at hin
    cases call with
    | enforceConstraint => exact False.elim hin.1
    | newInputVariable label value => exact congrArg (· + 1) (ih hin.2)

theorem inputCount_xorCircuitCalls (bits : List (F × F)) :
    inputCount (xorCircuitCalls bits) = 2 * bits.length + 2 := by
  rw [xorCircuitCalls_eq, inputCount_append (inputCalls_isInput bits) (gateCalls_not_isInput _),
    length_inputCalls]

theorem length_inputValues (bits : List (F × F)) :
    (inputValues bits).length = 2 * bits.length + 2 := by
  have hbits : (bits.flatMap fun bit => [bit.1, bit.2]).length = 2 * bits.length := by
    induction bits with
    | nil => rfl
    | cons bit bits ih =>
      rw [List.flatMap_cons, List.length_append, ih, Nat.add_comm]
      rfl
  rw [inputValues, List.length_append, hbits]
  rfl

end Calls

/-! ### What the calls leave -/

section Built

variable [Field F] {bits : List (F × F)} {cb : ConstraintBuilder F} {vars : List (Variable F)}
  {v : Variable F}

theorem Traced.outputs {calls : List (Call F)} (h : Traced calls cb vars) :
    (vars.map fun u => u.variableType == .Output) = calls.map Call.isOutput :=
  runCalls_isOutput h.run

theorem Traced.length_vars {calls : List (Call F)} (h : Traced calls cb vars) :
    vars.length = calls.length := by
  have hlength := congrArg List.length h.outputs
  rw [List.length_map, List.length_map] at hlength
  exact hlength

/-- What `finalize` reads of the builder. -/
structure WinCounts (n : Nat) (cb : ConstraintBuilder F) : Prop where
  inputs : cb.numberOfInputs = 2 * n + 2
  gates : cb.gates.length = 8 * n
  outputs : cb.numberOfOutputs = 1
  assignment : cb.assignment.length = 10 * n + 3

omit [Field F] in
theorem isOutput_of_isGate {call : Call F} (h : call.isGate false) : call.isOutput = false := by
  cases call with
  | newInputVariable => rfl
  | enforceConstraint => exact h

omit [Field F] in
theorem isOutput_of_isInput {call : Call F} (h : call.isInput) : call.isOutput = false := by
  cases call with
  | newInputVariable => rfl
  | enforceConstraint => exact False.elim h

theorem filter_outputs (h : Traced (xorCircuitCalls bits) cb (vars ++ [v])) :
    ((vars ++ [v]).filter fun u => u.variableType == .Output) = [v] := by
  have hfront : ∀ call ∈ inputCalls bits ++ witnessCalls (bits.length - 1),
      call.isOutput = false := by
    rw [List.forall_mem_append]
    exact ⟨fun call hcall => isOutput_of_isInput (inputCalls_isInput bits call hcall),
      fun call hcall => isOutput_of_isGate (witnessCalls_isGate _ call hcall)⟩
  have hmarks := h.outputs
  rw [xorCircuitCalls, List.map_append, List.map_append, List.map_singleton,
    List.map_singleton] at hmarks
  obtain ⟨hvars, hlast⟩ := List.append_inj' hmarks rfl
  have hnone : (vars.filter fun u => u.variableType == .Output) = [] := by
    rw [List.filter_eq_nil_iff]
    intro u hu
    have hmem := List.mem_map_of_mem (f := fun u : Variable F => u.variableType == .Output) hu
    rw [hvars] at hmem
    obtain ⟨call, hcall, heq⟩ := List.mem_map.mp hmem
    rw [← heq, hfront call hcall]
    exact Bool.false_ne_true
  rw [List.filter_append, hnone, List.filter_singleton, List.cons.inj hlast |>.1]
  rfl

theorem winCounts (hne : bits ≠ []) (h : Traced (xorCircuitCalls bits) cb (vars ++ [v])) :
    WinCounts bits.length cb := by
  have hlen := h.length_vars
  rw [length_xorCircuitCalls hne] at hlen
  have hinputs := runCalls_numberOfInputs h.run
  rw [inputCount_xorCircuitCalls] at hinputs
  have hinputs : cb.numberOfInputs = 2 * bits.length + 2 := hinputs.trans (Nat.zero_add _)
  have hrows := h.built.inputs
  constructor
  · exact hinputs
  · omega
  · rw [h.built.outputs, filter_outputs h]
    rfl
  · rw [h.built.assignment, List.length_cons, List.length_map, hlen]

end Built

/-! ### Synthesis -/

section Synthesis

variable [Field F] {bits bits' : List (F × F)}

/-- `Circuit::synthesize` on `build_xor_circuit`; `none` stands for an error and for a panic. -/
def synthesizeXorCircuit (bits : List (F × F)) : Option (Circuit × ConstraintBuilder F) :=
  match (buildXorCircuit bits).run ConstraintBuilder.new with
  | (.ok (some ()), cb) => do
    let cb ← cb.finalize
    return (Circuit.fromConstraintBuilder cb, cb)
  | _ => none

theorem synthesizeXorCircuit_eq (hne : bits ≠ []) :
    synthesizeXorCircuit bits =
      (Circuit.synthesize (xorCircuitCalls bits)).map fun out => (out.1, out.2.1) := by
  cases bits with
  | nil => exact absurd rfl hne
  | cons bit bits =>
    obtain ⟨cb, vars, v, hrun, htraced, _⟩ := buildXorCircuit_traced bit bits
    rw [synthesizeXorCircuit, hrun, Circuit.synthesize, htraced.run]
    dsimp only [Option.bind_eq_bind, Option.bind_some]
    cases cb.finalize with
    | none => rfl
    | some cb' => rfl

theorem synthesizeXorCircuit_eq_some_iff (hne : bits ≠ []) {circuit : Circuit}
    {cb' : ConstraintBuilder F} :
    synthesizeXorCircuit bits = some (circuit, cb') ↔
      ∃ cb vars v, Traced (xorCircuitCalls bits) cb (vars ++ [v]) ∧ cb.finalize = some cb' ∧
        circuit = Circuit.fromConstraintBuilder cb' := by
  rw [synthesizeXorCircuit_eq hne, Option.map_eq_some_iff]
  cases bits with
  | nil => exact absurd rfl hne
  | cons bit bits =>
    constructor
    · rintro ⟨⟨circuit', cb'', vars'⟩, hsyn, heq⟩
      cases heq
      obtain ⟨cb, vars, v, _, htraced, _⟩ := buildXorCircuit_traced bit bits
      obtain ⟨cb₀, hrun, hfinal, hcircuit⟩ := synthesize_inv hsyn
      cases htraced.run.symm.trans hrun
      exact ⟨cb, vars, v, htraced, hfinal, hcircuit⟩
    · rintro ⟨cb, vars, v, htraced, hfinal, rfl⟩
      refine ⟨(_, cb', vars ++ [v]), ?_, rfl⟩
      simp only [Circuit.synthesize, htraced.run, Option.bind_eq_bind, Option.bind_some, hfinal]
      rfl

theorem synthesizeXorCircuit_circuit (hne : bits ≠ []) (hlen : bits'.length = bits.length)
    {circuit : Circuit} {cb : ConstraintBuilder F}
    (h : synthesizeXorCircuit bits = some (circuit, cb)) :
    ∃ cb', synthesizeXorCircuit bits' = some (circuit, cb') := by
  have hne' : bits' ≠ [] := by
    rintro rfl
    exact hne (List.eq_nil_of_length_eq_zero hlen.symm)
  obtain ⟨cb₀, vars, v, htraced, hfinal, rfl⟩ := (synthesizeXorCircuit_eq_some_iff hne).mp h
  have hvalues : (inputValues bits').length = inputCount (xorCircuitCalls bits) := by
    rw [length_inputValues, inputCount_xorCircuitCalls, hlen]
  obtain ⟨db, ws, hrun, hshape, _⟩ := runCalls_setInputs (SameShape.refl _) hvalues htraced.run
  rw [setInputs_xorCircuitCalls hlen] at hrun
  obtain ⟨db', hfinal', hcircuit⟩ := hshape.finalize hfinal
  refine ⟨db', ?_⟩
  rw [synthesizeXorCircuit_eq hne']
  simp only [Circuit.synthesize, hrun, Option.bind_eq_bind, Option.bind_some, hfinal']
  rw [← hcircuit]
  rfl

theorem synthesizeXorCircuit_map_fst (hne : bits ≠ []) (hlen : bits'.length = bits.length) :
    (synthesizeXorCircuit bits').map Prod.fst = (synthesizeXorCircuit bits).map Prod.fst := by
  have hne' : bits' ≠ [] := by
    rintro rfl
    exact hne (List.eq_nil_of_length_eq_zero hlen.symm)
  cases h : synthesizeXorCircuit bits with
  | some out =>
    obtain ⟨cb', h'⟩ := synthesizeXorCircuit_circuit hne hlen h
    rw [h']
    rfl
  | none =>
    cases h' : synthesizeXorCircuit bits' with
    | none => rfl
    | some out' =>
      obtain ⟨cb, hsome⟩ := synthesizeXorCircuit_circuit hne' hlen.symm h'
      rw [hsome] at h
      cases h

theorem synthesizeXorCircuit_isSome_iff (hne : bits ≠ []) :
    (synthesizeXorCircuit bits).isSome ↔ 10 * bits.length + 3 ≤ 2 ^ 31 := by
  rw [Option.isSome_iff_exists]
  constructor
  · rintro ⟨⟨circuit, cb'⟩, h⟩
    obtain ⟨cb, vars, v, htraced, hfinal, _⟩ := (synthesizeXorCircuit_eq_some_iff hne).mp h
    have hcounts := winCounts hne htraced
    obtain ⟨N, hN, _⟩ := finalize_eq_some_iff.mp hfinal
    have hle := nextPowerOf2_le hN
    rw [hcounts.gates, hcounts.inputs] at hle
    omega
  · intro hle
    cases bits with
    | nil => exact absurd rfl hne
    | cons bit bits =>
      obtain ⟨cb, vars, v, _, htraced, _⟩ := buildXorCircuit_traced bit bits
      have hcounts := winCounts hne htraced
      have hrows : cb.gates.length + cb.numberOfInputs + 1 = 10 * (bit :: bits).length + 3 := by
        rw [hcounts.gates, hcounts.inputs]
        omega
      rw [← hrows] at hle
      obtain ⟨k, hk, hval, _⟩ := nextPowerOf2_eq (Nat.succ_ne_zero _) hle
      have hsplits : Splits cb := by
        constructor
        · rw [hcounts.gates, hcounts.outputs, List.length_cons]
          omega
        · rw [hrows, hcounts.outputs, hcounts.assignment]
          exact Nat.sub_le _ _
      have hfinal := finalize_eq_some_iff.mpr ⟨2 ^ k, hk, hval, hsplits, rfl⟩
      exact ⟨_, (synthesizeXorCircuit_eq_some_iff hne).mpr ⟨cb, vars, v, htraced, hfinal, rfl⟩⟩

theorem padded_rows (hne : bits ≠ []) {circuit : Circuit} {cb' : ConstraintBuilder F}
    (h : synthesizeXorCircuit bits = some (circuit, cb')) :
    ∃ k, circuit.gates.length + circuit.numberOfInputs + 1 = 2 ^ k ∧
      10 * bits.length + 3 ≤ 2 ^ k ∧ circuit.numberOfInputs = 2 * bits.length + 2 := by
  obtain ⟨cb, vars, v, htraced, hfinal, rfl⟩ := (synthesizeXorCircuit_eq_some_iff hne).mp h
  have hcounts := winCounts hne htraced
  obtain ⟨N, hN, hle, hsplits, rfl⟩ := finalize_eq_some_iff.mp hfinal
  obtain ⟨k, hk, _, _⟩ := nextPowerOf2_eq (Nat.succ_ne_zero _) (nextPowerOf2_le hN)
  obtain rfl : N = 2 ^ k := Option.some.inj (hN.symm.trans hk)
  refine ⟨k, ?_, ?_, hcounts.inputs⟩
  · simp only [Circuit.fromConstraintBuilder]
    rw [length_padAt]
    omega
  · rw [hcounts.gates, hcounts.inputs] at hle
    omega

end Synthesis

/-! ### The index -/

section Index

open IndexPrivateMarlin

variable [Field F]

theorem foldl_compileGate_entriesC (number_of_inputs : Nat) (es : List (Gate × Nat)) :
    ∀ st : Matrices F, (es.foldl (compileGate number_of_inputs) st).entriesC =
      st.entriesC + es.length := by
  induction es with
  | nil => exact fun _ => rfl
  | cons e es ih =>
    intro st
    have hgate : (compileGate number_of_inputs st e).entriesC = st.entriesC + 1 := by
      unfold compileGate
      cases e.1.symbol with
      | Add => rfl
      | Mul => rfl
    rw [List.foldl_cons, ih, hgate, List.length_cons]
    omega

theorem gates_le_numberOfNonZeroEntries (circuit : Circuit) :
    circuit.gates.length ≤ (ac2tft (F := F) circuit).1.numberOfNonZeroEntries := by
  have hentries := foldl_compileGate_entriesC (F := F) circuit.numberOfInputs circuit.gates.zipIdx
    ⟨emptyMatrix (circuit.gates.length + circuit.numberOfInputs + 1),
      emptyMatrix (circuit.gates.length + circuit.numberOfInputs + 1),
      emptyMatrix (circuit.gates.length + circuit.numberOfInputs + 1), 0, 0, 0⟩
  rw [List.length_zipIdx, Nat.zero_add] at hentries
  rw [← hentries]
  exact (le_max_right _ _).trans (le_max_right _ _)

theorem pow_le_domain_size {params : EvaluationDomain.FftParameters F} {k entries : Nat}
    {domain : EvaluationDomain F} (hentries : 2 ^ k < 2 * entries)
    (hdomain : params.radix2Domain entries = some domain) : 2 ^ k ≤ domain.size := by
  rw [params.radix2Domain_size hdomain]
  apply Nat.pow_le_pow_right Nat.two_pos
  have hle : entries ≤ 2 ^ Nat.clog 2 entries := Nat.le_pow_clog (by decide) entries
  by_contra hlt
  have hpow : 2 ^ (Nat.clog 2 entries + 1) ≤ 2 ^ k := Nat.pow_le_pow_right Nat.two_pos (by omega)
  rw [pow_succ] at hpow
  omega

theorem checkDomainsSizes_xorCircuit (params : EvaluationDomain.FftParameters F)
    {bits : List (F × F)} (hne : bits ≠ []) {circuit : Circuit} {cb : ConstraintBuilder F}
    (h : synthesizeXorCircuit bits = some (circuit, cb)) :
    checkDomainsSizes params (ac2tft (F := F) circuit).1 = .ok true ↔
      (params.radix2Domain (ac2tft (F := F) circuit).1.numberOfNonZeroEntries).isSome := by
  obtain ⟨k, hrows, hpad, hinputs⟩ := padded_rows hne h
  have hpos := List.length_pos_iff.mpr hne
  have hentries := gates_le_numberOfNonZeroEntries (F := F) circuit
  have hconstraints : (ac2tft (F := F) circuit).1.numberOfConstraints = 2 ^ k := hrows
  cases hdomain : params.radix2Domain (ac2tft (F := F) circuit).1.numberOfNonZeroEntries with
  | none =>
    rw [checkDomainsSizes, hdomain]
    constructor
    · intro hok
      cases hok
    · intro hsome
      cases hsome
  | some domain =>
    have hle : 2 ^ k ≤ domain.size := pow_le_domain_size (by omega) hdomain
    rw [checkDomainsSizes, hdomain, need_some, ok_bind, hconstraints, decide_eq_true hle]
    exact iff_of_true rfl rfl

/-- The index that `commit_function`, `make_proof` and `verify` compute from the circuit. -/
def xorCircuitIndex [DecidableEq F] (params : EvaluationDomain.FftParameters F)
    (bits : List (F × F)) : Except IndexPrivateMarlin.Error (Index F) := do
  let (circuit, _) ← need .aborted (synthesizeXorCircuit bits)
  let (index_info, a, b, c) := ac2tft circuit
  index params index_info a b c

theorem checkDomainsSizes_xorCircuitIndex [DecidableEq F]
    {params : EvaluationDomain.FftParameters F} {bits : List (F × F)} (hne : bits ≠ [])
    {idx : Index F} (h : xorCircuitIndex params bits = .ok idx) :
    checkDomainsSizes params idx.indexInfo = .ok true := by
  obtain ⟨⟨circuit, cb⟩, hsyn, hindex⟩ := bind_eq_ok_iff.mp h
  rw [need_eq_ok_iff] at hsyn
  obtain ⟨domains, hdomains, hindex⟩ := bind_eq_ok_iff.mp hindex
  obtain ⟨_, _, hindex⟩ := bind_eq_ok_iff.mp hindex
  obtain ⟨_, _, hindex⟩ := bind_eq_ok_iff.mp hindex
  obtain ⟨_, _, hindex⟩ := bind_eq_ok_iff.mp hindex
  cases hindex
  apply (checkDomainsSizes_xorCircuit params hne hsyn).mpr
  obtain ⟨_, hsizes, _⟩ := bind_eq_ok_iff.mp hdomains
  obtain ⟨domain, hdomain, _⟩ := bind_eq_ok_iff.mp hsizes
  rw [need_eq_ok_iff] at hdomain
  exact Option.isSome_iff_exists.mpr ⟨domain, hdomain⟩

theorem xorCircuitIndex_eq [DecidableEq F] (params : EvaluationDomain.FftParameters F)
    {bits bits' : List (F × F)} (hne : bits ≠ []) (hlen : bits'.length = bits.length) :
    xorCircuitIndex params bits' = xorCircuitIndex params bits := by
  have hcircuit := synthesizeXorCircuit_map_fst hne hlen
  rw [xorCircuitIndex, xorCircuitIndex]
  cases h : synthesizeXorCircuit bits with
  | none =>
    rw [h, Option.map_none, Option.map_eq_none_iff] at hcircuit
    rw [hcircuit]
  | some out =>
    obtain ⟨circuit, cb⟩ := out
    obtain ⟨cb', h'⟩ := synthesizeXorCircuit_circuit hne hlen h
    rw [h']
    rfl

end Index

/-! ### Decision and hiding -/

section Win

open IndexPrivateMarlin

variable [Field F]

def bitValue (bit : Bool) : F := if bit then 1 else 0

theorem xorValue_bitValue (x y : Bool) :
    xorValue (bitValue x, bitValue y) = (bitValue (xor x y) : F) := by
  cases x <;> cases y <;> simp only [xorValue, bitValue, Bool.xor_false, Bool.xor_true,
    Bool.not_true, Bool.not_false, if_true, if_false, Bool.false_eq_true] <;> ring

theorem prod_bitValue (bits : List Bool) :
    (bits.map bitValue).prod = (if ∀ bit ∈ bits, bit = true then 1 else 0 : F) := by
  induction bits with
  | nil => simp
  | cons bit bits ih =>
    rw [List.map_cons, List.prod_cons, ih]
    cases bit with
    | true => simp [bitValue]
    | false => simp [bitValue]

theorem prod_xorValue (a b : List Bool) :
    (((a.map bitValue).zip (b.map bitValue)).map xorValue).prod =
      (if ∀ p ∈ a.zip b, xor p.1 p.2 = true then 1 else 0 : F) := by
  have hmap : ((a.map bitValue).zip (b.map bitValue)).map xorValue =
      (((a.zip b).map fun p => xor p.1 p.2).map bitValue : List F) := by
    rw [List.zip_map, List.map_map, List.map_map]
    apply List.map_congr_left
    intro p _
    exact xorValue_bitValue p.1 p.2
  rw [hmap, prod_bitValue]
  simp only [List.forall_mem_map]

/-- For all vectors of one length `n`: on bits the only output is one exactly if every exclusive or
is, and on field elements neither the circuit nor the index depends on the values. -/
theorem win_circuit_correct {n : Nat} (hn : 0 < n) :
    (∀ a b : List Bool, a.length = n → b.length = n →
      ∃ (cb : ConstraintBuilder F) (vars : List (Variable F)) (v : Variable F),
        (buildXorCircuit ((a.map bitValue).zip (b.map bitValue))).run ConstraintBuilder.new =
          (.ok (some ()), cb) ∧
        runCalls (xorCircuitCalls ((a.map bitValue).zip (b.map bitValue)))
          (ConstraintBuilder.new, []) = some (cb, vars) ∧
        (vars.filter fun u => u.variableType == .Output) = [v] ∧
        v.value = if ∀ p ∈ a.zip b, xor p.1 p.2 = true then 1 else 0) ∧
    ∀ a b a' b' : List F, a.length = n → b.length = n → a'.length = n → b'.length = n →
      ((synthesizeXorCircuit (a.zip b)).isSome ↔ 10 * n + 3 ≤ 2 ^ 31) ∧
      (synthesizeXorCircuit (a.zip b)).map Prod.fst =
        (synthesizeXorCircuit (a'.zip b')).map Prod.fst ∧
      ∀ (params : EvaluationDomain.FftParameters F) [DecidableEq F],
        xorCircuitIndex params (a.zip b) =
          xorCircuitIndex params ((List.replicate n 0).zip (List.replicate n 0)) ∧
        (∀ idx, xorCircuitIndex params (a.zip b) = .ok idx →
          checkDomainsSizes params idx.indexInfo = .ok true) ∧
        ∀ circuit cb, synthesizeXorCircuit (a.zip b) = some (circuit, cb) →
          (checkDomainsSizes params (ac2tft (F := F) circuit).1 = .ok true ↔
            (params.radix2Domain (ac2tft (F := F) circuit).1.numberOfNonZeroEntries).isSome) := by
  have hzip : ∀ {α β : Type} {xs : List α} {ys : List β}, xs.length = n → ys.length = n →
      (xs.zip ys).length = n := by
    intro α β xs ys hxs hys
    rw [List.length_zip, hxs, hys, Nat.min_self]
  have hne : ∀ {α β : Type} {xs : List α} {ys : List β}, xs.length = n → ys.length = n →
      xs.zip ys ≠ [] := by
    intro α β xs ys hxs hys
    rw [← List.length_pos_iff, hzip hxs hys]
    exact hn
  constructor
  · intro a b ha hb
    rw [← prod_xorValue (F := F)]
    have hbits : (a.map bitValue : List F).zip (b.map bitValue : List F) ≠ [] := by
      apply hne
      · rw [List.length_map, ha]
      · rw [List.length_map, hb]
    obtain ⟨bit, bits, heq⟩ := List.exists_cons_of_ne_nil hbits
    rw [heq]
    obtain ⟨cb, vars, v, hrun, htraced, hvalue⟩ := buildXorCircuit_traced bit bits
    exact ⟨cb, vars ++ [v], v, hrun, htraced.run, filter_outputs htraced, hvalue⟩
  · intro a b a' b' ha hb ha' hb'
    have hlen : (a.zip b).length = (a'.zip b').length := (hzip ha hb).trans (hzip ha' hb').symm
    refine ⟨?_, synthesizeXorCircuit_map_fst (hne ha' hb') hlen, ?_⟩
    · rw [synthesizeXorCircuit_isSome_iff (hne ha hb), hzip ha hb]
    · intro params _
      refine ⟨xorCircuitIndex_eq params (hne List.length_replicate List.length_replicate) ?_,
        fun idx h => checkDomainsSizes_xorCircuitIndex (hne ha hb) h, ?_⟩
      · rw [hzip ha hb, hzip List.length_replicate List.length_replicate]
      · exact fun circuit cb h => checkDomainsSizes_xorCircuit params (hne ha hb) h

/-- Three bits of a win and three zeros, over three elements. -/
theorem win_circuit_correct_three :
    (∃ (cb : ConstraintBuilder (ZMod 3)) (vars : List (Variable (ZMod 3)))
      (v : Variable (ZMod 3)),
      (buildXorCircuit [(1, 0), (0, 1), (1, 0)]).run ConstraintBuilder.new = (.ok (some ()), cb) ∧
      runCalls (xorCircuitCalls [(1, 0), (0, 1), (1, 0)]) (ConstraintBuilder.new, []) =
        some (cb, vars) ∧
      (vars.filter fun u => u.variableType == .Output) = [v] ∧ v.value = 1) ∧
    (∃ circuit cb cb', synthesizeXorCircuit [((1 : ZMod 3), 0), (0, 1), (1, 0)] =
        some (circuit, cb) ∧
      synthesizeXorCircuit [((0 : ZMod 3), 0), (0, 0), (0, 0)] = some (circuit, cb')) := by
  obtain ⟨hbits, hfield⟩ := @win_circuit_correct (ZMod 3) _ 3 (by decide)
  constructor
  · obtain ⟨cb, vars, v, hrun, hcalls, houtput, hvalue⟩ :=
      hbits [true, false, true] [false, true, false] rfl rfl
    exact ⟨cb, vars, v, hrun, hcalls, houtput, hvalue.trans (if_pos (by decide))⟩
  · obtain ⟨hsome, heq, _⟩ := hfield [1, 0, 1] [0, 1, 0] [0, 0, 0] [0, 0, 0] rfl rfl rfl rfl
    obtain ⟨⟨circuit, cb⟩, hsyn⟩ := Option.isSome_iff_exists.mp (hsome.mpr (by norm_num))
    rw [hsyn, Option.map_some, eq_comm, Option.map_eq_some_iff] at heq
    obtain ⟨⟨circuit', cb'⟩, hsyn', rfl⟩ := heq
    exact ⟨circuit', cb, cb', hsyn, hsyn'⟩

end Win

end Lootbox.AcCompiler
