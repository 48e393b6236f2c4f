import Lootbox.Commitment.ConstraintBuilder

/-!
# `ac_compiler`: from a circuit to its matrices

Gate `i` fills the rows `1 + number_of_inputs + i` of the three matrices. The assignment
of the builder satisfies them when the gates were declared in the order of their rows.
-/

namespace Lootbox.AcCompiler

abbrev Matrix (F : Type) := List (List (F × Nat))

structure Circuit where
  gates : List Gate
  numberOfInputs : Nat
  numberOfOutputs : Nat
  deriving DecidableEq, Repr

structure R1CSfIndex where
  numberOfConstraints : Nat
  numberOfInputRows : Nat
  numberOfOutputs : Nat
  numberOfNonZeroEntries : Nat
  deriving DecidableEq, Repr

variable {F : Type} [Field F]

def Circuit.fromConstraintBuilder (cb : ConstraintBuilder F) : Circuit :=
  ⟨cb.gates, cb.numberOfInputs, cb.numberOfOutputs⟩

/-- `Circuit::synthesize` on a closure that makes the given calls. -/
def Circuit.synthesize (calls : List (Call F)) :
    Option (Circuit × ConstraintBuilder F × List (Variable F)) := do
  let (cb, vars) ← runCalls calls (ConstraintBuilder.new, [])
  let cb ← cb.finalize
  return (Circuit.fromConstraintBuilder cb, cb, vars)

/-- The three matrices under construction, with their counts of entries. -/
structure Matrices (F : Type) where
  a : Matrix F
  b : Matrix F
  c : Matrix F
  entriesA : Nat
  entriesB : Nat
  entriesC : Nat

def emptyMatrix (length : Nat) : Matrix F := List.replicate length []

/-- `matrix[row].push(entry)` -/
def push (matrix : Matrix F) (row : Nat) (entry : F × Nat) : Matrix F :=
  matrix.modify row (· ++ [entry])

def compileGate (number_of_inputs : Nat) (st : Matrices F) (e : Gate × Nat) : Matrices F :=
  let row := 1 + number_of_inputs + e.2
  match e.1.symbol with
  | .Add =>
    { a := push st.a row (1, 0)
      b := push (push st.b row (1, e.1.leftIndex)) row (1, e.1.rightIndex)
      c := push st.c row (1, row)
      entriesA := st.entriesA + 1
      entriesB := st.entriesB + 2
      entriesC := st.entriesC + 1 }
  | .Mul =>
    { a := push st.a row (1, e.1.leftIndex)
      b := push st.b row (1, e.1.rightIndex)
      c := push st.c row (1, row)
      entriesA := st.entriesA + 1
      entriesB := st.entriesB + 1
      entriesC := st.entriesC + 1 }

def ac2tft (circuit : Circuit) : R1CSfIndex × Matrix F × Matrix F × Matrix F :=
  let number_of_constraints := circuit.gates.length + circuit.numberOfInputs + 1
  let empty := emptyMatrix number_of_constraints
  let st := circuit.gates.zipIdx.foldl (compileGate circuit.numberOfInputs)
    ⟨empty, empty, empty, 0, 0, 0⟩
  (⟨number_of_constraints, circuit.numberOfInputs + 1, circuit.numberOfOutputs,
    max st.entriesA (max st.entriesB st.entriesC)⟩, st.a, st.b, st.c)

/-! ### The rows -/

def rowA (gate : Gate) (_row : Nat) : List (F × Nat) :=
  match gate.symbol with
  | .Add => [(1, 0)]
  | .Mul => [(1, gate.leftIndex)]

def rowB (gate : Gate) (_row : Nat) : List (F × Nat) :=
  match gate.symbol with
  | .Add => [(1, gate.leftIndex), (1, gate.rightIndex)]
  | .Mul => [(1, gate.rightIndex)]

def rowC (_gate : Gate) (row : Nat) : List (F × Nat) := [(1, row)]

def appendRow (f : Gate → Nat → List (F × Nat)) (base : Nat) (matrix : Matrix F) (e : Gate × Nat) :
    Matrix F := matrix.modify (base + e.2) (· ++ f e.1 (base + e.2))

theorem compileGate_rows (number_of_inputs : Nat) (st : Matrices F) (e : Gate × Nat) :
    (compileGate number_of_inputs st e).a = appendRow rowA (1 + number_of_inputs) st.a e ∧
      (compileGate number_of_inputs st e).b = appendRow rowB (1 + number_of_inputs) st.b e ∧
      (compileGate number_of_inputs st e).c = appendRow rowC (1 + number_of_inputs) st.c e := by
  cases h : e.1.symbol with
  | Add =>
    simp only [compileGate, appendRow, push, rowA, rowB, rowC, h, List.modify_modify_eq, true_and,
      and_true]
    congr 1
    funext row
    simp
  | Mul => simp only [compileGate, appendRow, push, rowA, rowB, rowC, h, and_self]

theorem foldl_compileGate_rows (number_of_inputs : Nat) (es : List (Gate × Nat)) :
    ∀ st : Matrices F, (es.foldl (compileGate number_of_inputs) st).a =
        es.foldl (appendRow rowA (1 + number_of_inputs)) st.a ∧
      (es.foldl (compileGate number_of_inputs) st).b =
        es.foldl (appendRow rowB (1 + number_of_inputs)) st.b ∧
      (es.foldl (compileGate number_of_inputs) st).c =
        es.foldl (appendRow rowC (1 + number_of_inputs)) st.c := by
  induction es with
  | nil => exact fun st => ⟨rfl, rfl, rfl⟩
  | cons e es ih =>
    intro st
    obtain ⟨ha, hb, hc⟩ := compileGate_rows number_of_inputs st e
    simp only [List.foldl_cons, ← ha, ← hb, ← hc]
    exact ih _

omit [Field F] in
/-- Row `base + i` receives the entries of gate `i`, the rows before `base` none. -/
theorem foldl_appendRow_getElem? (f : Gate → Nat → List (F × Nat)) (base : Nat) :
    ∀ (gates : List Gate) (i : Nat) (matrix : Matrix F) (r : Nat),
      ((gates.zipIdx i).foldl (appendRow f base) matrix)[r]? = matrix[r]?.map fun row =>
        row ++ if base + i ≤ r then (gates[r - (base + i)]?.map fun gate => f gate r).getD [] else [] := by
  intro gates
  induction gates with
  | nil => simp
  | cons gate gates ih =>
    intro i matrix r
    rw [List.zipIdx_cons, List.foldl_cons, ih, appendRow, List.getElem?_modify]
    cases matrix[r]? with
    | none => rfl
    | some row =>
      simp only [Option.map_eq_map, Option.map_some]
      rcases Nat.lt_trichotomy r (base + i) with h | h | h
      · have hrow : ¬ base + i = r := by omega
        have hnext : ¬ base + (i + 1) ≤ r := by omega
        have hthis : ¬ base + i ≤ r := by omega
        rw [if_neg hrow, if_neg hnext, if_neg hthis]
      · subst h
        have hnext : ¬ base + (i + 1) ≤ base + i := by omega
        rw [if_pos rfl, if_neg hnext, if_pos (Nat.le_refl _), Nat.sub_self,
          List.getElem?_cons_zero, Option.map_some, Option.getD_some, List.append_nil]
      · obtain ⟨n, rfl⟩ : ∃ n, r = base + i + (n + 1) := ⟨r - (base + i) - 1, by omega⟩
        have hrow : ¬ base + i = base + i + (n + 1) := by omega
        have hnext : base + (i + 1) ≤ base + i + (n + 1) := by omega
        have hthis : base + i ≤ base + i + (n + 1) := by omega
        have h1 : base + i + (n + 1) - (base + (i + 1)) = n := by omega
        have h2 : base + i + (n + 1) - (base + i) = n + 1 := by omega
        rw [if_neg hrow, if_pos hnext, if_pos hthis, h1, h2, List.getElem?_cons_succ]

/-- The row `r` of a matrix of the compiler. -/
def rowAt (f : Gate → Nat → List (F × Nat)) (circuit : Circuit) (r : Nat) : List (F × Nat) :=
  if 1 + circuit.numberOfInputs ≤ r then
    (circuit.gates[r - (1 + circuit.numberOfInputs)]?.map fun gate => f gate r).getD []
  else []

theorem ac2tft_rows (circuit : Circuit) {r : Nat}
    (hr : r < circuit.gates.length + circuit.numberOfInputs + 1) :
    (ac2tft (F := F) circuit).2.1[r]? = some (rowAt rowA circuit r) ∧
      (ac2tft (F := F) circuit).2.2.1[r]? = some (rowAt rowB circuit r) ∧
      (ac2tft (F := F) circuit).2.2.2[r]? = some (rowAt rowC circuit r) := by
  have hempty : ∃ empty : Matrix F,
      empty = emptyMatrix (circuit.gates.length + circuit.numberOfInputs + 1) := ⟨_, rfl⟩
  obtain ⟨empty, hempty⟩ := hempty
  have hrows := foldl_compileGate_rows circuit.numberOfInputs circuit.gates.zipIdx
    ⟨empty, empty, empty, 0, 0, 0⟩
  have hget : empty[r]? = some [] := by
    rw [hempty, emptyMatrix, List.getElem?_replicate, if_pos hr]
  have hone : ∀ f : Gate → Nat → List (F × Nat),
      (circuit.gates.zipIdx.foldl (appendRow f (1 + circuit.numberOfInputs)) empty)[r]? =
        some (rowAt f circuit r) := by
    intro f
    rw [foldl_appendRow_getElem?, hget]
    rfl
  have hA := hone rowA
  have hB := hone rowB
  have hC := hone rowC
  rw [← hrows.1] at hA
  rw [← hrows.2.1] at hB
  rw [← hrows.2.2] at hC
  subst hempty
  exact ⟨hA, hB, hC⟩

/-- `(M z)_i` for a row of `M`; `none` when an index lies outside of `z`. -/
def innerProduct (row : List (F × Nat)) (z : List F) : Option F :=
  row.foldlM (fun acc e => z[e.2]?.map fun v => acc + e.1 * v) 0

/-- The assignment solves the compiled system, and ends with the outputs. -/
structure Satisfied (cb : ConstraintBuilder F) (vars : List (Variable F)) (circuit : Circuit) :
    Prop where
  power : ∃ k, (ac2tft (F := F) circuit).1.numberOfConstraints = 2 ^ k
  length : cb.assignment.length = (ac2tft (F := F) circuit).1.numberOfConstraints
  one : cb.assignment[0]? = some 1
  rows : ∀ i, i < (ac2tft (F := F) circuit).1.numberOfConstraints →
    ∃ a b c, ((ac2tft circuit).2.1[i]?.bind fun row => innerProduct row cb.assignment) = some a ∧
      ((ac2tft circuit).2.2.1[i]?.bind fun row => innerProduct row cb.assignment) = some b ∧
      ((ac2tft circuit).2.2.2[i]?.bind fun row => innerProduct row cb.assignment) = some c ∧
      a * b = c
  outputs : cb.assignment.drop
      (cb.assignment.length - (ac2tft (F := F) circuit).1.numberOfOutputs) =
    (vars.filter fun v => v.variableType == .Output).map Variable.value

/-! ### The padding -/

theorem nextPowerOf2_eq {val : Nat} (hpos : val ≠ 0) (hval : val ≤ 2 ^ 31) :
    ∃ k, ConstraintBuilder.nextPowerOf2 val = some (2 ^ k) ∧ val ≤ 2 ^ k ∧
      ((∃ j, val = 2 ^ j) → 2 ^ k = val) := by
  have hlog : val.log2 ≤ 31 := by
    have h : val.log2 < 32 := (Nat.log2_lt hpos).mpr (lt_of_le_of_lt hval (by norm_num))
    omega
  have hfloor : ConstraintBuilder.pow32 val.log2 = some (2 ^ val.log2) := if_pos (by omega)
  by_cases heq : 2 ^ val.log2 = val
  · refine ⟨val.log2, ?_, le_of_eq heq.symm, fun _ => heq⟩
    simp only [ConstraintBuilder.nextPowerOf2, hfloor, Option.bind_eq_bind, Option.bind_some, heq,
      if_true]
    rfl
  · have hle : 2 ^ val.log2 ≤ val := Nat.log2_self_le hpos
    have hlt : val < 2 ^ (1 + val.log2) := by
      rw [Nat.add_comm]
      exact Nat.lt_log2_self
    have hlog' : 1 + val.log2 < 32 := by
      by_contra hcon
      have h31 : val.log2 = 31 := by omega
      rw [h31] at heq hle
      omega
    refine ⟨1 + val.log2, ?_, le_of_lt hlt, ?_⟩
    · simp only [ConstraintBuilder.nextPowerOf2, hfloor, Option.bind_eq_bind, Option.bind_some,
        if_neg heq]
      exact if_pos hlog'
    · rintro ⟨j, rfl⟩
      rw [Nat.log2_two_pow] at heq
      exact absurd rfl heq

theorem nextPowerOf2_bounds {val N : Nat} (h : ConstraintBuilder.nextPowerOf2 val = some N) :
    val ≤ 2 ^ 31 ∧ N ≤ 2 ^ 31 := by
  simp only [ConstraintBuilder.nextPowerOf2, ConstraintBuilder.pow32, Option.bind_eq_bind,
    Option.bind_eq_some_iff] at h
  obtain ⟨floor, hfloor, h⟩ := h
  split at hfloor
  · rename_i hlog
    cases hfloor
    have hfloor_le : 2 ^ val.log2 ≤ 2 ^ 31 := Nat.pow_le_pow_right (by omega) (by omega)
    split at h
    · rename_i heq
      cases h
      exact ⟨heq ▸ hfloor_le, heq ▸ hfloor_le⟩
    · split at h
      · rename_i hlog'
        cases h
        have hlt : val < 2 ^ (1 + val.log2) := by
          rw [Nat.add_comm]
          exact Nat.lt_log2_self
        have hpow : 2 ^ (1 + val.log2) ≤ 2 ^ 31 := Nat.pow_le_pow_right (by omega) (by omega)
        exact ⟨hlt.le.trans hpow, hpow⟩
      · cases h
  · cases hfloor

theorem nextPowerOf2_le {val N : Nat} (h : ConstraintBuilder.nextPowerOf2 val = some N) :
    val ≤ 2 ^ 31 := (nextPowerOf2_bounds h).1

/-- `d` copies of `x` in front of what follows the first `m` entries. -/
def padAt {α : Type} (xs : List α) (m d : Nat) (x : α) : List α :=
  xs.take m ++ List.replicate d x ++ xs.drop m

section PadAt
variable {α : Type} {xs : List α} {m d : Nat} {x : α}

theorem length_padAt : (padAt xs m d x).length = xs.length + d := by
  simp only [padAt, List.length_append, List.length_take, List.length_replicate, List.length_drop]
  omega

theorem padAt_zero : padAt xs m 0 x = xs := by
  rw [padAt, List.replicate_zero, List.append_nil, List.take_append_drop]

theorem padAt_before (hm : m ≤ xs.length) {i : Nat} (hi : i < m) :
    (padAt xs m d x)[i]? = xs[i]? := by
  rw [padAt, List.append_assoc, List.getElem?_append_left (by rw [List.length_take]; omega),
    List.getElem?_take_of_lt hi]

theorem padAt_inside (hm : m ≤ xs.length) {i : Nat} (hi : i < d) :
    (padAt xs m d x)[m + i]? = some x := by
  have hlen : (xs.take m).length = m := by rw [List.length_take]; omega
  rw [padAt, List.append_assoc, List.getElem?_append_right (by omega), hlen, Nat.add_sub_cancel_left,
    List.getElem?_append_left (by rw [List.length_replicate]; exact hi), List.getElem?_replicate,
    if_pos hi]

theorem padAt_after (hm : m ≤ xs.length) (i : Nat) :
    (padAt xs m d x)[m + d + i]? = xs[m + i]? := by
  have hlen : (xs.take m ++ List.replicate d x).length = m + d := by
    rw [List.length_append, List.length_take, List.length_replicate]
    omega
  rw [padAt, List.getElem?_append_right (by omega), hlen, Nat.add_sub_cancel_left, List.getElem?_drop]

theorem drop_padAt (hm : m ≤ xs.length) : (padAt xs m d x).drop (m + d) = xs.drop m := by
  have hlen : (xs.take m ++ List.replicate d x).length = m + d := by
    rw [List.length_append, List.length_take, List.length_replicate]
    omega
  rw [padAt, ← hlen, List.drop_left]

end PadAt

/-- No output is without its gate, and no row of the first ones without its value. -/
structure Splits (cb : ConstraintBuilder F) : Prop where
  gates : cb.numberOfOutputs ≤ cb.gates.length
  assignment : cb.gates.length + cb.numberOfInputs + 1 - cb.numberOfOutputs ≤ cb.assignment.length

omit [Field F] in
theorem checkedSub_eq_some_iff {a b c : Nat} :
    ConstraintBuilder.checkedSub a b = some c ↔ b ≤ a ∧ c = a - b := by
  unfold ConstraintBuilder.checkedSub
  split
  · rename_i h
    simp [h, eq_comm]
  · rename_i h
    simp [h]

theorem splitOff_eq_some_iff {α : Type} {xs : List α} {index : Nat} {parts : List α × List α} :
    ConstraintBuilder.splitOff xs index = some parts ↔
      index ≤ xs.length ∧ parts = (xs.take index, xs.drop index) := by
  unfold ConstraintBuilder.splitOff
  split
  · rename_i h
    simp [h, eq_comm]
  · rename_i h
    simp [h]

theorem finalize_eq_some_iff {cb cb' : ConstraintBuilder F} :
    cb.finalize = some cb' ↔
      ∃ N, ConstraintBuilder.nextPowerOf2 (cb.gates.length + cb.numberOfInputs + 1) = some N ∧
        cb.gates.length + cb.numberOfInputs + 1 ≤ N ∧ Splits cb ∧
        cb' = { cb with
          gates := padAt cb.gates (cb.gates.length - cb.numberOfOutputs)
            (N - (cb.gates.length + cb.numberOfInputs + 1)) ⟨0, 0, .Mul⟩
          assignment := padAt cb.assignment
            (cb.gates.length + cb.numberOfInputs + 1 - cb.numberOfOutputs)
            (N - (cb.gates.length + cb.numberOfInputs + 1)) 1 } := by
  unfold ConstraintBuilder.finalize
  simp only [Option.bind_eq_bind, Option.bind_eq_some_iff, checkedSub_eq_some_iff,
    splitOff_eq_some_iff]
  constructor
  · rintro ⟨N, hN, _, ⟨hle, rfl⟩, _, ⟨hout, rfl⟩, _, ⟨_, rfl⟩, _, ⟨_, rfl⟩, _, ⟨hassign, rfl⟩, h⟩
    exact ⟨N, hN, hle, ⟨hout, hassign⟩, (Option.some.inj h).symm⟩
  · rintro ⟨N, hN, hle, ⟨hout, hassign⟩, rfl⟩
    exact ⟨N, hN, _, ⟨hle, rfl⟩, _, ⟨hout, rfl⟩, _, ⟨Nat.sub_le _ _, rfl⟩, _, ⟨by omega, rfl⟩, _,
      ⟨hassign, rfl⟩, rfl⟩

theorem gate_row {z : List F} {gate : Gate} {row : Nat} {l r v : F} (hone : z[0]? = some 1)
    (hl : z[gate.leftIndex]? = some l) (hr : z[gate.rightIndex]? = some r)
    (hv : z[row]? = some v) (hvalue : v = ConstraintBuilder.newValue gate.symbol l r) :
    ∃ a b c, innerProduct (rowA gate row) z = some a ∧ innerProduct (rowB gate row) z = some b ∧
      innerProduct (rowC gate row) z = some c ∧ a * b = c := by
  cases hs : gate.symbol with
  | Add =>
    refine ⟨1, l + r, v, ?_, ?_, ?_, ?_⟩
    · simp [innerProduct, rowA, hs, hone]
    · simp [innerProduct, rowB, hs, hl, hr]
    · simp [innerProduct, rowC, hv]
    · rw [hvalue, hs, one_mul, ConstraintBuilder.newValue]
  | Mul =>
    refine ⟨l, r, v, ?_, ?_, ?_, ?_⟩
    · simp [innerProduct, rowA, hs, hl]
    · simp [innerProduct, rowB, hs, hr]
    · simp [innerProduct, rowC, hv]
    · rw [hvalue, hs, ConstraintBuilder.newValue]

/-! ### Ordered calls give a solved system -/

/-- A builder whose rows are aligned and whose last variables are its outputs. -/
structure Prepared (cb : ConstraintBuilder F) (vars : List (Variable F)) : Prop where
  built : Built cb vars
  aligned : Aligned cb vars
  outputs_le : cb.numberOfOutputs ≤ cb.gates.length
  outputs_last : (vars.filter fun v => v.variableType == .Output) =
    vars.drop (vars.length - cb.numberOfOutputs)
  operands : (∃ k, vars.length + 1 = 2 ^ k) ∨
    ∀ gate ∈ cb.gates, gate.leftIndex ≤ vars.length - cb.numberOfOutputs ∧
      gate.rightIndex ≤ vars.length - cb.numberOfOutputs

theorem prepared_of_ordered {calls : List (Call F)} {cb : ConstraintBuilder F}
    {vars : List (Variable F)} (hord : Ordered calls)
    (hrun : runCalls calls (ConstraintBuilder.new, []) = some (cb, vars)) :
    Prepared cb vars ∧ vars.length = calls.length := by
  obtain ⟨inputs, witnesses, outputs, rfl, hin, hwit, hout, hops⟩ := hord
  obtain ⟨⟨cb₂, vars₂⟩, hrun₂, hrun₃⟩ := runCalls_append.mp hrun
  obtain ⟨⟨cb₁, vars₁⟩, hrun₁, hrun₂⟩ := runCalls_append.mp hrun₂
  obtain ⟨hb₁, hg₁, hlen₁, added₁, hvars₁, hadded₁⟩ :=
    runCalls_inputs inputs _ cb₁ [] vars₁ hin built_new rfl hrun₁
  rw [List.nil_append] at hvars₁
  subst hvars₁
  have ha₁ : Aligned cb₁ vars₁ := by
    intro j gate hj
    rw [hg₁] at hj
    cases hj
  obtain ⟨hb₂, ha₂, hin₂, hlen₂, ⟨added₂, rfl, hadded₂⟩, _⟩ :=
    runCalls_gates false 0 witnesses cb₁ cb₂ _ vars₂ hwit hb₁ ha₁ hrun₂
  obtain ⟨hb₃, ha₃, hin₃, hlen₃, ⟨added₃, rfl, hadded₃⟩, hbelow⟩ :=
    runCalls_gates true (inputs.length + witnesses.length) outputs cb₂ cb _ vars hout hb₂ ha₂ hrun₃
  simp only [List.length_append, List.length_nil, Nat.zero_add] at hlen₁ hlen₂ hlen₃
  have hinputs₁ := hb₁.inputs
  have hinputs₂ := hb₂.inputs
  have hinputs₃ := hb₃.inputs
  simp only [hg₁, List.length_append, List.length_nil, Nat.add_zero] at hinputs₁ hinputs₂ hinputs₃
  have hfilter : ((vars₁ ++ added₂ ++ added₃).filter fun v => v.variableType == .Output) =
      added₃ := by
    have h₁ : (vars₁.filter fun v => v.variableType == .Output) = [] := by
      rw [List.filter_eq_nil_iff]
      intro v hv
      rw [hadded₁ v hv]
      decide
    have h₂ : (added₂.filter fun v => v.variableType == .Output) = [] := by
      rw [List.filter_eq_nil_iff]
      intro v hv
      rw [hadded₂ v hv]
      decide
    have h₃ : (added₃.filter fun v => v.variableType == .Output) = added₃ := by
      rw [List.filter_eq_self]
      intro v hv
      rw [hadded₃ v hv]
      rfl
    rw [List.filter_append, List.filter_append, h₁, h₂, h₃]
    rfl
  have houts : cb.numberOfOutputs = added₃.length := by rw [hb₃.outputs, hfilter]
  have hdrop : (vars₁ ++ added₂ ++ added₃).length - cb.numberOfOutputs =
      (vars₁ ++ added₂).length := by
    rw [houts, List.length_append, Nat.add_sub_cancel]
  refine ⟨⟨hb₃, ha₃, ?_, ?_, ?_⟩, ?_⟩
  · omega
  · rw [hfilter, hdrop, List.drop_left]
  · rcases hops with ⟨k, hk⟩ | hops
    · left
      refine ⟨k, ?_⟩
      rw [← hk]
      simp only [List.length_append]
      omega
    · right
      rw [hdrop]
      simp only [List.length_append]
      have hall := hbelow ?_ hops
      · intro gate hgate
        have := hall gate hgate
        omega
      · intro gate hgate
        obtain ⟨j, hj⟩ := List.getElem?_of_mem hgate
        have hjlt := (List.getElem?_eq_some_iff.mp hj).1
        obtain ⟨l, r, _, _, _, hl, hr, hll, hrl, _⟩ := ha₂ j gate hj
        omega
  · simp only [List.length_append]
    omega

section Prepared
variable {cb : ConstraintBuilder F} {vars : List (Variable F)}

theorem Built.getElem?_assignment (hb : Built cb vars) (i : Nat) :
    cb.assignment[i + 1]? = vars[i]?.map Variable.value := by
  rw [hb.assignment, List.getElem?_cons_succ, List.getElem?_map]

/-- Before `finalize` every gate is solved by the values at its operands and at its row. -/
theorem Prepared.gate (h : Prepared cb vars) {j : Nat} {gate : Gate} (hj : cb.gates[j]? = some gate) :
    ∃ l r v, cb.assignment[gate.leftIndex]? = some l ∧ cb.assignment[gate.rightIndex]? = some r ∧
      cb.assignment[1 + cb.numberOfInputs + j]? = some v ∧
      v = ConstraintBuilder.newValue gate.symbol l r := by
  obtain ⟨l, r, lv, rv, v, hl, hr, _, _, hlv, hrv, hv, hvalue⟩ := h.aligned j gate hj
  have hrow : 1 + cb.numberOfInputs + j = cb.numberOfInputs + j + 1 := by omega
  refine ⟨lv.value, rv.value, v.value, ?_, ?_, ?_, hvalue⟩
  · rw [hl, h.built.getElem?_assignment, hlv, Option.map_some]
  · rw [hr, h.built.getElem?_assignment, hrv, Option.map_some]
  · rw [hrow, h.built.getElem?_assignment, hv, Option.map_some]

/-- The values that the gates read and write keep their places when `d` ones are put in. -/
theorem Prepared.padded_gate (h : Prepared cb vars) {d j : Nat} {gate : Gate}
    (hpad : d = 0 ∨ ∀ gate ∈ cb.gates, gate.leftIndex ≤ vars.length - cb.numberOfOutputs ∧
      gate.rightIndex ≤ vars.length - cb.numberOfOutputs) (hj : cb.gates[j]? = some gate) :
    ∃ l r v, v = ConstraintBuilder.newValue gate.symbol l r ∧
      cb.assignment[1 + cb.numberOfInputs + j]? = some v ∧
      (padAt cb.assignment (cb.gates.length + cb.numberOfInputs + 1 - cb.numberOfOutputs) d
        1)[gate.leftIndex]? = some l ∧
      (padAt cb.assignment (cb.gates.length + cb.numberOfInputs + 1 - cb.numberOfOutputs) d
        1)[gate.rightIndex]? = some r := by
  obtain ⟨l, r, v, hl, hr, hv, hvalue⟩ := h.gate hj
  have hin := h.built.inputs
  have hle := h.outputs_le
  have hz : cb.assignment.length = vars.length + 1 := by
    rw [h.built.assignment, List.length_cons, List.length_map]
  refine ⟨l, r, v, hvalue, hv, ?_⟩
  rcases hpad with rfl | hpad
  · rw [padAt_zero]
    exact ⟨hl, hr⟩
  · obtain ⟨hlb, hrb⟩ := hpad gate (List.mem_of_getElem? hj)
    rw [padAt_before (by omega) (by omega), padAt_before (by omega) (by omega)]
    exact ⟨hl, hr⟩

/-- Every row of the padded system is solved by the padded assignment. -/
theorem Prepared.padded_row (h : Prepared cb vars) {d : Nat}
    (hpad : d = 0 ∨ ∀ gate ∈ cb.gates, gate.leftIndex ≤ vars.length - cb.numberOfOutputs ∧
      gate.rightIndex ≤ vars.length - cb.numberOfOutputs) {circuit : Circuit} {z : List F}
    (hcircuit : circuit = ⟨padAt cb.gates (cb.gates.length - cb.numberOfOutputs) d ⟨0, 0, .Mul⟩,
      cb.numberOfInputs, cb.numberOfOutputs⟩)
    (hz : z = padAt cb.assignment (cb.gates.length + cb.numberOfInputs + 1 - cb.numberOfOutputs) d 1)
    (hone : z[0]? = some 1) {i : Nat} (hi : i < circuit.gates.length + circuit.numberOfInputs + 1) :
    ∃ a b c, innerProduct (rowAt rowA circuit i) z = some a ∧
      innerProduct (rowAt rowB circuit i) z = some b ∧
      innerProduct (rowAt rowC circuit i) z = some c ∧ a * b = c := by
  have hin := h.built.inputs
  have hle := h.outputs_le
  have hlen : cb.assignment.length = vars.length + 1 := by
    rw [h.built.assignment, List.length_cons, List.length_map]
  have hzm : cb.gates.length + cb.numberOfInputs + 1 - cb.numberOfOutputs ≤ cb.assignment.length := by
    omega
  have hinputs : circuit.numberOfInputs = cb.numberOfInputs := by rw [hcircuit]
  by_cases hrow : 1 + circuit.numberOfInputs ≤ i
  · -- a gate of the circuit before the padding, a dummy gate, or an output gate behind it
    obtain ⟨j, rfl⟩ : ∃ j, i = 1 + circuit.numberOfInputs + j := ⟨_, (Nat.add_sub_cancel' hrow).symm⟩
    have hsolved : ∃ gate l r v, circuit.gates[j]? = some gate ∧ z[gate.leftIndex]? = some l ∧
        z[gate.rightIndex]? = some r ∧ z[1 + circuit.numberOfInputs + j]? = some v ∧
        v = ConstraintBuilder.newValue gate.symbol l r := by
      have hj : j < cb.gates.length + d := by
        rw [hcircuit] at hi
        simp only [length_padAt] at hi
        omega
      rcases Nat.lt_or_ge j (cb.gates.length - cb.numberOfOutputs) with hfirst | hge
      · obtain ⟨gate, hgate⟩ : ∃ gate, cb.gates[j]? = some gate :=
          ⟨_, List.getElem?_eq_getElem (by omega)⟩
        obtain ⟨l, r, v, hvalue, hv, hl, hr⟩ := h.padded_gate hpad hgate
        refine ⟨gate, l, r, v, ?_, hz ▸ hl, hz ▸ hr, ?_, hvalue⟩
        · rw [hcircuit, padAt_before (Nat.sub_le _ _) hfirst, hgate]
        · rw [hz, hinputs, padAt_before hzm (by omega), hv]
      · obtain ⟨n, rfl⟩ : ∃ n, j = cb.gates.length - cb.numberOfOutputs + n :=
          ⟨j - (cb.gates.length - cb.numberOfOutputs), by omega⟩
        have hrow' : 1 + circuit.numberOfInputs + (cb.gates.length - cb.numberOfOutputs + n) =
            cb.gates.length + cb.numberOfInputs + 1 - cb.numberOfOutputs + n := by omega
        rcases Nat.lt_or_ge n d with hdummy | hlast
        · refine ⟨⟨0, 0, .Mul⟩, 1, 1, 1, ?_, hone, hone, ?_, (mul_one 1).symm⟩
          · rw [hcircuit, padAt_inside (Nat.sub_le _ _) hdummy]
          · rw [hrow', hz, padAt_inside hzm hdummy]
        · obtain ⟨m, rfl⟩ : ∃ m, n = d + m := ⟨n - d, by omega⟩
          obtain ⟨gate, hgate⟩ :
              ∃ gate, cb.gates[cb.gates.length - cb.numberOfOutputs + m]? = some gate :=
            ⟨_, List.getElem?_eq_getElem (by omega)⟩
          obtain ⟨l, r, v, hvalue, hv, hl, hr⟩ := h.padded_gate hpad hgate
          have hrow'' : cb.gates.length + cb.numberOfInputs + 1 - cb.numberOfOutputs + m =
              1 + cb.numberOfInputs + (cb.gates.length - cb.numberOfOutputs + m) := by omega
          refine ⟨gate, l, r, v, ?_, hz ▸ hl, hz ▸ hr, ?_, hvalue⟩
          · rw [hcircuit, ← Nat.add_assoc, padAt_after (Nat.sub_le _ _), hgate]
          · rw [hrow', hz, ← Nat.add_assoc, padAt_after hzm, hrow'', hv]
    obtain ⟨gate, l, r, v, hgate, hl, hr, hv, hvalue⟩ := hsolved
    have hat : ∀ f : Gate → Nat → List (F × Nat),
        rowAt f circuit (1 + circuit.numberOfInputs + j) =
          f gate (1 + circuit.numberOfInputs + j) := by
      intro f
      rw [rowAt, if_pos hrow, Nat.add_sub_cancel_left, hgate]
      rfl
    rw [hat, hat, hat]
    exact gate_row hone hl hr hv hvalue
  · have hat : ∀ f : Gate → Nat → List (F × Nat), rowAt f circuit i = [] := fun f => if_neg hrow
    rw [hat, hat, hat]
    exact ⟨0, 0, 0, rfl, rfl, rfl, mul_zero 0⟩

theorem Prepared.finalize_satisfied (h : Prepared cb vars) (hsize : vars.length + 1 ≤ 2 ^ 31) :
    ∃ cb', cb.finalize = some cb' ∧ Satisfied cb' vars (Circuit.fromConstraintBuilder cb') := by
  have hin := h.built.inputs
  have hle := h.outputs_le
  have hn : cb.gates.length + cb.numberOfInputs + 1 = vars.length + 1 := by omega
  obtain ⟨k, hk, hNle, hpow⟩ := nextPowerOf2_eq (Nat.succ_ne_zero _) (hn ▸ hsize)
  obtain ⟨d, hd⟩ : ∃ d, 2 ^ k = cb.gates.length + cb.numberOfInputs + 1 + d :=
    ⟨2 ^ k - (cb.gates.length + cb.numberOfInputs + 1), by omega⟩
  have hpad : d = 0 ∨ ∀ gate ∈ cb.gates, gate.leftIndex ≤ vars.length - cb.numberOfOutputs ∧
      gate.rightIndex ≤ vars.length - cb.numberOfOutputs := by
    rcases h.operands with ⟨j, hj⟩ | hops
    · have := hpow ⟨j, hn.trans hj⟩
      omega
    · exact Or.inr hops
  have hlen : cb.assignment.length = vars.length + 1 := by
    rw [h.built.assignment, List.length_cons, List.length_map]
  have hzm : cb.gates.length + cb.numberOfInputs + 1 - cb.numberOfOutputs ≤ cb.assignment.length := by
    omega
  have hone : (padAt cb.assignment (cb.gates.length + cb.numberOfInputs + 1 - cb.numberOfOutputs) d
      1)[0]? = some 1 := by
    rw [padAt_before hzm (by omega), h.built.assignment]
    rfl
  have hlength : (padAt cb.gates (cb.gates.length - cb.numberOfOutputs) d ⟨0, 0, .Mul⟩).length +
      cb.numberOfInputs + 1 = 2 ^ k := by
    rw [length_padAt]
    omega
  have hfinal := finalize_eq_some_iff.mpr ⟨_, hk, hNle, ⟨by omega, hzm⟩, rfl⟩
  rw [hd, Nat.add_sub_cancel_left] at hfinal
  refine ⟨_, hfinal, ⟨k, hlength⟩, ?_, hone, ?_, ?_⟩
  · refine Eq.trans ?_ hlength.symm
    rw [length_padAt]
    omega
  · intro i hi
    obtain ⟨a, b, c, ha, hb, hc, habc⟩ := h.padded_row hpad rfl rfl hone hi
    obtain ⟨hA, hB, hC⟩ := ac2tft_rows (F := F) _ hi
    refine ⟨a, b, c, ?_, ?_, ?_, habc⟩
    · exact Option.bind_eq_some_iff.mpr ⟨_, hA, ha⟩
    · exact Option.bind_eq_some_iff.mpr ⟨_, hB, hb⟩
    · exact Option.bind_eq_some_iff.mpr ⟨_, hC, hc⟩
  · have hdrop : cb.assignment.length + d - cb.numberOfOutputs =
        cb.gates.length + cb.numberOfInputs + 1 - cb.numberOfOutputs + d := by omega
    have hlast : cb.gates.length + cb.numberOfInputs + 1 - cb.numberOfOutputs =
        vars.length - cb.numberOfOutputs + 1 := by omega
    change (padAt cb.assignment _ d 1).drop ((padAt cb.assignment _ d 1).length - cb.numberOfOutputs) = _
    rw [length_padAt, hdrop, drop_padAt hzm, h.outputs_last, h.built.assignment, hlast,
      List.drop_succ_cons, List.map_drop]

end Prepared

/-- Inputs first, outputs last and unread where they move: such calls give a solved system. -/
theorem synthesize_satisfied {calls : List (Call F)} {cb : ConstraintBuilder F}
    {vars : List (Variable F)}
    (hok : runCalls calls (ConstraintBuilder.new, []) = some (cb, vars)) (hord : Ordered calls)
    (hsize : calls.length + 1 ≤ 2 ^ 31) :
    ∃ circuit cb', Circuit.synthesize calls = some (circuit, cb', vars) ∧
      Satisfied cb' vars circuit := by
  obtain ⟨hprepared, hlen⟩ := prepared_of_ordered hord hok
  obtain ⟨cb', hfinal, hsat⟩ := hprepared.finalize_satisfied (hlen ▸ hsize)
  refine ⟨_, cb', ?_, hsat⟩
  simp only [Circuit.synthesize, hok, Option.bind_eq_bind, Option.bind_some, hfinal]
  rfl

/-! ### Two sequences of calls -/

/-- An input is declared after the gate `x * x`. -/
def lateInput : List (Call (ZMod 3)) :=
  [.newInputVariable "x" (-1), .enforceConstraint 0 0 .Mul false, .newInputVariable "y" (-1)]

/-- The row of the gate is the row of `y`, and `-1 * -1` is not `-1`. -/
theorem lateInput_not_satisfied :
    ∃ (calls : List (Call (ZMod 3))) (cb cb' : ConstraintBuilder (ZMod 3)) (vars : List (Variable (ZMod 3)))
      (circuit : Circuit), runCalls calls (ConstraintBuilder.new, []) = some (cb, vars) ∧
      Circuit.synthesize calls = some (circuit, cb', vars) ∧ ¬ Satisfied cb' vars circuit := by
  refine ⟨lateInput, _, _, _, _, rfl, rfl, ?_⟩
  intro h
  obtain ⟨a, b, c, ha, hb, hc, habc⟩ := h.rows 3 (by decide)
  cases ha
  cases hb
  cases hc
  exact absurd habc (by decide)

/-- `x * y + x`, padded from five rows to eight. -/
def orderedCalls : List (Call (ZMod 3)) :=
  [.newInputVariable "x" (-1), .newInputVariable "y" 1, .enforceConstraint 0 1 .Mul false,
    .enforceConstraint 2 0 .Add true]

theorem orderedCalls_ordered : Ordered orderedCalls := by
  refine ⟨orderedCalls.take 2, [.enforceConstraint 0 1 .Mul false],
    [.enforceConstraint 2 0 .Add true], rfl, ?_, ?_, ?_, Or.inr ?_⟩
  all_goals simp [orderedCalls, Call.isInput, Call.isGate, Call.operandsBelow]

theorem orderedCalls_satisfied :
    ∃ circuit cb' vars, Circuit.synthesize orderedCalls = some (circuit, cb', vars) ∧
      Satisfied cb' vars circuit := by
  obtain ⟨circuit, cb', h⟩ :=
    synthesize_satisfied rfl orderedCalls_ordered (by decide)
  exact ⟨circuit, cb', _, h⟩

end Lootbox.AcCompiler
