import Lootbox.Commitment.ConstraintBuilder

/-!
# The circuit that decides a win

`build_xor_circuit` multiplies the exclusive ors of the bits of its two inputs. The
methods of the builder are chained in a state that fails at the first error.
-/

namespace Lootbox.AcCompiler

variable {F : Type}

abbrev Build (F α : Type) := ExceptT Error (StateM (ConstraintBuilder F)) α

namespace Build

variable [Field F]

def newInputVariable (label : String) (value : F) : Build F (Variable F) :=
  ExceptT.mk fun cb => cb.newInputVariable label value

def enforceConstraint (lhs rhs : Variable F) (constraint_type : GateType)
    (variable_type : VariableType) : Build F (Variable F) :=
  ExceptT.mk fun cb => cb.enforceConstraint lhs rhs constraint_type variable_type

end Build

open Build

section Circuit

variable [Field F]

def enforceXor (a c minus_one : Variable F) : Build F (Variable F) := do
  let neg_a ← enforceConstraint a minus_one .Mul .Witness
  let b ← enforceConstraint c neg_a .Add .Witness
  let bc ← enforceConstraint b c .Mul .Witness
  let ac ← enforceConstraint a c .Mul .Witness
  let neg_ac ← enforceConstraint ac minus_one .Mul .Witness
  let bcac ← enforceConstraint bc neg_ac .Add .Witness
  enforceConstraint bcac a .Add .Witness

/-- The inputs `a{idx}` and `b{idx}` from `idx` on. -/
def newInputBits (idx : Nat) : List (F × F) → Build F (List (Variable F × Variable F))
  | [] => return []
  | (a_val, b_val) :: bits => do
    let a ← newInputVariable ("a" ++ toString idx) a_val
    let b ← newInputVariable ("b" ++ toString idx) b_val
    let vars ← newInputBits (idx + 1) bits
    return (a, b) :: vars

def multiplyXors (minus_one : Variable F) (out : Variable F) :
    List (Variable F × Variable F) → Build F (Variable F)
  | [] => return out
  | (a, b) :: vars => do
    let xor_out ← enforceXor a b minus_one
    let out ← enforceConstraint out xor_out .Mul .Witness
    multiplyXors minus_one out vars

/-- `build_xor_circuit` on vectors of one length; with empty vectors `a[0]` panics. -/
def buildXorCircuit (bits : List (F × F)) : Build F (Option Unit) := do
  let vars ← newInputBits 0 bits
  let minus_one ← newInputVariable "minus_one" (0 - 1)
  let one ← newInputVariable "one" 1
  match vars with
  | [] => return none
  | (a, b) :: vars => do
    let out ← enforceXor a b minus_one
    let out ← multiplyXors minus_one out vars
    let _ ← enforceConstraint out one .Mul .Output
    return some ()

/-- The value of the output variable, the last one of the assignment. -/
def xorCircuitOutput (bits : List (F × F)) : Option F :=
  match (buildXorCircuit bits).run ConstraintBuilder.new with
  | (.ok (some ()), cb) => cb.assignment.getLast?
  | _ => none

end Circuit

/-! ### The circuit as a sequence of calls -/

section Calls

/-- The calls of `enforce_xor` on the variables at these positions, `next` being the first free one. -/
def xorCalls (a c minus_one next : Nat) : List (Call F) :=
  [.enforceConstraint a minus_one .Mul false, .enforceConstraint c next .Add false,
    .enforceConstraint (next + 1) c .Mul false, .enforceConstraint a c .Mul false,
    .enforceConstraint (next + 3) minus_one .Mul false,
    .enforceConstraint (next + 2) (next + 4) .Add false,
    .enforceConstraint (next + 5) a .Add false]

def inputBitCalls (idx : Nat) : List (F × F) → List (Call F)
  | [] => []
  | (a_val, b_val) :: bits =>
    .newInputVariable ("a" ++ toString idx) a_val ::
      .newInputVariable ("b" ++ toString idx) b_val :: inputBitCalls (idx + 1) bits

/-- The calls for `count` bits from `idx` on, the last variable being at `last`. -/
def multiplyXorsCalls (minus_one : Nat) : Nat → Nat → Nat → List (Call F)
  | 0, _, _ => []
  | count + 1, idx, last =>
    xorCalls (2 * idx) (2 * idx + 1) minus_one (last + 1) ++
      .enforceConstraint last (last + 7) .Mul false ::
        multiplyXorsCalls minus_one count (idx + 1) (last + 8)

/-- The gates in front of the output, for one bit and `count` others. -/
def witnessCalls (count : Nat) : List (Call F) :=
  xorCalls 0 1 (2 * count + 2) (2 * count + 4) ++
    multiplyXorsCalls (2 * count + 2) count 1 (2 * count + 10)

def inputCalls [Field F] (bits : List (F × F)) : List (Call F) :=
  inputBitCalls 0 bits ++ [.newInputVariable "minus_one" (0 - 1), .newInputVariable "one" 1]

/-- The calls of `build_xor_circuit` on one bit and `count` others. -/
def xorCircuitCalls [Field F] (bits : List (F × F)) : List (Call F) :=
  let count := bits.length - 1
  inputCalls bits ++ witnessCalls count ++
    [.enforceConstraint (10 * count + 10) (2 * count + 3) .Mul true]

end Calls

/-! ### Every call of the circuit succeeds -/

section Run

variable {cb cb' : ConstraintBuilder F} {calls : List (Call F)} {vars : List (Variable F)}
  {v : Variable F}

theorem Build.bind_eq {α β : Type} {m : Build F α} {f : α → Build F β} {a : α}
    (h : m.run cb = (.ok a, cb')) : (m >>= f).run cb = (f a).run cb' := by
  change (match m.run cb with | (r, st) => (ExceptT.bindCont f r : Build F β).run st) = _
  rw [h]
  rfl

def Fresh (cb : ConstraintBuilder F) : Prop :=
  ∀ k, cb.currIndex ≤ k → cb.labelToVarIndex.lookup ("w_" ++ toString k) = none

theorem label_inj {c : String} {m n : Nat} (h : c ++ toString m = c ++ toString n) : m = n :=
  Nat.repr_injective ((String.append_right_inj c).mp h)

theorem registerNewVar_fresh (hfresh : Fresh cb) {label : String} (value : F)
    (variable_type : VariableType) (hnone : cb.labelToVarIndex.lookup label = none)
    (hlabel : ∀ k, cb.currIndex < k → "w_" ++ toString k ≠ label) (gates : List Gate) :
    ∃ cb', ConstraintBuilder.registerNewVar { cb with gates := gates } label value variable_type =
        (.ok ⟨label, variable_type, value⟩, cb') ∧ Fresh cb' ∧
      ∀ other, other ≠ label →
        cb'.labelToVarIndex.lookup other = cb.labelToVarIndex.lookup other := by
  have hlookup : ∀ other : String, other ≠ label →
      ((label, cb.currIndex) :: cb.labelToVarIndex).lookup other =
        cb.labelToVarIndex.lookup other := by
    intro other hother
    rw [List.lookup_cons, beq_false_of_ne hother]
  refine ⟨_, if_neg (by rw [hnone]; exact Bool.false_ne_true), ?_, hlookup⟩
  intro k hk
  rw [hlookup _ (hlabel k hk)]
  exact hfresh k (Nat.le_of_succ_le hk)

variable [Field F]

/-- The calls made so far have left this builder and these variables. -/
structure Traced (calls : List (Call F)) (cb : ConstraintBuilder F) (vars : List (Variable F)) :
    Prop where
  run : runCalls calls (ConstraintBuilder.new, []) = some (cb, vars)
  fresh : Fresh cb
  built : Built cb vars

theorem traced_new : Traced [] (ConstraintBuilder.new : ConstraintBuilder F) [] :=
  ⟨rfl, fun _ _ => rfl, built_new⟩

theorem Traced.call (h : Traced calls cb vars) {call : Call F}
    (hrun : call.run (cb, vars) = some (cb', vars ++ [v])) (hfresh : Fresh cb')
    (hbuilt : Built cb' (vars ++ [v])) : Traced (calls ++ [call]) cb' (vars ++ [v]) :=
  ⟨runCalls_append.mpr ⟨_, h.run, runCalls_cons.mpr ⟨_, hrun, rfl⟩⟩, hfresh, hbuilt⟩

theorem Traced.gate (h : Traced calls cb vars) {i j : Nat} {l r : Variable F}
    (hl : vars[i]? = some l) (hr : vars[j]? = some r) (constraint_type : GateType) (output : Bool) :
    ∃ v cb', (enforceConstraint l r constraint_type (if output then .Output else .Witness)).run cb =
        (.ok v, cb') ∧ v.value = ConstraintBuilder.newValue constraint_type l.value r.value ∧
      Traced (calls ++ [.enforceConstraint i j constraint_type output]) cb' (vars ++ [v]) := by
  have hlabel : ∀ k, cb.currIndex < k → "w_" ++ toString k ≠ "w_" ++ toString cb.currIndex := by
    intro k hk heq
    exact absurd (label_inj heq) (Nat.ne_of_gt hk)
  obtain ⟨cb', hrun, hfresh, _⟩ := registerNewVar_fresh h.fresh
    (ConstraintBuilder.newValue constraint_type l.value r.value)
    (if output then .Output else .Witness) (h.fresh cb.currIndex (Nat.le_refl _)) hlabel
    (cb.gates ++ [⟨i + 1, j + 1, constraint_type⟩])
  have henforce : cb.enforceConstraint l r constraint_type (if output then .Output else .Witness) =
      (.ok ⟨"w_" ++ toString cb.currIndex, if output then .Output else .Witness,
        ConstraintBuilder.newValue constraint_type l.value r.value⟩, cb') := by
    unfold ConstraintBuilder.enforceConstraint
    rw [h.built.labels i l hl]
    dsimp only
    rw [h.built.labels j r hr]
    exact hrun
  have htype : (if output then VariableType.Output else .Witness) ≠ .Input := by
    cases output <;> simp
  refine ⟨_, cb', henforce, rfl, h.call ?_ hfresh
    (enforceConstraint_built h.built htype hl hr henforce).1⟩
  simp only [Call.run, hl, hr, henforce]

theorem Traced.witness (h : Traced calls cb vars) {i j : Nat} {l r : Variable F}
    (hl : vars[i]? = some l) (hr : vars[j]? = some r) (constraint_type : GateType) :
    ∃ v cb', (enforceConstraint l r constraint_type .Witness).run cb = (.ok v, cb') ∧
      v.value = ConstraintBuilder.newValue constraint_type l.value r.value ∧
      Traced (calls ++ [.enforceConstraint i j constraint_type false]) cb' (vars ++ [v]) :=
  h.gate hl hr constraint_type false

theorem Traced.input (h : Traced calls cb vars) {label : String}
    (hnone : cb.labelToVarIndex.lookup label = none) (hlabel : ∀ k : Nat, "w_" ++ toString k ≠ label)
    (value : F) :
    ∃ v cb', (newInputVariable label value).run cb = (.ok v, cb') ∧ v.value = value ∧
      Traced (calls ++ [.newInputVariable label value]) cb' (vars ++ [v]) ∧
      ∀ other, other ≠ label →
        cb'.labelToVarIndex.lookup other = cb.labelToVarIndex.lookup other := by
  obtain ⟨cb', hrun, hfresh, hothers⟩ := registerNewVar_fresh h.fresh value .Input
    hnone (fun k _ => hlabel k) cb.gates
  have hnew : cb.newInputVariable label value = (.ok ⟨label, .Input, value⟩, cb') := hrun
  refine ⟨_, cb', hrun, rfl, h.call ?_ hfresh (newInputVariable_built h.built hnew).1, hothers⟩
  simp only [Call.run, hnew]

/-! ### The gates of a bit -/

def xorValue (bit : F × F) : F := bit.1 + bit.2 ^ 2 - 2 * bit.1 * bit.2

omit [Field F] in
theorem getElem?_append_of_some {i : Nat} (h : vars[i]? = some v) (added : List (Variable F)) :
    (vars ++ added)[i]? = some v := by
  rw [List.getElem?_append_left (List.getElem?_eq_some_iff.mp h).1]
  exact h

omit [Field F] in
theorem getElem?_added (vars added : List (Variable F)) (k : Nat) :
    (vars ++ added)[vars.length + k]? = added[k]? := by
  rw [List.getElem?_append_right (Nat.le_add_right _ _), Nat.add_sub_cancel_left]

theorem Traced.xor (h : Traced calls cb vars) {i j m : Nat} {a c minus_one : Variable F}
    (ha : vars[i]? = some a) (hc : vars[j]? = some c) (hm : vars[m]? = some minus_one)
    (hminus : minus_one.value = -1) :
    ∃ v cb' added, (enforceXor a c minus_one).run cb = (.ok v, cb') ∧
      v.value = xorValue (a.value, c.value) ∧
      Traced (calls ++ xorCalls i j m vars.length) cb' (vars ++ added) ∧ added.length = 7 ∧
      (vars ++ added)[vars.length + 6]? = some v := by
  have old : ∀ {k : Nat} {u : Variable F}, vars[k]? = some u → ∀ added : List (Variable F),
      (vars ++ added)[k]? = some u := getElem?_append_of_some
  have new := getElem?_added vars
  obtain ⟨v₁, cb₁, h₁, e₁, t₁⟩ := h.witness ha hm .Mul
  obtain ⟨v₂, cb₂, h₂, e₂, t₂⟩ := t₁.witness (old hc _) (new [v₁] 0) .Add
  rw [List.append_assoc vars] at t₂
  obtain ⟨v₃, cb₃, h₃, e₃, t₃⟩ := t₂.witness (new [v₁, v₂] 1) (old hc _) .Mul
  rw [List.append_assoc vars] at t₃
  obtain ⟨v₄, cb₄, h₄, e₄, t₄⟩ := t₃.witness (old ha _) (old hc _) .Mul
  rw [List.append_assoc vars] at t₄
  obtain ⟨v₅, cb₅, h₅, e₅, t₅⟩ := t₄.witness (new [v₁, v₂, v₃, v₄] 3) (old hm _) .Mul
  rw [List.append_assoc vars] at t₅
  obtain ⟨v₆, cb₆, h₆, e₆, t₆⟩ := t₅.witness (new [v₁, v₂, v₃, v₄, v₅] 2)
    (new [v₁, v₂, v₃, v₄, v₅] 4) .Add
  rw [List.append_assoc vars] at t₆
  obtain ⟨v₇, cb₇, h₇, e₇, t₇⟩ := t₆.witness (new [v₁, v₂, v₃, v₄, v₅, v₆] 5) (old ha _) .Add
  rw [List.append_assoc vars] at t₇
  refine ⟨v₇, cb₇, [v₁, v₂, v₃, v₄, v₅, v₆, v₇], ?_, ?_, ?_, rfl, new _ 6⟩
  · rw [enforceXor, Build.bind_eq h₁, Build.bind_eq h₂, Build.bind_eq h₃, Build.bind_eq h₄,
      Build.bind_eq h₅, Build.bind_eq h₆]
    exact h₇
  · rw [e₇, e₆, e₅, e₄, e₃, e₂, e₁, hminus]
    simp only [ConstraintBuilder.newValue, xorValue]
    ring
  · simp only [List.append_assoc] at t₇
    exact t₇

/-! ### The product over the bits -/

def values (var : Variable F × Variable F) : F × F := (var.1.value, var.2.value)

/-- The pairs are variables one after the other from the bit `idx` on. -/
def PairsAt (idx : Nat) (pairs : List (Variable F × Variable F)) (vars : List (Variable F)) : Prop :=
  ∀ (k : Nat) (pair : Variable F × Variable F), pairs[k]? = some pair →
    vars[2 * (idx + k)]? = some pair.1 ∧ vars[2 * (idx + k) + 1]? = some pair.2

omit [Field F] in
theorem PairsAt.append {idx : Nat} {pairs : List (Variable F × Variable F)}
    (h : PairsAt idx pairs vars) (added : List (Variable F)) : PairsAt idx pairs (vars ++ added) := by
  intro k pair hk
  obtain ⟨h1, h2⟩ := h k pair hk
  exact ⟨getElem?_append_of_some h1 added, getElem?_append_of_some h2 added⟩

omit [Field F] in
theorem pairsAt_cons {idx : Nat} {pair : Variable F × Variable F}
    {pairs : List (Variable F × Variable F)} :
    PairsAt idx (pair :: pairs) vars ↔
      (vars[2 * idx]? = some pair.1 ∧ vars[2 * idx + 1]? = some pair.2) ∧
        PairsAt (idx + 1) pairs vars := by
  constructor
  · intro h
    refine ⟨h 0 pair rfl, fun k p hk => ?_⟩
    rw [Nat.add_assoc, Nat.add_comm 1 k]
    exact h (k + 1) p hk
  · rintro ⟨hhead, htail⟩ k p hk
    cases k with
    | zero =>
      cases hk
      exact hhead
    | succ k =>
      rw [Nat.add_comm k 1, ← Nat.add_assoc]
      exact htail k p hk

theorem Traced.multiplyXors {m : Nat} {minus_one : Variable F} (hminus : minus_one.value = -1)
    (pairs : List (Variable F × Variable F)) :
    ∀ {calls : List (Call F)} {cb : ConstraintBuilder F} {vars : List (Variable F)}
      {idx last : Nat} {out : Variable F}, Traced calls cb vars → vars.length = last + 1 →
      vars[last]? = some out → vars[m]? = some minus_one → PairsAt idx pairs vars →
        ∃ v cb' added, (multiplyXors minus_one out pairs).run cb = (.ok v, cb') ∧
          v.value = out.value * (pairs.map fun pair => xorValue (values pair)).prod ∧
          Traced (calls ++ multiplyXorsCalls m pairs.length idx last) cb' (vars ++ added) ∧
          (vars ++ added)[last + 8 * pairs.length]? = some v := by
  induction pairs with
  | nil =>
    intro calls cb vars idx last out h _ hout _ _
    refine ⟨out, cb, [], rfl, by simp, ?_, ?_⟩
    · rw [List.append_nil]
      exact (List.append_nil calls).symm ▸ h
    · rw [List.append_nil]
      exact hout
  | cons pair pairs ih =>
    intro calls cb vars idx last out h hlen hout hm hpairs
    obtain ⟨⟨ha, hc⟩, hrest⟩ := pairsAt_cons.mp hpairs
    obtain ⟨xor_out, cb₁, added, h₁, e₁, t₁, hadded, hxor⟩ := h.xor ha hc hm hminus
    rw [hlen] at t₁ hxor
    obtain ⟨out', cb₂, h₂, e₂, t₂⟩ := t₁.witness (getElem?_append_of_some hout added) hxor .Mul
    rw [List.append_assoc vars] at t₂
    have hlen₂ : (vars ++ (added ++ [out'])).length = last + 8 + 1 := by
      simp only [List.length_append, hlen, hadded, List.length_singleton]
    have hlast : (vars ++ (added ++ [out']))[last + 8]? = some out' := by
      have hnew := getElem?_added vars (added ++ [out']) 7
      rw [hlen] at hnew
      refine hnew.trans ?_
      rw [← hadded, List.getElem?_concat_length]
    obtain ⟨v, cb', more, h₃, e₃, t₃, hv⟩ := ih t₂ hlen₂ hlast (getElem?_append_of_some hm _)
      (hrest.append _)
    refine ⟨v, cb', added ++ [out'] ++ more, ?_, ?_, ?_, ?_⟩
    · rw [AcCompiler.multiplyXors, Build.bind_eq h₁, Build.bind_eq h₂, h₃]
    · rw [e₃, e₂, e₁, List.map_cons, List.prod_cons]
      simp only [ConstraintBuilder.newValue, values]
      ring
    · rw [← List.append_assoc vars, List.length_cons, multiplyXorsCalls]
      simp only [List.append_assoc, List.cons_append, List.nil_append] at t₃ ⊢
      exact t₃
    · rw [← List.append_assoc vars, List.length_cons, Nat.mul_add, Nat.mul_one,
        Nat.add_comm (8 * pairs.length), ← Nat.add_assoc]
      exact hv

/-! ### The inputs -/

/-- The labels in use are those of the input bits before `idx`. -/
def InputLabels (idx : Nat) (cb : ConstraintBuilder F) : Prop :=
  ∀ label, cb.labelToVarIndex.lookup label ≠ none →
    ∃ j < idx, label = "a" ++ toString j ∨ label = "b" ++ toString j

theorem label_ne {c d : Char} (h : c ≠ d) (s t : String) :
    String.singleton c ++ s ≠ String.singleton d ++ t := by
  intro heq
  have hlist := congrArg String.toList heq
  rw [String.toList_append, String.toList_append, String.toList_singleton,
    String.toList_singleton] at hlist
  exact h (List.cons_eq_cons.mp hlist).1

theorem Traced.inputBits (bits : List (F × F)) :
    ∀ {calls : List (Call F)} {cb : ConstraintBuilder F} {vars : List (Variable F)} {idx : Nat},
      Traced calls cb vars → vars.length = 2 * idx → InputLabels idx cb →
        ∃ pairs cb' added, (newInputBits idx bits).run cb = (.ok pairs, cb') ∧
          pairs.map values = bits ∧ Traced (calls ++ inputBitCalls idx bits) cb' (vars ++ added) ∧
          added.length = 2 * bits.length ∧ InputLabels (idx + bits.length) cb' ∧
          PairsAt idx pairs (vars ++ added) := by
  induction bits with
  | nil =>
    intro calls cb vars idx h hlen hlabels
    refine ⟨[], cb, [], rfl, rfl, ?_, rfl, hlabels, nofun⟩
    rw [List.append_nil, inputBitCalls, List.append_nil]
    exact h
  | cons bit bits ih =>
    obtain ⟨a_val, b_val⟩ := bit
    intro calls cb vars idx h hlen hlabels
    have hab : ∀ m n : Nat, "a" ++ toString m ≠ "b" ++ toString n := by
      intro m n
      exact label_ne (by decide : 'a' ≠ 'b') _ _
    have ha : cb.labelToVarIndex.lookup ("a" ++ toString idx) = none := by
      by_contra hsome
      obtain ⟨j, hj, hlabel | hlabel⟩ := hlabels _ hsome
      · exact absurd (label_inj hlabel) (Nat.ne_of_gt hj)
      · exact hab _ _ hlabel
    obtain ⟨a, cb₁, h₁, v₁, t₁, hothers₁⟩ := h.input ha
      (fun k => label_ne (by decide : 'w' ≠ 'a') ("_" ++ toString k) _) a_val
    have hb : cb₁.labelToVarIndex.lookup ("b" ++ toString idx) = none := by
      rw [hothers₁ _ (hab _ _).symm]
      by_contra hsome
      obtain ⟨j, hj, hlabel | hlabel⟩ := hlabels _ hsome
      · exact hab _ _ hlabel.symm
      · exact absurd (label_inj hlabel) (Nat.ne_of_gt hj)
    obtain ⟨b, cb₂, h₂, v₂, t₂, hothers₂⟩ := t₁.input hb
      (fun k => label_ne (by decide : 'w' ≠ 'b') ("_" ++ toString k) _) b_val
    have hlabels₂ : InputLabels (idx + 1) cb₂ := by
      intro label hlabel
      by_cases hla : label = "a" ++ toString idx
      · exact ⟨idx, Nat.lt_succ_self idx, Or.inl hla⟩
      by_cases hlb : label = "b" ++ toString idx
      · exact ⟨idx, Nat.lt_succ_self idx, Or.inr hlb⟩
      rw [hothers₂ _ hlb, hothers₁ _ hla] at hlabel
      obtain ⟨j, hj, hcases⟩ := hlabels label hlabel
      exact ⟨j, Nat.lt_succ_of_lt hj, hcases⟩
    rw [List.append_assoc vars] at t₂
    have hlen₂ : (vars ++ ([a] ++ [b])).length = 2 * (idx + 1) := by
      rw [List.length_append, hlen]
      rfl
    obtain ⟨pairs, cb', added, h₃, hvalues, t₃, hadded, hlabels₃, hpairs⟩ := ih t₂ hlen₂ hlabels₂
    refine ⟨(a, b) :: pairs, cb', [a] ++ [b] ++ added, ?_, ?_, ?_, ?_, ?_, ?_⟩
    · rw [newInputBits, Build.bind_eq h₁, Build.bind_eq h₂, Build.bind_eq h₃]
      rfl
    · rw [List.map_cons, hvalues, values, v₁, v₂]
    · rw [← List.append_assoc vars, inputBitCalls]
      simp only [List.append_assoc, List.cons_append, List.nil_append] at t₃ ⊢
      exact t₃
    · simp only [List.length_append, hadded, List.length_cons, List.length_nil]
      omega
    · rw [List.length_cons, Nat.add_comm bits.length 1, ← Nat.add_assoc]
      exact hlabels₃
    · rw [← List.append_assoc vars, pairsAt_cons]
      have hnew := getElem?_added vars ([a] ++ [b])
      rw [hlen] at hnew
      exact ⟨⟨getElem?_append_of_some (hnew 0) _, getElem?_append_of_some (hnew 1) _⟩, hpairs⟩

/-! ### The whole circuit -/

theorem buildXorCircuit_traced (bit : F × F) (bits : List (F × F)) :
    ∃ cb vars v, (buildXorCircuit (bit :: bits)).run ConstraintBuilder.new = (.ok (some ()), cb) ∧
      Traced (xorCircuitCalls (bit :: bits)) cb (vars ++ [v]) ∧
      v.value = ((bit :: bits).map xorValue).prod := by
  have hempty : ∀ label, (ConstraintBuilder.new : ConstraintBuilder F).labelToVarIndex.lookup label
      = none := fun _ => rfl
  obtain ⟨pairs, cb₁, added, h₁, hvalues, t₁, hadded, hlabels, hpairs⟩ :=
    traced_new.inputBits (bit :: bits) (Nat.mul_zero 2).symm fun label h => absurd (hempty label) h
  change Traced (inputBitCalls 0 (bit :: bits)) cb₁ added at t₁
  change PairsAt 0 pairs added at hpairs
  rw [List.length_cons, Nat.mul_add, Nat.mul_one] at hadded
  have hunused : ∀ label, (∀ n : Nat, label ≠ "a" ++ toString n) →
      (∀ n : Nat, label ≠ "b" ++ toString n) → cb₁.labelToVarIndex.lookup label = none := by
    intro label hla hlb
    by_contra hsome
    obtain ⟨j, _, hlabel | hlabel⟩ := hlabels label hsome
    · exact hla j hlabel
    · exact hlb j hlabel
  obtain ⟨minus_one, cb₂, h₂, v₂, t₂, hothers₂⟩ := t₁.input
    (hunused "minus_one" (fun n => label_ne (by decide : 'm' ≠ 'a') "inus_one" _)
      (fun n => label_ne (by decide : 'm' ≠ 'b') "inus_one" _))
    (fun k => label_ne (by decide : 'w' ≠ 'm') ("_" ++ toString k) "inus_one") ((0 : F) - 1)
  have hone : cb₂.labelToVarIndex.lookup "one" = none := by
    rw [hothers₂ "one" (by decide)]
    exact hunused "one" (fun n => label_ne (by decide : 'o' ≠ 'a') "ne" _)
      (fun n => label_ne (by decide : 'o' ≠ 'b') "ne" _)
  obtain ⟨one, cb₃, h₃, v₃, t₃, _⟩ := t₂.input hone
    (fun k => label_ne (by decide : 'w' ≠ 'o') ("_" ++ toString k) "ne") (1 : F)
  have hminus : minus_one.value = -1 := by
    rw [v₂, zero_sub]
  rw [List.append_assoc added] at t₃
  have hpairs₃ := hpairs.append ([minus_one] ++ [one])
  have hnew := getElem?_added added ([minus_one] ++ [one])
  rw [hadded] at hnew
  obtain ⟨vars, hvars⟩ : ∃ vars, vars = added ++ ([minus_one] ++ [one]) := ⟨_, rfl⟩
  have hlen : vars.length = 2 * bits.length + 4 := by
    rw [hvars, List.length_append, hadded]
    rfl
  have hm : vars[2 * bits.length + 2]? = some minus_one := hvars ▸ hnew 0
  have hone : vars[2 * bits.length + 3]? = some one := hvars ▸ hnew 1
  rw [← hvars] at t₃ hpairs₃
  cases pairs with
  | nil => cases hvalues
  | cons pair pairs =>
    obtain ⟨⟨ha, hc⟩, hrest⟩ := pairsAt_cons.mp hpairs₃
    obtain ⟨xor, cb₄, xor_vars, h₄, v₄, t₄, hxor_len, hxor⟩ := t₃.xor ha hc hm hminus
    rw [hlen] at t₄ hxor
    have hlen₄ : (vars ++ xor_vars).length = 2 * bits.length + 10 + 1 := by
      rw [List.length_append, hlen, hxor_len]
    obtain ⟨out, cb₅, more, h₅, v₅, t₅, hout⟩ := t₄.multiplyXors hminus pairs hlen₄ hxor
      (getElem?_append_of_some hm _) (hrest.append _)
    obtain ⟨output, cb₆, h₆, v₆, t₆⟩ := t₅.gate hout
      (getElem?_append_of_some (getElem?_append_of_some hone _) _) .Mul true
    refine ⟨cb₆, vars ++ xor_vars ++ more, output, ?_, ?_, ?_⟩
    · rw [buildXorCircuit, Build.bind_eq h₁, Build.bind_eq h₂, Build.bind_eq h₃]
      dsimp only
      rw [Build.bind_eq h₄, Build.bind_eq h₅]
      exact Build.bind_eq h₆
    · have hcount : pairs.length = bits.length := by
        have hlength := congrArg List.length hvalues
        rw [List.map_cons, List.length_cons, List.length_map, List.length_cons] at hlength
        exact Nat.succ.inj hlength
      have hlast : 2 * bits.length + 10 + 8 * bits.length = 10 * bits.length + 10 := by omega
      rw [hcount, hlast] at t₆
      simp only [xorCircuitCalls, inputCalls, witnessCalls, List.length_cons, Nat.add_sub_cancel,
        List.append_assoc, List.cons_append, List.nil_append] at t₆ ⊢
      exact t₆
    · rw [v₆, v₅, v₄, v₃, ← hvalues, List.map_cons, List.map_cons, List.prod_cons, List.map_map]
      simp only [ConstraintBuilder.newValue, values, mul_one, Function.comp_def]

/-- The circuit is built for every nonempty vector of bits, and its output is the product of
the exclusive ors. -/
theorem xorCircuitOutput_eq {bits : List (F × F)} (hne : bits ≠ []) :
    xorCircuitOutput bits = some (bits.map xorValue).prod := by
  cases bits with
  | nil => exact absurd rfl hne
  | cons bit bits =>
    obtain ⟨cb, vars, v, hrun, htraced, hvalue⟩ := buildXorCircuit_traced bit bits
    rw [xorCircuitOutput, hrun]
    dsimp only
    rw [htraced.built.assignment, List.map_append, List.map_singleton, ← List.cons_append,
      List.getLast?_concat, hvalue]

end Run

end Lootbox.AcCompiler
