import Mathlib

/-!
# `ac_compiler`: the constraint builder

Methods that take `&mut self` return the builder next to their result. A call that
fails leaves what it has already changed.
-/

namespace Lootbox.AcCompiler

inductive GateType
  | Add
  | Mul
  deriving DecidableEq, Repr

structure Gate where
  leftIndex : Nat
  rightIndex : Nat
  symbol : GateType
  deriving DecidableEq, Repr

inductive VariableType
  | Input
  | Witness
  | Output
  deriving DecidableEq, Repr

structure Variable (F : Type) where
  label : String
  variableType : VariableType
  value : F
  deriving DecidableEq, Repr

inductive Error
  | VarAlreadyExists (message : String)
  | VarMissing (message : String)
  deriving DecidableEq, Repr

structure ConstraintBuilder (F : Type) where
  gates : List Gate
  labelToVarIndex : List (String × Nat)
  currIndex : Nat
  numberOfInputs : Nat
  numberOfOutputs : Nat
  assignment : List F
  deriving Repr

theorem getElem?_concat_eq_some {α : Type} {vars : List α} {var v : α} {j : Nat}
    (h : (vars ++ [var])[j]? = some v) :
    vars[j]? = some v ∨ j = vars.length ∧ v = var := by
  by_cases hj : j < vars.length
  · rw [List.getElem?_append_left hj] at h
    exact Or.inl h
  · have hlt := (List.getElem?_eq_some_iff.mp h).1
    rw [List.length_append, List.length_singleton] at hlt
    have hjeq : j = vars.length := by omega
    subst hjeq
    rw [List.getElem?_concat_length] at h
    exact Or.inr ⟨rfl, (Option.some.inj h).symm⟩

variable {F : Type} [Field F]

namespace ConstraintBuilder

/-- The first entry of the assignment is the dummy selector. -/
def new : ConstraintBuilder F where
  gates := []
  labelToVarIndex := []
  currIndex := 1
  numberOfInputs := 0
  numberOfOutputs := 0
  assignment := [1]

def registerNewVar (self : ConstraintBuilder F) (label : String) (value : F)
    (variable_type : VariableType) : Except Error (Variable F) × ConstraintBuilder F :=
  if (self.labelToVarIndex.lookup label).isSome then
    (.error (.VarAlreadyExists ("Var with label " ++ label ++ " already exists")), self)
  else
    (.ok ⟨label, variable_type, value⟩,
      { self with
        labelToVarIndex := (label, self.currIndex) :: self.labelToVarIndex
        currIndex := self.currIndex + 1
        numberOfInputs := self.numberOfInputs + if variable_type = .Input then 1 else 0
        numberOfOutputs := self.numberOfOutputs + if variable_type = .Output then 1 else 0
        assignment := self.assignment ++ [value] })

def newInputVariable (self : ConstraintBuilder F) (label : String) (value : F) :
    Except Error (Variable F) × ConstraintBuilder F :=
  self.registerNewVar label value .Input

def newValue (constraint_type : GateType) (lhs rhs : F) : F :=
  match constraint_type with
  | .Add => lhs + rhs
  | .Mul => lhs * rhs

/-- The message for a missing `rhs` names the label of `lhs`, as in the source. -/
def enforceConstraint (self : ConstraintBuilder F) (lhs rhs : Variable F)
    (constraint_type : GateType) (variable_type : VariableType) :
    Except Error (Variable F) × ConstraintBuilder F :=
  match self.labelToVarIndex.lookup lhs.label with
  | none => (.error (.VarMissing ("Var with label " ++ lhs.label ++ " doesn't exists")), self)
  | some lhs_index =>
    match self.labelToVarIndex.lookup rhs.label with
    | none => (.error (.VarMissing ("Var with label " ++ lhs.label ++ " doesn't exists")), self)
    | some rhs_index =>
      registerNewVar { self with gates := self.gates ++ [⟨lhs_index, rhs_index, constraint_type⟩] }
        ("w_" ++ toString self.currIndex) (newValue constraint_type lhs.value rhs.value)
        variable_type

/-- `2u32.pow` overflows from the exponent 32 on. -/
def pow32 (exponent : Nat) : Option Nat := if exponent < 32 then some (2 ^ exponent) else none

/-- The closure of `finalize`; `none` is the overflow of `2u32.pow`. -/
def nextPowerOf2 (val : Nat) : Option Nat := do
  let log2_val := val.log2
  let floor ← pow32 log2_val
  if floor = val then return val
  else pow32 (1 + log2_val)

/-- Subtraction of `usize` -/
def checkedSub (a b : Nat) : Option Nat := if b ≤ a then some (a - b) else none

/-- `Vec::split_off`, which panics beyond the end. -/
def splitOff {α : Type} (xs : List α) (index : Nat) : Option (List α × List α) :=
  if index ≤ xs.length then some (xs.take index, xs.drop index) else none

/-- Dummy gates and ones go in front of the last `number_of_outputs` gates and values; `none`
is a panic. -/
def finalize (self : ConstraintBuilder F) : Option (ConstraintBuilder F) := do
  let unnormalized := self.gates.length + self.numberOfInputs + 1
  let number_of_constraints ← nextPowerOf2 unnormalized
  let dummies ← checkedSub number_of_constraints unnormalized
  let gates_index ← checkedSub self.gates.length self.numberOfOutputs
  let (first_gates, output_gates) ← splitOff self.gates gates_index
  let values_index ← checkedSub unnormalized self.numberOfOutputs
  let (first_values, outputs) ← splitOff self.assignment values_index
  return { self with
    gates := first_gates ++ List.replicate dummies ⟨0, 0, .Mul⟩ ++ output_gates
    assignment := first_values ++ List.replicate dummies 1 ++ outputs }

end ConstraintBuilder

/-! ### Sequences of calls -/

/-- A call of the builder; operands are named by their position among the variables that
the builder has returned so far. -/
inductive Call (F : Type)
  | newInputVariable (label : String) (value : F)
  | enforceConstraint (lhs rhs : Nat) (constraint_type : GateType) (output : Bool)
  deriving Repr

namespace Call

/-- The call on a builder that has returned the variables `vars`; `none` when it fails. -/
def run (call : Call F) (st : ConstraintBuilder F × List (Variable F)) :
    Option (ConstraintBuilder F × List (Variable F)) :=
  match call with
  | .newInputVariable label value =>
    match st.1.newInputVariable label value with
    | (.ok var, cb) => some (cb, st.2 ++ [var])
    | (.error _, _) => none
  | .enforceConstraint lhs rhs constraint_type output =>
    match st.2[lhs]?, st.2[rhs]? with
    | some l, some r =>
      match st.1.enforceConstraint l r constraint_type (if output then .Output else .Witness) with
      | (.ok var, cb) => some (cb, st.2 ++ [var])
      | (.error _, _) => none
    | _, _ => none

end Call

def runCalls (calls : List (Call F)) (st : ConstraintBuilder F × List (Variable F)) :
    Option (ConstraintBuilder F × List (Variable F)) :=
  calls.foldlM (fun st call => call.run st) st

/-! ### What a sequence of calls leaves behind -/

/-- Every variable has the index after its position, and as many rows as variables. -/
structure Built (cb : ConstraintBuilder F) (vars : List (Variable F)) : Prop where
  curr : cb.currIndex = vars.length + 1
  assignment : cb.assignment = 1 :: vars.map Variable.value
  labels : ∀ (j : Nat) (v : Variable F), vars[j]? = some v →
    cb.labelToVarIndex.lookup v.label = some (j + 1)
  inputs : cb.numberOfInputs + cb.gates.length = vars.length
  outputs : cb.numberOfOutputs = (vars.filter fun v => v.variableType == .Output).length

/-- Gate `j` computes variable `number_of_inputs + j` from variables before it. -/
def Aligned (cb : ConstraintBuilder F) (vars : List (Variable F)) : Prop :=
  ∀ (j : Nat) (gate : Gate), cb.gates[j]? = some gate →
    ∃ (l r : Nat) (lv rv v : Variable F), gate.leftIndex = l + 1 ∧ gate.rightIndex = r + 1 ∧
      l < cb.numberOfInputs + j ∧ r < cb.numberOfInputs + j ∧ vars[l]? = some lv ∧
      vars[r]? = some rv ∧ vars[cb.numberOfInputs + j]? = some v ∧
      v.value = ConstraintBuilder.newValue gate.symbol lv.value rv.value

section Run
variable {cb cb' : ConstraintBuilder F} {vars : List (Variable F)} {var : Variable F}

omit [Field F] in
theorem registerNewVar_ok {label : String} {value : F} {variable_type : VariableType}
    (h : cb.registerNewVar label value variable_type = (.ok var, cb')) :
    cb.labelToVarIndex.lookup label = none ∧ var = ⟨label, variable_type, value⟩ ∧
      cb' = { cb with
        labelToVarIndex := (label, cb.currIndex) :: cb.labelToVarIndex
        currIndex := cb.currIndex + 1
        numberOfInputs := cb.numberOfInputs + if variable_type = .Input then 1 else 0
        numberOfOutputs := cb.numberOfOutputs + if variable_type = .Output then 1 else 0
        assignment := cb.assignment ++ [value] } := by
  unfold ConstraintBuilder.registerNewVar at h
  split at h
  · cases h
  · rename_i hnone
    cases h
    exact ⟨Option.not_isSome_iff_eq_none.mp hnone, rfl, rfl⟩

theorem enforceConstraint_ok {l r : Variable F} {constraint_type : GateType}
    {variable_type : VariableType}
    (h : cb.enforceConstraint l r constraint_type variable_type = (.ok var, cb')) :
    ∃ lhs_index rhs_index, cb.labelToVarIndex.lookup l.label = some lhs_index ∧
      cb.labelToVarIndex.lookup r.label = some rhs_index ∧
      ConstraintBuilder.registerNewVar
        { cb with gates := cb.gates ++ [⟨lhs_index, rhs_index, constraint_type⟩] }
        ("w_" ++ toString cb.currIndex)
        (ConstraintBuilder.newValue constraint_type l.value r.value) variable_type =
          (.ok var, cb') := by
  unfold ConstraintBuilder.enforceConstraint at h
  split at h
  · cases h
  · rename_i lhs_index hl
    split at h
    · cases h
    · rename_i rhs_index hr
      exact ⟨lhs_index, rhs_index, hl, hr, h⟩

theorem Built.register (hb : Built cb vars) {gates : List Gate} {label : String} {value : F}
    {variable_type : VariableType}
    (h : ConstraintBuilder.registerNewVar { cb with gates := gates } label value variable_type =
      (.ok var, cb'))
    (hgates : (if variable_type = .Input then 1 else 0) + gates.length = cb.gates.length + 1) :
    Built cb' (vars ++ [var]) ∧ cb'.gates = gates := by
  obtain ⟨hnone, rfl, rfl⟩ := registerNewVar_ok h
  refine ⟨?_, rfl⟩
  constructor
  · simp only [List.length_append, List.length_singleton, hb.curr]
  · simp only [hb.assignment, List.map_append, List.map_cons, List.map_nil, List.cons_append]
  · intro j v hv
    rcases getElem?_concat_eq_some hv with hold | ⟨rfl, rfl⟩
    · have hlabel := hb.labels j v hold
      have hne : v.label ≠ label := by
        rintro rfl
        rw [show cb.labelToVarIndex.lookup v.label = none from hnone] at hlabel
        cases hlabel
      rw [List.lookup_cons, show (v.label == label) = false from beq_false_of_ne hne]
      exact hlabel
    · rw [List.lookup_cons, beq_self_eq_true]
      exact congrArg some hb.curr
  · have hin := hb.inputs
    simp only [List.length_append, List.length_singleton]
    omega
  · rw [List.filter_append, List.length_append, hb.outputs]
    by_cases hout : variable_type = .Output
    · subst hout
      rfl
    · simp [hout]

theorem newInputVariable_built (hb : Built cb vars) {label : String} {value : F}
    (h : cb.newInputVariable label value = (.ok var, cb')) :
    Built cb' (vars ++ [var]) ∧ cb'.gates = cb.gates ∧ var.variableType = .Input := by
  have hreg : ConstraintBuilder.registerNewVar { cb with gates := cb.gates } label value .Input =
      (.ok var, cb') := h
  obtain ⟨hbuilt, hgates⟩ := hb.register hreg (by rw [if_pos rfl, Nat.add_comm])
  obtain ⟨_, rfl, _⟩ := registerNewVar_ok hreg
  exact ⟨hbuilt, hgates, rfl⟩

theorem enforceConstraint_built (hb : Built cb vars) {l r : Nat} {lv rv : Variable F}
    {constraint_type : GateType} {variable_type : VariableType}
    (htype : variable_type ≠ .Input) (hl : vars[l]? = some lv) (hr : vars[r]? = some rv)
    (h : cb.enforceConstraint lv rv constraint_type variable_type = (.ok var, cb')) :
    Built cb' (vars ++ [var]) ∧ cb'.gates = cb.gates ++ [⟨l + 1, r + 1, constraint_type⟩] ∧
      cb'.numberOfInputs = cb.numberOfInputs ∧ var.variableType = variable_type ∧
      var.value = ConstraintBuilder.newValue constraint_type lv.value rv.value := by
  obtain ⟨lhs_index, rhs_index, hlhs, hrhs, hreg⟩ := enforceConstraint_ok h
  rw [hb.labels l lv hl] at hlhs
  rw [hb.labels r rv hr] at hrhs
  cases hlhs
  cases hrhs
  have hlen : (if variable_type = .Input then 1 else 0) +
      (cb.gates ++ [Gate.mk (l + 1) (r + 1) constraint_type]).length = cb.gates.length + 1 := by
    rw [if_neg htype, List.length_append, List.length_singleton, Nat.zero_add]
  obtain ⟨hbuilt, hgates⟩ := hb.register hreg hlen
  obtain ⟨_, rfl, rfl⟩ := registerNewVar_ok hreg
  exact ⟨hbuilt, hgates, congrArg (cb.numberOfInputs + ·) (if_neg htype), rfl, rfl⟩

theorem Aligned.gate (hb : Built cb vars) (ha : Aligned cb vars) {l r : Nat} {lv rv : Variable F}
    {constraint_type : GateType} (hl : vars[l]? = some lv) (hr : vars[r]? = some rv)
    (hgates : cb'.gates = cb.gates ++ [⟨l + 1, r + 1, constraint_type⟩])
    (hinputs : cb'.numberOfInputs = cb.numberOfInputs)
    (hvalue : var.value = ConstraintBuilder.newValue constraint_type lv.value rv.value) :
    Aligned cb' (vars ++ [var]) := by
  have hin := hb.inputs
  have hll := (List.getElem?_eq_some_iff.mp hl).1
  have hrl := (List.getElem?_eq_some_iff.mp hr).1
  have hkeep : ∀ (i : Nat) (v : Variable F), vars[i]? = some v → (vars ++ [var])[i]? = some v := by
    intro i v hv
    rw [List.getElem?_append_left (List.getElem?_eq_some_iff.mp hv).1]
    exact hv
  intro j gate hj
  rw [hgates] at hj
  rw [hinputs]
  rcases getElem?_concat_eq_some hj with hold | ⟨rfl, rfl⟩
  · obtain ⟨l', r', lv', rv', v, h1, h2, h3, h4, h5, h6, h7, h8⟩ := ha j gate hold
    exact ⟨l', r', lv', rv', v, h1, h2, h3, h4, hkeep l' lv' h5, hkeep r' rv' h6, hkeep _ v h7, h8⟩
  · refine ⟨l, r, lv, rv, var, rfl, rfl, by omega, by omega, hkeep l lv hl, hkeep r rv hr, ?_, hvalue⟩
    rw [hin, List.getElem?_concat_length]

end Run

/-! ### Ordered sequences of calls -/

def Call.isInput : Call F → Prop
  | .newInputVariable _ _ => True
  | _ => False

def Call.isGate (output : Bool) : Call F → Prop
  | .enforceConstraint _ _ _ out => out = output
  | _ => False

/-- Every operand of the call is one of the first `n` variables. -/
def Call.operandsBelow (n : Nat) : Call F → Prop
  | .enforceConstraint lhs rhs _ _ => lhs < n ∧ rhs < n
  | _ => True

/-- The inputs come first and the output gates last, and where padding moves the outputs
no gate reads one. -/
def Ordered (calls : List (Call F)) : Prop :=
  ∃ inputs witnesses outputs, calls = inputs ++ witnesses ++ outputs ∧
    (∀ call ∈ inputs, call.isInput) ∧ (∀ call ∈ witnesses, call.isGate false) ∧
    (∀ call ∈ outputs, call.isGate true) ∧
    ((∃ k, calls.length + 1 = 2 ^ k) ∨
      ∀ call ∈ outputs, call.operandsBelow (inputs.length + witnesses.length))

section Calls

theorem runCalls_cons {call : Call F} {calls : List (Call F)}
    {st st' : ConstraintBuilder F × List (Variable F)} :
    runCalls (call :: calls) st = some st' ↔
      ∃ m, call.run st = some m ∧ runCalls calls m = some st' := by
  rw [runCalls, List.foldlM_cons]
  exact Option.bind_eq_some_iff

theorem runCalls_append {calls calls' : List (Call F)}
    {st st' : ConstraintBuilder F × List (Variable F)} :
    runCalls (calls ++ calls') st = some st' ↔
      ∃ m, runCalls calls st = some m ∧ runCalls calls' m = some st' := by
  rw [runCalls, List.foldlM_append]
  exact Option.bind_eq_some_iff

theorem Call.run_input {label : String} {value : F} {cb : ConstraintBuilder F}
    {vars : List (Variable F)} {st' : ConstraintBuilder F × List (Variable F)}
    (h : (Call.newInputVariable label value).run (cb, vars) = some st') :
    ∃ var cb', cb.newInputVariable label value = (.ok var, cb') ∧ st' = (cb', vars ++ [var]) := by
  dsimp only [Call.run] at h
  split at h
  · rename_i var cb' heq
    cases h
    exact ⟨var, cb', heq, rfl⟩
  · cases h

theorem Call.run_gate {l r : Nat} {constraint_type : GateType} {output : Bool}
    {cb : ConstraintBuilder F} {vars : List (Variable F)}
    {st' : ConstraintBuilder F × List (Variable F)}
    (h : (Call.enforceConstraint l r constraint_type output).run (cb, vars) = some st') :
    ∃ lv rv var cb', vars[l]? = some lv ∧ vars[r]? = some rv ∧
      cb.enforceConstraint lv rv constraint_type (if output then .Output else .Witness) =
        (.ok var, cb') ∧ st' = (cb', vars ++ [var]) := by
  dsimp only [Call.run] at h
  split at h
  · rename_i lv rv hl hr
    split at h
    · rename_i var cb' heq
      cases h
      exact ⟨lv, rv, var, cb', hl, hr, heq, rfl⟩
    · cases h
  · cases h

theorem runCalls_inputs : ∀ (calls : List (Call F)) (cb cb' : ConstraintBuilder F)
    (vars vars' : List (Variable F)), (∀ call ∈ calls, call.isInput) → Built cb vars →
      cb.gates = [] → runCalls calls (cb, vars) = some (cb', vars') →
        Built cb' vars' ∧ cb'.gates = [] ∧ vars'.length = vars.length + calls.length ∧
          ∃ added, vars' = vars ++ added ∧ ∀ v ∈ added, v.variableType = .Input := by
  intro calls
  induction calls with
  | nil =>
    intro cb cb' vars vars' _ hb hg hrun
    cases hrun
    exact ⟨hb, hg, rfl, [], (List.append_nil vars).symm, by simp⟩
  | cons call calls ih =>
    intro cb cb' vars vars' hcalls hb hg hrun
    obtain ⟨m, hcall, hrest⟩ := runCalls_cons.mp hrun
    have hkind := hcalls call List.mem_cons_self
    cases call with
    | enforceConstraint => exact False.elim hkind
    | newInputVariable label value =>
      obtain ⟨var, mcb, hnew, rfl⟩ := Call.run_input hcall
      obtain ⟨hbuilt, hgates, htype⟩ := newInputVariable_built hb hnew
      obtain ⟨hb', hg', hlen, added, rfl, hadded⟩ := ih mcb cb' _ vars'
        (fun c hc => hcalls c (List.mem_cons_of_mem _ hc)) hbuilt (hgates.trans hg) hrest
      refine ⟨hb', hg', ?_, var :: added, ?_, ?_⟩
      · rw [hlen, List.length_append, List.length_singleton, List.length_cons]
        omega
      · rw [List.append_assoc, List.singleton_append]
      · rw [List.forall_mem_cons]
        exact ⟨htype, hadded⟩

/-- Gates keep the builder aligned, and with operands below `n` their indices stay below. -/
theorem runCalls_gates (output : Bool) (n : Nat) : ∀ (calls : List (Call F))
    (cb cb' : ConstraintBuilder F) (vars vars' : List (Variable F)),
      (∀ call ∈ calls, call.isGate output) → Built cb vars → Aligned cb vars →
        runCalls calls (cb, vars) = some (cb', vars') →
          Built cb' vars' ∧ Aligned cb' vars' ∧ cb'.numberOfInputs = cb.numberOfInputs ∧
            vars'.length = vars.length + calls.length ∧
            (∃ added, vars' = vars ++ added ∧
              ∀ v ∈ added, v.variableType = if output then .Output else .Witness) ∧
            ((∀ gate ∈ cb.gates, gate.leftIndex ≤ n ∧ gate.rightIndex ≤ n) →
              (∀ call ∈ calls, call.operandsBelow n) →
                ∀ gate ∈ cb'.gates, gate.leftIndex ≤ n ∧ gate.rightIndex ≤ n) := by
  intro calls
  induction calls with
  | nil =>
    intro cb cb' vars vars' _ hb ha hrun
    cases hrun
    exact ⟨hb, ha, rfl, rfl, ⟨[], (List.append_nil vars).symm, by simp⟩, fun h _ => h⟩
  | cons call calls ih =>
    intro cb cb' vars vars' hcalls hb ha hrun
    obtain ⟨m, hcall, hrest⟩ := runCalls_cons.mp hrun
    have hkind := hcalls call List.mem_cons_self
    cases call with
    | newInputVariable => exact False.elim hkind
    | enforceConstraint l r constraint_type out =>
      obtain rfl : out = output := hkind
      obtain ⟨lv, rv, var, mcb, hl, hr, hnew, rfl⟩ := Call.run_gate hcall
      have htype : (if out then VariableType.Output else .Witness) ≠ .Input := by
        cases out <;> simp
      obtain ⟨hbuilt, hgates, hinputs, hvtype, hvalue⟩ :=
        enforceConstraint_built hb htype hl hr hnew
      have haligned := ha.gate hb hl hr hgates hinputs hvalue
      obtain ⟨hb', ha', hin', hlen, ⟨added, rfl, hadded⟩, hbelow⟩ := ih mcb cb' _ vars'
        (fun c hc => hcalls c (List.mem_cons_of_mem _ hc)) hbuilt haligned hrest
      refine ⟨hb', ha', hin'.trans hinputs, ?_, ⟨var :: added, ?_, ?_⟩, ?_⟩
      · rw [hlen, List.length_append, List.length_singleton, List.length_cons]
        omega
      · rw [List.append_assoc, List.singleton_append]
      · rw [List.forall_mem_cons]
        exact ⟨hvtype, hadded⟩
      · intro hold hops
        rw [List.forall_mem_cons] at hops
        apply hbelow _ hops.2
        rw [hgates]
        intro gate hgate
        rcases List.mem_append.mp hgate with h | h
        · exact hold gate h
        · rw [List.mem_singleton.mp h]
          exact hops.1

theorem built_new : Built (ConstraintBuilder.new : ConstraintBuilder F) [] where
  curr := rfl
  assignment := rfl
  labels := fun j v h => by cases h
  inputs := rfl
  outputs := rfl

end Calls

end Lootbox.AcCompiler
