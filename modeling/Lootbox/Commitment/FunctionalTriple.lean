import Lootbox.Commitment.CircuitCompiler

/-!
# The compiled matrices are a functional triple

Two of the matrices are strictly lower triangular from the first gate on and the third one
is the identity there, so that the inputs determine the whole solution, row after row. The
solution is the evaluation of the calls that built the circuit.
-/

namespace Lootbox.AcCompiler

variable {F : Type} [Field F]

/-! ### Evaluating the calls on other inputs -/

/-- The values of all variables, given the inputs still to be read and the values so far. -/
def evalCalls : List (Call F) → List F → List F → Option (List F)
  | [], _, values => some values
  | .newInputVariable _ _ :: _, [], _ => none
  | .newInputVariable _ _ :: calls, x :: xs, values => evalCalls calls xs (values ++ [x])
  | .enforceConstraint lhs rhs constraint_type _ :: calls, xs, values => do
    let l ← values[lhs]?
    let r ← values[rhs]?
    evalCalls calls xs (values ++ [ConstraintBuilder.newValue constraint_type l r])

def Call.isOutput : Call F → Bool
  | .newInputVariable _ _ => false
  | .enforceConstraint _ _ _ output => output

def evalOutputs (calls : List (Call F)) (xs : List F) : Option (List F) :=
  (evalCalls calls xs []).map fun values =>
    ((calls.zip values).filter fun e => e.1.isOutput).map Prod.snd

def setInputs : List (Call F) → List F → List (Call F)
  | .newInputVariable label _ :: calls, x :: xs => .newInputVariable label x :: setInputs calls xs
  | call :: calls, xs => call :: setInputs calls xs
  | [], _ => []

def inputCount : List (Call F) → Nat
  | [] => 0
  | .newInputVariable _ _ :: calls => inputCount calls + 1
  | .enforceConstraint _ _ _ _ :: calls => inputCount calls

structure SameShape (st st' : ConstraintBuilder F × List (Variable F)) : Prop where
  gates : st'.1.gates = st.1.gates
  labels : st'.1.labelToVarIndex = st.1.labelToVarIndex
  curr : st'.1.currIndex = st.1.currIndex
  inputs : st'.1.numberOfInputs = st.1.numberOfInputs
  outputs : st'.1.numberOfOutputs = st.1.numberOfOutputs
  rows : st'.1.assignment.length = st.1.assignment.length
  vars : List.Forall₂ (fun v v' : Variable F => v'.label = v.label ∧
    v'.variableType = v.variableType) st.2 st'.2

omit [Field F] in
theorem SameShape.refl (st : ConstraintBuilder F × List (Variable F)) : SameShape st st :=
  ⟨rfl, rfl, rfl, rfl, rfl, rfl, List.forall₂_same.mpr fun _ _ => ⟨rfl, rfl⟩⟩

section Shape

variable {cb db cb' : ConstraintBuilder F} {vars ws : List (Variable F)} {var : Variable F}

omit [Field F] in
theorem SameShape.register {gates : List Gate} {label : String} {value : F} (value' : F)
    {variable_type : VariableType} (h : SameShape (cb, vars) (db, ws))
    (hreg : ConstraintBuilder.registerNewVar { cb with gates := gates } label value variable_type =
      (.ok var, cb')) :
    ∃ var' db', ConstraintBuilder.registerNewVar { db with gates := gates } label value'
        variable_type = (.ok var', db') ∧ var'.value = value' ∧
      SameShape (cb', vars ++ [var]) (db', ws ++ [var']) := by
  obtain ⟨hnone, rfl, rfl⟩ := registerNewVar_ok hreg
  refine ⟨⟨label, variable_type, value'⟩, { db with
    gates := gates
    labelToVarIndex := (label, db.currIndex) :: db.labelToVarIndex
    currIndex := db.currIndex + 1
    numberOfInputs := db.numberOfInputs + if variable_type = .Input then 1 else 0
    numberOfOutputs := db.numberOfOutputs + if variable_type = .Output then 1 else 0
    assignment := db.assignment ++ [value'] }, ?_, rfl, ?_⟩
  · have hnone' : db.labelToVarIndex.lookup label = none := by
      rw [h.labels]
      exact hnone
    simp only [ConstraintBuilder.registerNewVar, hnone', Option.isSome_none, Bool.false_eq_true,
      if_false]
  · constructor
    · rfl
    · exact congrArg₂ (fun i ls => (label, i) :: ls) h.curr h.labels
    · exact congrArg (· + 1) h.curr
    · exact congrArg (· + if variable_type = .Input then 1 else 0) h.inputs
    · exact congrArg (· + if variable_type = .Output then 1 else 0) h.outputs
    · have hrows : db.assignment.length = cb.assignment.length := h.rows
      simp only [List.length_append, List.length_singleton, hrows]
    · exact List.rel_append h.vars (List.Forall₂.cons ⟨rfl, rfl⟩ List.Forall₂.nil)

omit [Field F] in
theorem SameShape.getElem? (h : SameShape (cb, vars) (db, ws)) {i : Nat} {v : Variable F}
    (hv : vars[i]? = some v) : ∃ w, ws[i]? = some w ∧ w.label = v.label := by
  obtain ⟨hi, rfl⟩ := List.getElem?_eq_some_iff.mp hv
  obtain ⟨hlen, hget⟩ := List.forall₂_iff_get.mp h.vars
  have hi' : i < ws.length := lt_of_lt_of_eq hi hlen
  exact ⟨ws[i], List.getElem?_eq_getElem hi', (hget i hi hi').1⟩

omit [Field F] in
theorem SameShape.newInputVariable (h : SameShape (cb, vars) (db, ws)) {label : String}
    {value : F} (value' : F) (hnew : cb.newInputVariable label value = (.ok var, cb')) :
    ∃ var' db', db.newInputVariable label value' = (.ok var', db') ∧ var'.value = value' ∧
      SameShape (cb', vars ++ [var]) (db', ws ++ [var']) := by
  have hreg : ConstraintBuilder.registerNewVar { cb with gates := cb.gates } label value .Input =
      (.ok var, cb') := hnew
  obtain ⟨var', db', hreg', hvalue, hshape⟩ := h.register value' hreg
  refine ⟨var', db', ?_, hvalue, hshape⟩
  rw [← h.gates] at hreg'
  exact hreg'

theorem SameShape.enforceConstraint (h : SameShape (cb, vars) (db, ws)) {l r l' r' : Variable F}
    {constraint_type : GateType} {variable_type : VariableType} (hl : l'.label = l.label)
    (hr : r'.label = r.label)
    (hnew : cb.enforceConstraint l r constraint_type variable_type = (.ok var, cb')) :
    ∃ var' db', db.enforceConstraint l' r' constraint_type variable_type = (.ok var', db') ∧
      var'.value = ConstraintBuilder.newValue constraint_type l'.value r'.value ∧
      SameShape (cb', vars ++ [var]) (db', ws ++ [var']) := by
  obtain ⟨lhs_index, rhs_index, hlhs, hrhs, hreg⟩ := enforceConstraint_ok hnew
  obtain ⟨var', db', hreg', hvalue, hshape⟩ := h.register
    (ConstraintBuilder.newValue constraint_type l'.value r'.value) hreg
  have hgates : db.gates = cb.gates := h.gates
  have hcurr : db.currIndex = cb.currIndex := h.curr
  have hlabels : db.labelToVarIndex = cb.labelToVarIndex := h.labels
  refine ⟨var', db', ?_, hvalue, hshape⟩
  rw [hlabels, ← hcurr] at hreg'
  simp only [ConstraintBuilder.enforceConstraint, hlabels, hl, hr, hlhs, hrhs, hgates]
  exact hreg'

theorem Call.run_numberOfInputs {call : Call F} {st' : ConstraintBuilder F × List (Variable F)}
    (h : call.run (cb, vars) = some st') :
    st'.1.numberOfInputs = cb.numberOfInputs + inputCount [call] := by
  cases call with
  | newInputVariable label value =>
    obtain ⟨var, mcb, hnew, rfl⟩ := Call.run_input h
    obtain ⟨_, _, rfl⟩ := registerNewVar_ok hnew
    rfl
  | enforceConstraint l r constraint_type output =>
    obtain ⟨lv, rv, var, mcb, _, _, hnew, rfl⟩ := Call.run_gate h
    obtain ⟨_, _, _, _, hreg⟩ := enforceConstraint_ok hnew
    obtain ⟨_, _, rfl⟩ := registerNewVar_ok hreg
    cases output <;> rfl

end Shape

theorem runCalls_numberOfInputs {calls : List (Call F)} :
    ∀ {st st' : ConstraintBuilder F × List (Variable F)}, runCalls calls st = some st' →
      st'.1.numberOfInputs = st.1.numberOfInputs + inputCount calls := by
  induction calls with
  | nil =>
    intro st st' h
    cases h
    rfl
  | cons call calls ih =>
    intro st st' h
    obtain ⟨m, hcall, hrest⟩ := runCalls_cons.mp h
    rw [ih hrest, Call.run_numberOfInputs hcall]
    cases call with
    | newInputVariable => simp only [inputCount]; omega
    | enforceConstraint => rfl

/-- On other inputs the calls take the same course, and their values are those of `evalCalls`. -/
theorem runCalls_setInputs {calls : List (Call F)} : ∀ {xs : List F}
    {cb db cb' : ConstraintBuilder F} {vars ws vars' : List (Variable F)},
    SameShape (cb, vars) (db, ws) → xs.length = inputCount calls →
      runCalls calls (cb, vars) = some (cb', vars') →
        ∃ db' ws', runCalls (setInputs calls xs) (db, ws) = some (db', ws') ∧
          SameShape (cb', vars') (db', ws') ∧
          evalCalls calls xs (ws.map Variable.value) = some (ws'.map Variable.value) := by
  induction calls with
  | nil =>
    intro xs cb db cb' vars ws vars' hshape hlen hrun
    cases hrun
    exact ⟨db, ws, rfl, hshape, by rw [evalCalls]⟩
  | cons call calls ih =>
    intro xs cb db cb' vars ws vars' hshape hlen hrun
    obtain ⟨m, hcall, hrest⟩ := runCalls_cons.mp hrun
    cases call with
    | newInputVariable label value =>
      obtain ⟨var, mcb, hnew, rfl⟩ := Call.run_input hcall
      cases xs with
      | nil => cases hlen
      | cons x xs =>
        obtain ⟨var', mdb, hnew', hvalue, hshape'⟩ := hshape.newInputVariable x hnew
        obtain ⟨db', ws', hrun', hfinal, heval⟩ := ih hshape' (Nat.succ.inj hlen) hrest
        refine ⟨db', ws', ?_, hfinal, ?_⟩
        · apply runCalls_cons.mpr
          refine ⟨_, ?_, hrun'⟩
          simp only [Call.run, hnew']
        · rw [evalCalls, ← heval, List.map_append, List.map_singleton, hvalue]
    | enforceConstraint l r constraint_type output =>
      obtain ⟨lv, rv, var, mcb, hl, hr, hnew, rfl⟩ := Call.run_gate hcall
      obtain ⟨lw, hlw, hll⟩ := hshape.getElem? hl
      obtain ⟨rw, hrw, hrl⟩ := hshape.getElem? hr
      obtain ⟨var', mdb, hnew', hvalue, hshape'⟩ := hshape.enforceConstraint hll hrl hnew
      obtain ⟨db', ws', hrun', hfinal, heval⟩ := ih hshape' hlen hrest
      have hset : setInputs (.enforceConstraint l r constraint_type output :: calls) xs =
          .enforceConstraint l r constraint_type output :: setInputs calls xs := by
        cases xs <;> rfl
      refine ⟨db', ws', ?_, hfinal, ?_⟩
      · rw [hset]
        apply runCalls_cons.mpr
        refine ⟨_, ?_, hrun'⟩
        simp only [Call.run, hlw, hrw, hnew']
      · simp only [evalCalls, List.getElem?_map, hlw, hrw, Option.map_some, Option.bind_eq_bind,
          Option.bind_some]
        rw [← heval, List.map_append, List.map_singleton, hvalue]

/-! ### Ordered calls on other inputs -/

omit [Field F] in
theorem setInputs_gates {calls : List (Call F)} (hcalls : ∀ call ∈ calls, ¬ call.isInput)
    (xs : List F) : setInputs calls xs = calls := by
  induction calls with
  | nil => cases xs <;> rfl
  | cons call calls ih =>
    rw [List.forall_mem_cons] at hcalls
    cases call with
    | newInputVariable => exact absurd trivial hcalls.1
    | enforceConstraint => cases xs <;> exact congrArg (_ :: ·) (ih hcalls.2)

omit [Field F] in
theorem setInputs_append {inputs rest : List (Call F)} (hin : ∀ call ∈ inputs, call.isInput)
    (hrest : ∀ call ∈ rest, ¬ call.isInput) : ∀ xs : List F,
    ∃ inputs', setInputs (inputs ++ rest) xs = inputs' ++ rest ∧
      inputs'.length = inputs.length ∧ ∀ call ∈ inputs', call.isInput := by
  induction inputs with
  | nil => exact fun xs => ⟨[], setInputs_gates hrest xs, rfl, by simp⟩
  | cons call inputs ih =>
    intro xs
    rw [List.forall_mem_cons] at hin
    cases call with
    | enforceConstraint => exact False.elim hin.1
    | newInputVariable label value =>
      cases xs with
      | nil =>
        obtain ⟨inputs', heq, hlen, hall⟩ := ih hin.2 []
        refine ⟨.newInputVariable label value :: inputs', congrArg (_ :: ·) heq,
          congrArg (· + 1) hlen, ?_⟩
        rw [List.forall_mem_cons]
        exact ⟨trivial, hall⟩
      | cons x xs =>
        obtain ⟨inputs', heq, hlen, hall⟩ := ih hin.2 xs
        refine ⟨.newInputVariable label x :: inputs', congrArg (_ :: ·) heq,
          congrArg (· + 1) hlen, ?_⟩
        rw [List.forall_mem_cons]
        exact ⟨trivial, hall⟩

omit [Field F] in
theorem Call.isGate.not_isInput {output : Bool} {call : Call F} (h : call.isGate output) :
    ¬ call.isInput := by
  cases call with
  | newInputVariable => exact False.elim h
  | enforceConstraint => exact id

omit [Field F] in
theorem Ordered.split {calls : List (Call F)} (h : Ordered calls) :
    ∃ inputs rest, calls = inputs ++ rest ∧ (∀ call ∈ inputs, call.isInput) ∧
      ∀ call ∈ rest, ¬ call.isInput := by
  obtain ⟨inputs, witnesses, outputs, rfl, hin, hwit, hout, _⟩ := h
  refine ⟨inputs, witnesses ++ outputs, List.append_assoc _ _ _, hin, ?_⟩
  intro call hcall
  rcases List.mem_append.mp hcall with hmem | hmem
  · exact (hwit call hmem).not_isInput
  · exact (hout call hmem).not_isInput

omit [Field F] in
theorem Ordered.setInputs {calls : List (Call F)} (h : Ordered calls) (xs : List F) :
    Ordered (setInputs calls xs) := by
  obtain ⟨inputs, witnesses, outputs, rfl, hin, hwit, hout, hops⟩ := h
  have hrest : ∀ call ∈ witnesses ++ outputs, ¬ call.isInput := by
    intro call hcall
    rcases List.mem_append.mp hcall with hmem | hmem
    · exact (hwit call hmem).not_isInput
    · exact (hout call hmem).not_isInput
  obtain ⟨inputs', heq, hlen, hall⟩ := setInputs_append hin hrest xs
  rw [← List.append_assoc, ← List.append_assoc] at heq
  rw [heq]
  refine ⟨inputs', witnesses, outputs, rfl, hall, hwit, hout, ?_⟩
  simp only [List.length_append, hlen] at hops ⊢
  exact hops

theorem evalCalls_prefix {calls : List (Call F)} : ∀ {xs values r : List F},
    evalCalls calls xs values = some r → values <+: r := by
  induction calls with
  | nil =>
    intro xs values r h
    rw [evalCalls] at h
    cases h
    exact List.prefix_refl _
  | cons call calls ih =>
    intro xs values r h
    cases call with
    | newInputVariable label value =>
      cases xs with
      | nil => cases h
      | cons x xs => exact (List.prefix_append _ _).trans (ih h)
    | enforceConstraint lhs rhs constraint_type output =>
      simp only [evalCalls, Option.bind_eq_bind, Option.bind_eq_some_iff] at h
      obtain ⟨l, _, r', _, h⟩ := h
      exact (List.prefix_append _ _).trans (ih h)

omit [Field F] in
theorem inputCount_gates {calls : List (Call F)} (hcalls : ∀ call ∈ calls, ¬ call.isInput) :
    inputCount calls = 0 := by
  induction calls with
  | nil => rfl
  | cons call calls ih =>
    rw [List.forall_mem_cons] at hcalls
    cases call with
    | newInputVariable => exact absurd trivial hcalls.1
    | enforceConstraint => exact ih hcalls.2

theorem evalCalls_inputs {inputs rest : List (Call F)} (hin : ∀ call ∈ inputs, call.isInput)
    (hrest : ∀ call ∈ rest, ¬ call.isInput) : ∀ {xs values r : List F},
    xs.length = inputCount (inputs ++ rest) → evalCalls (inputs ++ rest) xs values = some r →
      values ++ xs <+: r := by
  induction inputs with
  | nil =>
    intro xs values r hlen h
    rw [List.nil_append, inputCount_gates hrest, List.length_eq_zero_iff] at hlen
    subst hlen
    rw [List.append_nil]
    exact evalCalls_prefix h
  | cons call inputs ih =>
    intro xs values r hlen h
    rw [List.forall_mem_cons] at hin
    cases call with
    | enforceConstraint => exact False.elim hin.1
    | newInputVariable label value =>
      cases xs with
      | nil => cases hlen
      | cons x xs =>
        have := ih hin.2 (Nat.succ.inj hlen) h
        rw [List.append_assoc] at this
        exact this

/-! ### The outputs among the variables -/

theorem Call.run_isOutput {call : Call F} {cb : ConstraintBuilder F} {vars : List (Variable F)}
    {st' : ConstraintBuilder F × List (Variable F)} (h : call.run (cb, vars) = some st') :
    ∃ var, st'.2 = vars ++ [var] ∧ (var.variableType == .Output) = call.isOutput := by
  cases call with
  | newInputVariable label value =>
    obtain ⟨var, mcb, hnew, rfl⟩ := Call.run_input h
    obtain ⟨_, rfl, _⟩ := registerNewVar_ok hnew
    exact ⟨_, rfl, rfl⟩
  | enforceConstraint l r constraint_type output =>
    obtain ⟨lv, rv, var, mcb, _, _, hnew, rfl⟩ := Call.run_gate h
    obtain ⟨_, _, _, _, hreg⟩ := enforceConstraint_ok hnew
    obtain ⟨_, rfl, _⟩ := registerNewVar_ok hreg
    refine ⟨_, rfl, ?_⟩
    cases output <;> rfl

theorem runCalls_isOutput {calls : List (Call F)} :
    ∀ {st st' : ConstraintBuilder F × List (Variable F)}, runCalls calls st = some st' →
      (st'.2.map fun v => v.variableType == .Output) =
        (st.2.map fun v => v.variableType == .Output) ++ calls.map Call.isOutput := by
  induction calls with
  | nil =>
    intro st st' h
    cases h
    rw [List.map_nil, List.append_nil]
  | cons call calls ih =>
    intro st st' h
    obtain ⟨m, hcall, hrest⟩ := runCalls_cons.mp h
    obtain ⟨var, hm, hvar⟩ := Call.run_isOutput hcall
    rw [ih hrest, hm, List.map_append, List.map_singleton, hvar, List.append_assoc,
      List.singleton_append, List.map_cons]

theorem filter_of_map_eq {α β γ : Type} {p : α → Bool} {q : β → Bool} (f : α → γ) :
    ∀ {ws : List α} {calls : List β}, ws.map p = calls.map q →
      (ws.filter p).map f = ((calls.zip (ws.map f)).filter fun e => q e.1).map Prod.snd := by
  intro ws
  induction ws with
  | nil =>
    intro calls h
    rw [List.map_nil, List.zip_nil_right]
    rfl
  | cons w ws ih =>
    intro calls h
    cases calls with
    | nil => cases h
    | cons call calls =>
      rw [List.map_cons, List.map_cons, List.cons.injEq] at h
      rw [List.map_cons, List.zip_cons_cons]
      cases hp : p w with
      | true =>
        rw [List.filter_cons_of_pos hp, List.filter_cons_of_pos (h.1 ▸ hp), List.map_cons,
          List.map_cons, ih h.2]
      | false =>
        rw [List.filter_cons_of_neg (by rw [hp]; exact Bool.false_ne_true),
          List.filter_cons_of_neg (by rw [← h.1, hp]; exact Bool.false_ne_true), ih h.2]

/-! ### The shape of the matrices -/

def entryCount (matrix : Matrix F) : Nat := (matrix.map List.length).sum

omit [Field F] in
theorem entryCount_push {row : Nat} {entry : F × Nat} : ∀ {matrix : Matrix F},
    row < matrix.length → entryCount (push matrix row entry) = entryCount matrix + 1 := by
  intro matrix
  induction matrix generalizing row with
  | nil =>
    intro h
    cases h
  | cons first matrix ih =>
    intro h
    cases row with
    | zero =>
      simp only [entryCount, push, List.modify_zero_cons, List.map_cons, List.sum_cons,
        List.length_append, List.length_singleton]
      omega
    | succ row =>
      have hrow : row < matrix.length := Nat.lt_of_succ_lt_succ h
      have hrest := ih hrow
      simp only [entryCount, push, List.modify_succ_cons, List.map_cons, List.sum_cons] at hrest ⊢
      omega

omit [Field F] in
theorem length_push {matrix : Matrix F} {row : Nat} {entry : F × Nat} :
    (push matrix row entry).length = matrix.length := List.length_modify _ _ _

/-- The counters are the entry counts of `n` rows. -/
structure Counted (n : Nat) (st : Matrices F) : Prop where
  lengthA : st.a.length = n
  lengthB : st.b.length = n
  lengthC : st.c.length = n
  entriesA : entryCount st.a = st.entriesA
  entriesB : entryCount st.b = st.entriesB
  entriesC : entryCount st.c = st.entriesC

theorem Counted.compileGate {n number_of_inputs : Nat} {st : Matrices F} {e : Gate × Nat}
    (h : Counted n st) (he : 1 + number_of_inputs + e.2 < n) :
    Counted n (compileGate number_of_inputs st e) := by
  obtain ⟨hlA, hlB, hlC, hA, hB, hC⟩ := h
  unfold AcCompiler.compileGate
  cases e.1.symbol with
  | Add =>
    constructor
    · rw [length_push, hlA]
    · rw [length_push, length_push, hlB]
    · rw [length_push, hlC]
    · rw [entryCount_push (hlA ▸ he), hA]
    · rw [entryCount_push (by rw [length_push, hlB]; exact he), entryCount_push (hlB ▸ he), hB]
    · rw [entryCount_push (hlC ▸ he), hC]
  | Mul =>
    constructor
    · rw [length_push, hlA]
    · rw [length_push, hlB]
    · rw [length_push, hlC]
    · rw [entryCount_push (hlA ▸ he), hA]
    · rw [entryCount_push (hlB ▸ he), hB]
    · rw [entryCount_push (hlC ▸ he), hC]

theorem Counted.foldl {n number_of_inputs : Nat} {es : List (Gate × Nat)} :
    ∀ {st : Matrices F}, Counted n st → (∀ e ∈ es, 1 + number_of_inputs + e.2 < n) →
      Counted n (es.foldl (AcCompiler.compileGate number_of_inputs) st) := by
  induction es with
  | nil => exact fun h _ => h
  | cons e es ih =>
    intro st h hes
    rw [List.forall_mem_cons] at hes
    exact ih (h.compileGate hes.1) hes.2

theorem ac2tft_counted (circuit : Circuit) :
    ∃ st : Matrices F, Counted (circuit.gates.length + circuit.numberOfInputs + 1) st ∧
      ac2tft circuit = (⟨circuit.gates.length + circuit.numberOfInputs + 1,
        circuit.numberOfInputs + 1, circuit.numberOfOutputs,
        max st.entriesA (max st.entriesB st.entriesC)⟩, st.a, st.b, st.c) := by
  refine ⟨_, ?_, rfl⟩
  apply Counted.foldl
  · constructor
    all_goals simp [emptyMatrix, entryCount]
  · intro e he
    have := List.snd_lt_of_mem_zipIdx he
    omega

def Circuit.Topological (circuit : Circuit) : Prop :=
  ∀ (j : Nat) (gate : Gate), circuit.gates[j]? = some gate →
    gate.leftIndex ≤ circuit.numberOfInputs + j ∧ gate.rightIndex ≤ circuit.numberOfInputs + j

theorem Prepared.topological {cb : ConstraintBuilder F} {vars : List (Variable F)}
    (h : Prepared cb vars) (d : Nat) :
    Circuit.Topological ⟨padAt cb.gates (cb.gates.length - cb.numberOfOutputs) d ⟨0, 0, .Mul⟩,
      cb.numberOfInputs, cb.numberOfOutputs⟩ := by
  have hbefore : ∀ (i : Nat) (gate : Gate), cb.gates[i]? = some gate →
      gate.leftIndex ≤ cb.numberOfInputs + i ∧ gate.rightIndex ≤ cb.numberOfInputs + i := by
    intro i gate hi
    obtain ⟨l, r, _, _, _, hl, hr, hll, hrl, _⟩ := h.aligned i gate hi
    omega
  intro j gate hj
  rcases Nat.lt_or_ge j (cb.gates.length - cb.numberOfOutputs) with hfirst | hge
  · rw [padAt_before (Nat.sub_le _ _) hfirst] at hj
    exact hbefore j gate hj
  · obtain ⟨n, rfl⟩ : ∃ n, j = cb.gates.length - cb.numberOfOutputs + n :=
      ⟨_, (Nat.add_sub_cancel' hge).symm⟩
    rcases Nat.lt_or_ge n d with hdummy | hlast
    · rw [padAt_inside (Nat.sub_le _ _) hdummy] at hj
      cases hj
      exact ⟨Nat.zero_le _, Nat.zero_le _⟩
    · obtain ⟨m, rfl⟩ : ∃ m, n = d + m := ⟨_, (Nat.add_sub_cancel' hlast).symm⟩
      rw [← Nat.add_assoc, padAt_after (Nat.sub_le _ _)] at hj
      have := hbefore _ gate hj
      show gate.leftIndex ≤ cb.numberOfInputs + _ ∧ gate.rightIndex ≤ cb.numberOfInputs + _
      omega

omit [Field F] in
theorem rowAt_mem {f : Gate → Nat → List (F × Nat)} {circuit : Circuit} {r : Nat} {e : F × Nat}
    (he : e ∈ rowAt f circuit r) : ∃ gate j, r = 1 + circuit.numberOfInputs + j ∧
      circuit.gates[j]? = some gate ∧ e ∈ f gate r := by
  unfold rowAt at he
  split at he
  · rename_i hr
    cases hgate : circuit.gates[r - (1 + circuit.numberOfInputs)]? with
    | none =>
      rw [hgate] at he
      cases he
    | some gate =>
      rw [hgate] at he
      exact ⟨gate, _, (Nat.add_sub_cancel' hr).symm, hgate, he⟩
  · cases he

theorem Circuit.Topological.lower {circuit : Circuit} (h : circuit.Topological) {r : Nat}
    {e : F × Nat} (he : e ∈ rowAt rowA circuit r ∨ e ∈ rowAt rowB circuit r) :
    circuit.numberOfInputs + 1 ≤ r ∧ e.2 < r := by
  rcases he with he | he
  · obtain ⟨gate, j, rfl, hgate, hmem⟩ := rowAt_mem he
    have hlt := h j gate hgate
    unfold rowA at hmem
    split at hmem
    · rw [List.mem_singleton.mp hmem]
      exact ⟨by omega, by omega⟩
    · rw [List.mem_singleton.mp hmem]
      exact ⟨by omega, by omega⟩
  · obtain ⟨gate, j, rfl, hgate, hmem⟩ := rowAt_mem he
    have hlt := h j gate hgate
    unfold rowB at hmem
    split at hmem
    · rcases List.mem_cons.mp hmem with rfl | hmem
      · exact ⟨by omega, by omega⟩
      · rw [List.mem_singleton.mp hmem]
        exact ⟨by omega, by omega⟩
    · rw [List.mem_singleton.mp hmem]
      exact ⟨by omega, by omega⟩

theorem rowAt_rowC (circuit : Circuit) {r : Nat}
    (hr : r < circuit.gates.length + circuit.numberOfInputs + 1) :
    rowAt (F := F) rowC circuit r = if circuit.numberOfInputs + 1 ≤ r then [(1, r)] else [] := by
  unfold rowAt
  rw [Nat.add_comm 1]
  split
  · rename_i hle
    have hlt : r - (circuit.numberOfInputs + 1) < circuit.gates.length := by omega
    rw [List.getElem?_eq_getElem hlt]
    rfl
  · rfl

/-! ### One solution for every choice of inputs -/

theorem innerProduct_congr {row : List (F × Nat)} {z z' : List F}
    (h : ∀ e ∈ row, z[e.2]? = z'[e.2]?) : innerProduct row z = innerProduct row z' := by
  unfold innerProduct
  generalize (0 : F) = acc
  induction row generalizing acc with
  | nil => rfl
  | cons e row ih =>
    rw [List.forall_mem_cons] at h
    rw [List.foldlM_cons, List.foldlM_cons, h.1]
    exact congrArg _ (funext fun acc' => ih h.2 acc')

/-- `(A z)_i (B z)_i = (C z)_i` in all rows. -/
def Solves (circuit : Circuit) (z : List F) : Prop :=
  ∀ i, i < (ac2tft (F := F) circuit).1.numberOfConstraints →
    ∃ a b c, ((ac2tft circuit).2.1[i]?.bind fun row => innerProduct row z) = some a ∧
      ((ac2tft circuit).2.2.1[i]?.bind fun row => innerProduct row z) = some b ∧
      ((ac2tft circuit).2.2.2[i]?.bind fun row => innerProduct row z) = some c ∧ a * b = c

/-- The entry of a solution in the row of a gate is determined by the entries before it. -/
theorem Solves.step {circuit : Circuit} (htop : circuit.Topological) {z z' : List F}
    (hz : Solves circuit z) (hz' : Solves circuit z') {i : Nat}
    (hi : i < circuit.gates.length + circuit.numberOfInputs + 1)
    (hrow : circuit.numberOfInputs + 1 ≤ i) (hbefore : ∀ j < i, z[j]? = z'[j]?) :
    z[i]? = z'[i]? := by
  obtain ⟨hA, hB, hC⟩ := ac2tft_rows (F := F) circuit hi
  obtain ⟨a, b, c, ha, hb, hc, habc⟩ := hz i hi
  obtain ⟨a', b', c', ha', hb', hc', habc'⟩ := hz' i hi
  rw [hA, Option.bind_some] at ha ha'
  rw [hB, Option.bind_some] at hb hb'
  rw [hC, Option.bind_some, rowAt_rowC circuit hi, if_pos hrow] at hc hc'
  have haeq : a = a' := by
    rw [innerProduct_congr fun e he => hbefore e.2 (htop.lower (Or.inl he)).2, ha'] at ha
    exact (Option.some.inj ha).symm
  have hbeq : b = b' := by
    rw [innerProduct_congr fun e he => hbefore e.2 (htop.lower (Or.inr he)).2, hb'] at hb
    exact (Option.some.inj hb).symm
  have hlast : ∀ {y : List F} {v : F}, innerProduct [(1, i)] y = some v → y[i]? = some v := by
    intro y v h
    simp only [innerProduct, List.foldlM_cons, List.foldlM_nil, one_mul, zero_add,
      Option.bind_eq_bind] at h
    cases hy : y[i]? with
    | none => rw [hy] at h; cases h
    | some w => rw [hy] at h; exact h
  rw [hlast hc, hlast hc', ← habc, ← habc', haeq, hbeq]

theorem Solves.unique {circuit : Circuit} (htop : circuit.Topological) {z z' : List F}
    (hz : Solves circuit z) (hz' : Solves circuit z')
    (hlen : z.length = circuit.gates.length + circuit.numberOfInputs + 1)
    (hlen' : z'.length = circuit.gates.length + circuit.numberOfInputs + 1)
    (htake : z.take (circuit.numberOfInputs + 1) = z'.take (circuit.numberOfInputs + 1)) :
    z = z' := by
  apply List.ext_getElem?
  intro i
  induction i using Nat.strong_induction_on with
  | h i ih =>
    rcases Nat.lt_or_ge i (circuit.numberOfInputs + 1) with hin | hrow
    · rw [← List.getElem?_take_of_lt hin, htake, List.getElem?_take_of_lt hin]
    · rcases Nat.lt_or_ge i (circuit.gates.length + circuit.numberOfInputs + 1) with hi | hi
      · exact hz.step htop hz' hi hrow ih
      · rw [List.getElem?_eq_none (hlen ▸ hi), List.getElem?_eq_none (hlen' ▸ hi)]

/-- `t`-functional: the first `t` entries determine the solution, which ends with the outputs. -/
structure FunctionalTriple (calls : List (Call F)) (index : R1CSfIndex) (A B C : Matrix F) :
    Prop where
  rows : A.length = index.numberOfConstraints ∧ B.length = index.numberOfConstraints ∧
    C.length = index.numberOfConstraints
  lowerA : ∀ i row, A[i]? = some row → ∀ e ∈ row, index.numberOfInputRows ≤ i ∧ e.2 < i
  lowerB : ∀ i row, B[i]? = some row → ∀ e ∈ row, index.numberOfInputRows ≤ i ∧ e.2 < i
  diagonal : ∀ i row, C[i]? = some row →
    row = if index.numberOfInputRows ≤ i then [(1, i)] else []
  entries : index.numberOfNonZeroEntries = max (entryCount A) (max (entryCount B) (entryCount C))
  functional : ∀ xs : List F, xs.length + 1 = index.numberOfInputRows →
    ∃! z : List F, z.length = index.numberOfConstraints ∧
      z.take index.numberOfInputRows = 1 :: xs ∧
      ∀ i < index.numberOfConstraints, ∃ a b c,
        (A[i]?.bind fun row => innerProduct row z) = some a ∧
        (B[i]?.bind fun row => innerProduct row z) = some b ∧
        (C[i]?.bind fun row => innerProduct row z) = some c ∧ a * b = c
  outputs : ∀ (xs z : List F), xs.length + 1 = index.numberOfInputRows →
    z.length = index.numberOfConstraints → z.take index.numberOfInputRows = 1 :: xs →
      (∀ i < index.numberOfConstraints, ∃ a b c,
        (A[i]?.bind fun row => innerProduct row z) = some a ∧
        (B[i]?.bind fun row => innerProduct row z) = some b ∧
        (C[i]?.bind fun row => innerProduct row z) = some c ∧ a * b = c) →
      evalOutputs calls xs = some (z.drop (index.numberOfConstraints - index.numberOfOutputs))

theorem synthesize_inv {calls : List (Call F)} {circuit : Circuit} {cb' : ConstraintBuilder F}
    {vars : List (Variable F)} (h : Circuit.synthesize calls = some (circuit, cb', vars)) :
    ∃ cb, runCalls calls (ConstraintBuilder.new, []) = some (cb, vars) ∧
      cb.finalize = some cb' ∧ circuit = Circuit.fromConstraintBuilder cb' := by
  simp only [Circuit.synthesize, Option.bind_eq_bind, Option.bind_eq_some_iff, Prod.exists] at h
  obtain ⟨cb, vars', hrun, cb'', hfinal, h⟩ := h
  cases h
  exact ⟨cb, hrun, hfinal, rfl⟩

theorem SameShape.finalize {cb db cb' : ConstraintBuilder F} {vars ws : List (Variable F)}
    (h : SameShape (cb, vars) (db, ws)) (hfinal : cb.finalize = some cb') :
    ∃ db', db.finalize = some db' ∧
      Circuit.fromConstraintBuilder db' = Circuit.fromConstraintBuilder cb' := by
  have hgates : db.gates = cb.gates := h.gates
  have hinputs : db.numberOfInputs = cb.numberOfInputs := h.inputs
  have houtputs : db.numberOfOutputs = cb.numberOfOutputs := h.outputs
  have hrows : db.assignment.length = cb.assignment.length := h.rows
  obtain ⟨N, hN, hle, hsplits, rfl⟩ := finalize_eq_some_iff.mp hfinal
  have hsplits' : Splits db := by
    constructor
    · rw [hgates, houtputs]
      exact hsplits.gates
    · rw [hgates, hinputs, houtputs, hrows]
      exact hsplits.assignment
  rw [← hgates, ← hinputs] at hN hle
  refine ⟨_, finalize_eq_some_iff.mpr ⟨N, hN, hle, hsplits', rfl⟩, ?_⟩
  simp only [Circuit.fromConstraintBuilder, hgates, hinputs, houtputs]

omit [Field F] in
theorem SameShape.types {st st' : ConstraintBuilder F × List (Variable F)} (h : SameShape st st') :
    st'.2.map (fun v => v.variableType == .Output) =
      st.2.map fun v => v.variableType == .Output := by
  have hvars := h.vars
  generalize st.2 = vars at hvars
  generalize st'.2 = ws at hvars
  induction hvars with
  | nil => rfl
  | cons hhead _ ih => rw [List.map_cons, List.map_cons, ih, hhead.2]

section Synthesized

variable {calls : List (Call F)} {circuit : Circuit} {cb' : ConstraintBuilder F}
  {vars : List (Variable F)}

/-- On any inputs the synthesized system has a solution, which ends with the outputs. -/
theorem solution_exists (hord : Ordered calls)
    (hsyn : Circuit.synthesize calls = some (circuit, cb', vars)) {xs : List F}
    (hxs : xs.length = circuit.numberOfInputs) :
    ∃ z, z.length = circuit.gates.length + circuit.numberOfInputs + 1 ∧
      z.take (circuit.numberOfInputs + 1) = 1 :: xs ∧ Solves circuit z ∧
      evalOutputs calls xs = some (z.drop
        (circuit.gates.length + circuit.numberOfInputs + 1 - circuit.numberOfOutputs)) := by
  obtain ⟨cb, hrun, hfinal, rfl⟩ := synthesize_inv hsyn
  have hcount : cb'.numberOfInputs = inputCount calls := by
    obtain ⟨_, _, _, _, rfl⟩ := finalize_eq_some_iff.mp hfinal
    exact (runCalls_numberOfInputs hrun).trans (Nat.zero_add _)
  obtain ⟨db, ws, hrun', hshape, heval⟩ :=
    runCalls_setInputs (SameShape.refl _) (hxs.trans hcount) hrun
  obtain ⟨db', hfinal', hcircuit⟩ := hshape.finalize hfinal
  obtain ⟨hprepared, hlen⟩ := prepared_of_ordered (hord.setInputs xs) hrun'
  have hin := hprepared.built.inputs
  obtain ⟨N, hN, _, _, hdb'⟩ := finalize_eq_some_iff.mp hfinal'
  have hsize : ws.length + 1 ≤ 2 ^ 31 := by
    have := nextPowerOf2_le hN
    omega
  obtain ⟨db'', hfinal'', hsat⟩ := hprepared.finalize_satisfied hsize
  rw [hfinal'] at hfinal''
  cases hfinal''
  rw [hcircuit] at hsat
  obtain ⟨inputs, rest, rfl, hinputs, hrest⟩ := hord.split
  obtain ⟨ys, hys⟩ := evalCalls_inputs hinputs hrest (hxs.trans hcount) heval
  rw [List.map_nil, List.nil_append] at hys
  have hnumber : db.numberOfInputs = cb'.numberOfInputs := by
    have := congrArg Circuit.numberOfInputs hcircuit
    rw [hdb'] at this
    exact this
  refine ⟨db'.assignment, hsat.length, ?_, hsat.rows, ?_⟩
  · have hle := hprepared.outputs_le
    rw [hdb']
    show (padAt db.assignment _ _ _).take (cb'.numberOfInputs + 1) = _
    apply List.ext_getElem?
    intro i
    rcases Nat.lt_or_ge i (cb'.numberOfInputs + 1) with hi | hi
    · have hbound : db.gates.length + db.numberOfInputs + 1 - db.numberOfOutputs ≤
          db.assignment.length := by
        rw [hprepared.built.assignment, List.length_cons, List.length_map]
        omega
      rw [List.getElem?_take_of_lt hi, padAt_before hbound (by omega), hprepared.built.assignment,
        ← hys, ← List.cons_append]
      apply List.getElem?_append_left
      rw [List.length_cons, hxs]
      exact hi
    · rw [List.getElem?_take_eq_none hi]
      rw [List.getElem?_eq_none]
      rw [List.length_cons, hxs]
      exact hi
  · have hmarks : (ws.map fun v => v.variableType == .Output) =
        (inputs ++ rest).map Call.isOutput := by
      rw [hshape.types, runCalls_isOutput hrun]
      rfl
    have houts := hsat.outputs
    rw [hsat.length] at houts
    rw [evalOutputs, show evalCalls (inputs ++ rest) xs [] = _ from heval, Option.map_some]
    exact congrArg some ((filter_of_map_eq Variable.value hmarks).symm.trans houts.symm)

/-- Ordered calls compile to a functional triple. -/
theorem ac2tft_functional (hord : Ordered calls)
    (hsyn : Circuit.synthesize calls = some (circuit, cb', vars)) :
    FunctionalTriple calls (ac2tft (F := F) circuit).1 (ac2tft circuit).2.1
      (ac2tft circuit).2.2.1 (ac2tft circuit).2.2.2 := by
  obtain ⟨st, hcounted, heq⟩ := ac2tft_counted (F := F) circuit
  have htop : circuit.Topological := by
    obtain ⟨cb, hrun, hfinal, rfl⟩ := synthesize_inv hsyn
    obtain ⟨N, _, _, _, rfl⟩ := finalize_eq_some_iff.mp hfinal
    exact (prepared_of_ordered hord hrun).1.topological _
  have hlength : (ac2tft (F := F) circuit).2.1.length =
        circuit.gates.length + circuit.numberOfInputs + 1 ∧
      (ac2tft (F := F) circuit).2.2.1.length =
        circuit.gates.length + circuit.numberOfInputs + 1 ∧
      (ac2tft (F := F) circuit).2.2.2.length =
        circuit.gates.length + circuit.numberOfInputs + 1 := by
    rw [heq]
    exact ⟨hcounted.lengthA, hcounted.lengthB, hcounted.lengthC⟩
  have hunique : ∀ (xs z z' : List F), z.length = circuit.gates.length + circuit.numberOfInputs + 1 →
      z.take (circuit.numberOfInputs + 1) = 1 :: xs → Solves circuit z →
      z'.length = circuit.gates.length + circuit.numberOfInputs + 1 →
      z'.take (circuit.numberOfInputs + 1) = 1 :: xs → Solves circuit z' → z' = z :=
    fun xs z z' hlen htake hz hlen' htake' hz' =>
      hz'.unique htop hz hlen' hlen (htake'.trans htake.symm)
  constructor
  · exact hlength
  · intro i row hrow e he
    have hi := lt_of_lt_of_eq (List.getElem?_eq_some_iff.mp hrow).1 hlength.1
    rw [(ac2tft_rows (F := F) circuit hi).1] at hrow
    cases hrow
    exact htop.lower (Or.inl he)
  · intro i row hrow e he
    have hi := lt_of_lt_of_eq (List.getElem?_eq_some_iff.mp hrow).1 hlength.2.1
    rw [(ac2tft_rows (F := F) circuit hi).2.1] at hrow
    cases hrow
    exact htop.lower (Or.inr he)
  · intro i row hrow
    have hi := lt_of_lt_of_eq (List.getElem?_eq_some_iff.mp hrow).1 hlength.2.2
    rw [(ac2tft_rows (F := F) circuit hi).2.2] at hrow
    cases hrow
    exact rowAt_rowC circuit hi
  · rw [heq, hcounted.entriesA, hcounted.entriesB, hcounted.entriesC]
  · intro xs hxs
    obtain ⟨z, hlen, htake, hz, _⟩ := solution_exists hord hsyn (Nat.succ.inj hxs)
    exact ⟨z, ⟨hlen, htake, hz⟩, fun z' hz' => hunique xs z z' hlen htake hz hz'.1 hz'.2.1 hz'.2.2⟩
  · intro xs z hxs hlen htake hz
    obtain ⟨z', hlen', htake', hz', hout⟩ := solution_exists hord hsyn (Nat.succ.inj hxs)
    rw [hunique xs z' z hlen' htake' hz' hlen htake hz]
    exact hout

end Synthesized

/-- `x * y + x`, with three dummy gates between the two gates. -/
theorem orderedCalls_functional : ∃ circuit cb' vars,
    Circuit.synthesize orderedCalls = some (circuit, cb', vars) ∧
      FunctionalTriple orderedCalls (ac2tft (F := ZMod 3) circuit).1 (ac2tft circuit).2.1
        (ac2tft circuit).2.2.1 (ac2tft circuit).2.2.2 :=
  ⟨_, _, _, rfl, ac2tft_functional orderedCalls_ordered rfl⟩

example : evalOutputs orderedCalls [2, 2] = some [0] := by decide

end Lootbox.AcCompiler
