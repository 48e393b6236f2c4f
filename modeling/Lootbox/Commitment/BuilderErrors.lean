import Lootbox.Base.StepSystem
import Lootbox.Commitment.CircuitCompiler

/-!
# `ac_compiler`: calls of the builder that fail

A failing call ends the circuit of a caller that unwraps it, but the builder is there to be
used again. `enforce_constraint` pushes its gate before it registers the generated label.
-/

namespace Lootbox.AcCompiler

open StepSystem

variable {F : Type} [Field F]

/-- A call on any builder; operands may come from another one. -/
inductive BuilderCall (F : Type) where
  | newInputVariable (label : String) (value : F)
  | enforceConstraint (lhs rhs : Variable F) (constraint_type : GateType)
      (variable_type : VariableType)
  | finalize
  deriving Repr

namespace BuilderCall

/-- The result and the builder after the call; `none` is a panic. -/
def perform (cb : ConstraintBuilder F) :
    BuilderCall F → Option (Except Error Unit × ConstraintBuilder F)
  | .newInputVariable label value =>
    let (result, cb) := cb.newInputVariable label value
    some (result.map fun _ => (), cb)
  | .enforceConstraint lhs rhs constraint_type variable_type =>
    let (result, cb) := cb.enforceConstraint lhs rhs constraint_type variable_type
    some (result.map fun _ => (), cb)
  | .finalize => cb.finalize.map fun cb => (.ok (), cb)

/-- The caller goes on, whatever the result. -/
def step (cb : ConstraintBuilder F) (call : BuilderCall F) : Option (ConstraintBuilder F) :=
  (call.perform cb).map Prod.snd

end BuilderCall

namespace ConstraintBuilder

def rows (cb : ConstraintBuilder F) : Nat := cb.gates.length + cb.numberOfInputs + 1

def addVar (cb : ConstraintBuilder F) (label : String) (value : F)
    (variable_type : VariableType) : ConstraintBuilder F :=
  { cb with
    labelToVarIndex := (label, cb.currIndex) :: cb.labelToVarIndex
    currIndex := cb.currIndex + 1
    numberOfInputs := cb.numberOfInputs + if variable_type = .Input then 1 else 0
    numberOfOutputs := cb.numberOfOutputs + if variable_type = .Output then 1 else 0
    assignment := cb.assignment ++ [value] }

def addGate (cb : ConstraintBuilder F) (gate : Gate) : ConstraintBuilder F :=
  { cb with gates := cb.gates ++ [gate] }

def Registered (cb : ConstraintBuilder F) (label : String) : Prop :=
  (cb.labelToVarIndex.lookup label).isSome = true

/-- The builder can be finalized, and every row has its value. -/
def Sound (cb : ConstraintBuilder F) : Prop :=
  cb.assignment.length = cb.rows ∧ ∃ cb', cb.finalize = some cb'

end ConstraintBuilder

open ConstraintBuilder

/-- An error leaves everything as it was. -/
def Atomic (cb : ConstraintBuilder F) (call : BuilderCall F) : Prop :=
  ∀ e cb', call.perform cb = some (.error e, cb') → cb' = cb

/-- What is wanted of one call: it is atomic, and the builder is sound around it. -/
def Behaves (cb : ConstraintBuilder F) (call : BuilderCall F) : Prop :=
  Sound cb ∧ Atomic cb call ∧ ∀ cb', call.step cb = some cb' → Sound cb'

/-- The generated label is free where it is used, gates do not make inputs, and there are no
more than `2 ^ 31` rows. -/
def Clear (cb : ConstraintBuilder F) : BuilderCall F → Prop
  | .newInputVariable label _ => ¬ cb.Registered label → cb.rows < 2 ^ 31
  | .enforceConstraint lhs rhs _ variable_type =>
    cb.Registered lhs.label → cb.Registered rhs.label →
      ¬ cb.Registered ("w_" ++ toString cb.currIndex) ∧ variable_type ≠ .Input ∧
        cb.rows < 2 ^ 31
  | .finalize => True

structure Consistent (cb : ConstraintBuilder F) : Prop where
  assignment : cb.assignment.length = cb.rows
  outputs : cb.numberOfOutputs ≤ cb.gates.length
  rows : cb.rows ≤ 2 ^ 31

/-! ### Finalizing -/

section Finalize

variable {cb cb' : ConstraintBuilder F}

theorem Consistent.sound (h : Consistent cb) : Sound cb := by
  refine ⟨h.assignment, ?_⟩
  obtain ⟨k, hk, hle, _⟩ := nextPowerOf2_eq (Nat.succ_ne_zero _) h.rows
  have hassign := h.assignment
  have hsplits : Splits cb := by
    refine ⟨h.outputs, ?_⟩
    unfold ConstraintBuilder.rows at hassign
    omega
  exact ⟨_, finalize_eq_some_iff.mpr ⟨_, hk, hle, hsplits, rfl⟩⟩

theorem rows_le_of_sound (h : Sound cb) : cb.rows ≤ 2 ^ 31 := by
  obtain ⟨_, cb', hfinal⟩ := h
  obtain ⟨N, hN, _⟩ := finalize_eq_some_iff.mp hfinal
  exact nextPowerOf2_le hN

theorem Consistent.finalize (h : Consistent cb) (hfinal : cb.finalize = some cb') :
    Consistent cb' := by
  have hassign := h.assignment
  have hout := h.outputs
  obtain ⟨N, hN, hle, _, rfl⟩ := finalize_eq_some_iff.mp hfinal
  have hbound := (nextPowerOf2_bounds hN).2
  unfold ConstraintBuilder.rows at hassign
  constructor
  · simp only [ConstraintBuilder.rows, length_padAt]
    omega
  · simp only [length_padAt]
    omega
  · simp only [ConstraintBuilder.rows, length_padAt]
    omega

end Finalize

/-! ### Registering -/

section Register

variable {cb : ConstraintBuilder F} {label : String} {value : F} {variable_type : VariableType}

omit [Field F] in
theorem registerNewVar_free (value : F) (variable_type : VariableType)
    (h : ¬ cb.Registered label) :
    cb.registerNewVar label value variable_type =
      (.ok ⟨label, variable_type, value⟩, cb.addVar label value variable_type) :=
  if_neg h

omit [Field F] in
theorem registerNewVar_taken (value : F) (variable_type : VariableType)
    (h : cb.Registered label) :
    ∃ e, cb.registerNewVar label value variable_type = (.error e, cb) :=
  ⟨_, if_pos h⟩

omit [Field F] in
theorem Consistent.addInput (h : Consistent cb) (hrows : cb.rows < 2 ^ 31) :
    Consistent (cb.addVar label value .Input) := by
  have hassign := h.assignment
  unfold ConstraintBuilder.rows at hassign hrows
  refine ⟨?_, h.outputs, ?_⟩
  · simp only [addVar, ConstraintBuilder.rows, List.length_append, List.length_singleton, if_true]
    omega
  · simp only [addVar, ConstraintBuilder.rows, if_true]
    omega

omit [Field F] in
theorem Consistent.addGateVar (h : Consistent cb) {gate : Gate} (htype : variable_type ≠ .Input)
    (hrows : cb.rows < 2 ^ 31) :
    Consistent ((cb.addGate gate).addVar label value variable_type) := by
  have hassign := h.assignment
  have houtputs := h.outputs
  unfold ConstraintBuilder.rows at hassign hrows
  constructor
  · simp only [addVar, addGate, ConstraintBuilder.rows, List.length_append, List.length_singleton,
      if_neg htype]
    omega
  · simp only [addVar, addGate, List.length_append, List.length_singleton]
    split <;> omega
  · simp only [addVar, addGate, ConstraintBuilder.rows, List.length_append, List.length_singleton,
      if_neg htype]
    omega

theorem not_sound_of_rows {cb' : ConstraintBuilder F} (h : Consistent cb)
    (hassign : cb'.assignment.length = cb.assignment.length + 1)
    (hrows : cb'.rows ≠ cb.rows + 1 ∨ 2 ^ 31 < cb'.rows) : ¬ Sound cb' := by
  intro hsound
  have hle := rows_le_of_sound hsound
  have heq := hsound.1
  have := h.assignment
  omega

end Register

/-! ### Calls -/

inductive Outcome (cb : ConstraintBuilder F) (call : BuilderCall F) : Prop
  | refused (clear : Clear cb call) (e : Error) (h : call.perform cb = some (.error e, cb))
  | done (clear : Clear cb call) (cb' : ConstraintBuilder F)
      (h : call.perform cb = some (.ok (), cb')) (next : Consistent cb')
  | halfDone (blocked : ¬ Clear cb call) (e : Error) (cb' : ConstraintBuilder F)
      (h : call.perform cb = some (.error e, cb')) (changed : cb' ≠ cb)
  | broken (blocked : ¬ Clear cb call) (cb' : ConstraintBuilder F)
      (h : call.perform cb = some (.ok (), cb')) (unsound : ¬ Sound cb')

section Calls

variable {cb : ConstraintBuilder F}

theorem newInputVariable_outcome (h : Consistent cb) (label : String) (value : F) :
    Outcome cb (.newInputVariable label value) := by
  by_cases hreg : cb.Registered label
  · obtain ⟨e, he⟩ := registerNewVar_taken value .Input hreg
    refine Outcome.refused ?_ e ?_
    · exact fun hfree => absurd hreg hfree
    · simp only [BuilderCall.perform, ConstraintBuilder.newInputVariable, he]
      rfl
  · have hperform : (BuilderCall.newInputVariable label value).perform cb =
        some (.ok (), cb.addVar label value .Input) := by
      simp only [BuilderCall.perform, ConstraintBuilder.newInputVariable,
        registerNewVar_free value .Input hreg]
      rfl
    by_cases hrows : cb.rows < 2 ^ 31
    · refine Outcome.done ?_ _ hperform ?_
      · exact fun _ => hrows
      · exact h.addInput hrows
    · refine Outcome.broken ?_ _ hperform ?_
      · exact fun hclear => hrows (hclear hreg)
      · apply not_sound_of_rows h (by simp [addVar])
        right
        simp only [addVar, ConstraintBuilder.rows, if_true] at hrows ⊢
        omega

theorem enforceConstraint_refused {lhs rhs : Variable F} (constraint_type : GateType)
    (variable_type : VariableType)
    (h : ¬ (cb.Registered lhs.label ∧ cb.Registered rhs.label)) :
    ∃ e, cb.enforceConstraint lhs rhs constraint_type variable_type = (.error e, cb) := by
  unfold ConstraintBuilder.enforceConstraint
  unfold ConstraintBuilder.Registered at h
  cases hl : cb.labelToVarIndex.lookup lhs.label with
  | none => exact ⟨_, rfl⟩
  | some lhs_index =>
    cases hr : cb.labelToVarIndex.lookup rhs.label with
    | none => exact ⟨_, rfl⟩
    | some rhs_index => exact absurd ⟨by rw [hl]; rfl, by rw [hr]; rfl⟩ h

theorem enforceConstraint_registered {lhs rhs : Variable F} (constraint_type : GateType)
    (variable_type : VariableType) (hl : cb.Registered lhs.label) (hr : cb.Registered rhs.label) :
    ∃ gate, cb.enforceConstraint lhs rhs constraint_type variable_type =
      (cb.addGate gate).registerNewVar ("w_" ++ toString cb.currIndex)
        (newValue constraint_type lhs.value rhs.value) variable_type := by
  obtain ⟨lhs_index, hlhs⟩ := Option.isSome_iff_exists.mp hl
  obtain ⟨rhs_index, hrhs⟩ := Option.isSome_iff_exists.mp hr
  refine ⟨⟨lhs_index, rhs_index, constraint_type⟩, ?_⟩
  simp only [ConstraintBuilder.enforceConstraint, hlhs, hrhs, addGate]

/-- The gate is pushed in any case; with a taken label it stays alone. -/
theorem enforceConstraint_outcome (h : Consistent cb) (lhs rhs : Variable F)
    (constraint_type : GateType) (variable_type : VariableType) :
    Outcome cb (.enforceConstraint lhs rhs constraint_type variable_type) := by
  by_cases hops : cb.Registered lhs.label ∧ cb.Registered rhs.label
  · obtain ⟨gate, hgate⟩ :=
      enforceConstraint_registered constraint_type variable_type hops.1 hops.2
    by_cases htaken : (cb.addGate gate).Registered ("w_" ++ toString cb.currIndex)
    · obtain ⟨e, he⟩ := registerNewVar_taken (newValue constraint_type lhs.value rhs.value)
        variable_type htaken
      refine Outcome.halfDone ?_ e (cb.addGate gate) ?_ ?_
      · exact fun hclear => (hclear hops.1 hops.2).1 htaken
      · simp only [BuilderCall.perform, hgate, he]
        rfl
      · intro heq
        have hlen := congrArg (fun b => b.gates.length) heq
        simp [addGate] at hlen
    · have hperform : (BuilderCall.enforceConstraint lhs rhs constraint_type variable_type).perform
          cb = some (.ok (), (cb.addGate gate).addVar ("w_" ++ toString cb.currIndex)
            (newValue constraint_type lhs.value rhs.value) variable_type) := by
        simp only [BuilderCall.perform, hgate,
          registerNewVar_free (newValue constraint_type lhs.value rhs.value) variable_type htaken]
        rfl
      by_cases hin : variable_type = .Input
      · refine Outcome.broken ?_ _ hperform ?_
        · exact fun hclear => (hclear hops.1 hops.2).2.1 hin
        · apply not_sound_of_rows h (by simp [addVar, addGate])
          left
          simp only [addVar, addGate, ConstraintBuilder.rows, List.length_append,
            List.length_singleton, if_pos hin]
          omega
      · by_cases hrows : cb.rows < 2 ^ 31
        · refine Outcome.done ?_ _ hperform (h.addGateVar hin hrows)
          exact fun _ _ => ⟨htaken, hin, hrows⟩
        · refine Outcome.broken ?_ _ hperform ?_
          · exact fun hclear => hrows (hclear hops.1 hops.2).2.2
          · apply not_sound_of_rows h (by simp [addVar, addGate])
            right
            simp only [addVar, addGate, ConstraintBuilder.rows, List.length_append,
              List.length_singleton, if_neg hin] at hrows ⊢
            omega
  · obtain ⟨e, he⟩ := enforceConstraint_refused constraint_type variable_type hops
    refine Outcome.refused ?_ e ?_
    · exact fun hl hr => absurd ⟨hl, hr⟩ hops
    · simp only [BuilderCall.perform, he]
      rfl

theorem finalize_outcome (h : Consistent cb) : Outcome cb .finalize := by
  obtain ⟨cb', hfinal⟩ := h.sound.2
  refine Outcome.done ?_ cb' ?_ (h.finalize hfinal)
  · exact trivial
  · simp only [BuilderCall.perform, hfinal]
    rfl

theorem Consistent.outcome (h : Consistent cb) (call : BuilderCall F) : Outcome cb call := by
  cases call with
  | newInputVariable label value => exact newInputVariable_outcome h label value
  | enforceConstraint lhs rhs constraint_type variable_type =>
    exact enforceConstraint_outcome h lhs rhs constraint_type variable_type
  | finalize => exact finalize_outcome h

theorem step_of_perform {call : BuilderCall F} {result : Except Error Unit}
    {cb' : ConstraintBuilder F} (h : call.perform cb = some (result, cb')) :
    call.step cb = some cb' := by
  rw [BuilderCall.step, h]
  rfl

theorem behaves_iff_clear (h : Consistent cb) (call : BuilderCall F) :
    Behaves cb call ↔ Clear cb call := by
  cases h.outcome call with
  | refused clear e hp =>
    refine iff_of_true ⟨h.sound, ?_, ?_⟩ clear
    · intro e' cb' hp'
      cases hp.symm.trans hp'
      rfl
    · intro cb' hstep
      cases (step_of_perform hp).symm.trans hstep
      exact h.sound
  | done clear cb' hp next =>
    refine iff_of_true ⟨h.sound, ?_, ?_⟩ clear
    · intro e' cb'' hp'
      cases hp.symm.trans hp'
    · intro cb'' hstep
      cases (step_of_perform hp).symm.trans hstep
      exact next.sound
  | halfDone blocked e cb' hp changed =>
    refine iff_of_false ?_ blocked
    rintro ⟨_, hatomic, _⟩
    exact changed (hatomic e cb' hp)
  | broken blocked cb' hp unsound =>
    refine iff_of_false ?_ blocked
    rintro ⟨_, _, hsound⟩
    exact unsound (hsound cb' (step_of_perform hp))

theorem Consistent.step (h : Consistent cb) {call : BuilderCall F} (hclear : Clear cb call)
    {cb' : ConstraintBuilder F} (hstep : call.step cb = some cb') : Consistent cb' := by
  cases h.outcome call with
  | refused clear e hp =>
    cases (step_of_perform hp).symm.trans hstep
    exact h
  | done clear cb'' hp next =>
    cases (step_of_perform hp).symm.trans hstep
    exact next
  | halfDone blocked => exact absurd hclear blocked
  | broken blocked => exact absurd hclear blocked

end Calls

theorem consistent_new : Consistent (ConstraintBuilder.new : ConstraintBuilder F) where
  assignment := rfl
  outputs := Nat.le_refl _
  rows := by
    change 1 ≤ 2 ^ 31
    norm_num

/-- A run behaves exactly when all of its calls are clear. -/
theorem run_behaves_iff_clear (calls : List (BuilderCall F)) :
    Meets BuilderCall.step Behaves ConstraintBuilder.new calls ↔
      Meets BuilderCall.step Clear ConstraintBuilder.new calls :=
  meets_congr (fun _ call h => behaves_iff_clear h call)
    (fun _ _ _ h hclear hstep => h.step hclear hstep) calls _ consistent_new

/-! An input under the label of the first gate. -/

def takenLabel : List (BuilderCall ℚ) :=
  [.newInputVariable "w_2" 3,
    .enforceConstraint ⟨"w_2", .Input, 3⟩ ⟨"w_2", .Input, 3⟩ .Add .Witness]

/-- The gate stays without its variable, and the builder cannot be finalized any more. -/
theorem takenLabel_leaves_gate : ∃ (e : Error) (cb cb' : ConstraintBuilder ℚ),
    run BuilderCall.step ConstraintBuilder.new (takenLabel.take 1) = some cb ∧
      (BuilderCall.enforceConstraint ⟨"w_2", .Input, 3⟩ ⟨"w_2", .Input, 3⟩ .Add .Witness).perform cb =
        some (.error e, cb') ∧
      cb.gates = [] ∧ cb'.gates = [⟨1, 1, .Add⟩] ∧ cb'.assignment.length ≠ cb'.rows ∧
      cb'.finalize = none ∧
      ¬ Meets BuilderCall.step Behaves ConstraintBuilder.new takenLabel := by
  refine ⟨_, _, _, rfl, rfl, rfl, rfl, by decide, rfl, ?_⟩
  intro h
  obtain ⟨_, hatomic, _⟩ := (h.2 _ rfl).1
  have hgates := congrArg ConstraintBuilder.gates (hatomic _ _ rfl)
  cases hgates

end Lootbox.AcCompiler
