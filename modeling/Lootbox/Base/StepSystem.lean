import Mathlib

/-!
# Runs of a step function

A step function answers `none` when an action is not enabled. A run is a list of
actions. Facts that one step preserves, under a condition on the step, hold after every
run whose steps all meet the condition.
-/

namespace Lootbox.StepSystem

universe u v
variable {State : Type u} {Action : Type v} (step : State → Action → Option State)

def run (s : State) : List Action → Option State
  | [] => some s
  | a :: as => (step s a).bind fun t => run t as

/-- Every step of the run meets the condition `ok`, in the state it starts from. -/
def Meets (ok : State → Action → Prop) (s : State) : List Action → Prop
  | [] => True
  | a :: as => ok s a ∧ ∀ t ∈ step s a, Meets ok t as

instance Meets.decidable (ok : State → Action → Prop) [∀ s a, Decidable (ok s a)] :
    ∀ (as : List Action) (s : State), Decidable (Meets step ok s as)
  | [], _ => inferInstanceAs (Decidable True)
  | a :: as, s =>
    have := Meets.decidable ok as
    inferInstanceAs (Decidable (ok s a ∧ ∀ t ∈ step s a, Meets step ok t as))

variable {step}

theorem run_cons_eq_some_iff {s t : State} {a : Action} {as : List Action} :
    run step s (a :: as) = some t ↔ ∃ m, step s a = some m ∧ run step m as = some t := by
  simp only [run, Option.bind_eq_some_iff]

theorem run_append_eq_some_iff {s t : State} {as bs : List Action} :
    run step s (as ++ bs) = some t ↔ ∃ m, run step s as = some m ∧ run step m bs = some t := by
  induction as generalizing s with
  | nil => simp [run]
  | cons a as ih =>
    rw [List.cons_append, run_cons_eq_some_iff]
    constructor
    · rintro ⟨m, hm, hrest⟩
      obtain ⟨n, hn, hlast⟩ := ih.mp hrest
      exact ⟨n, run_cons_eq_some_iff.mpr ⟨m, hm, hn⟩, hlast⟩
    · rintro ⟨n, hn, hlast⟩
      obtain ⟨m, hm, hrest⟩ := run_cons_eq_some_iff.mp hn
      exact ⟨m, hm, ih.mpr ⟨n, hrest, hlast⟩⟩

variable {ok : State → Action → Prop}

theorem run_invariant {Inv : State → Prop}
    (preserved : ∀ s a t, Inv s → ok s a → step s a = some t → Inv t) :
    ∀ (as : List Action) (s t : State), Inv s → Meets step ok s as → run step s as = some t →
      Inv t := by
  intro as
  induction as with
  | nil =>
    intro s t hs _ hrun
    cases hrun
    exact hs
  | cons a as ih =>
    intro s t hs hmeets hrun
    obtain ⟨m, hm, hrest⟩ := run_cons_eq_some_iff.mp hrun
    exact ih m t (preserved s a m hs hmeets.1 hm) (hmeets.2 m hm) hrest

theorem meets_congr {Inv : State → Prop} {ok' : State → Action → Prop}
    (agree : ∀ s a, Inv s → (ok' s a ↔ ok s a))
    (preserved : ∀ s a t, Inv s → ok s a → step s a = some t → Inv t) :
    ∀ (as : List Action) (s : State), Inv s → (Meets step ok' s as ↔ Meets step ok s as) := by
  intro as
  induction as with
  | nil => exact fun _ _ => Iff.rfl
  | cons a as ih =>
    intro s hs
    unfold Meets
    rw [agree s a hs]
    apply and_congr_right
    intro hok
    exact forall₂_congr fun t ht => ih t (preserved s a t hs hok ht)

theorem Meets.of_forall (h : ∀ s a, ok s a) :
    ∀ (as : List Action) (s : State), Meets step ok s as := by
  intro as
  induction as with
  | nil => exact fun _ => trivial
  | cons a as ih => exact fun s => ⟨h s a, fun t _ => ih t⟩

theorem meets_run_cons {s m t : State} {a : Action} {as : List Action} (hok : ok s a)
    (hstep : step s a = some m) (h : Meets step ok m as ∧ run step m as = some t) :
    Meets step ok s (a :: as) ∧ run step s (a :: as) = some t := by
  refine ⟨⟨hok, ?_⟩, run_cons_eq_some_iff.mpr ⟨m, hstep, h.2⟩⟩
  intro m' hm'
  obtain rfl := Option.some.inj (hstep.symm.trans hm')
  exact h.1

end Lootbox.StepSystem
