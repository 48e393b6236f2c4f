import Lootbox.Base.FallibleCalls

/-!
# Loops with a bounded counter

A loop that counts in a machine integer fails when the counter leaves its range, so it is an
iteration exactly as long as the number of rounds fits.
-/

namespace Lootbox.CountedLoop

variable {ε α : Type} (overflow : ε) (bound : Nat)

def counter (n : Nat) : Except ε Nat := if n < bound then .ok n else .error overflow

/-- `for (i = 0; i < n; i++) round` -/
def countedLoop (round : α → α) (n : Nat) (x : α) : Except ε α :=
  (List.range n).foldlM (fun x i => do
    let x := round x
    let _ ← counter overflow bound (i + 1)
    return x) x

variable {overflow bound}

theorem counter_of_lt {n : Nat} (h : n < bound) : counter overflow bound n = .ok n := if_pos h

theorem counter_of_le {n : Nat} (h : bound ≤ n) : counter overflow bound n = .error overflow :=
  if_neg (Nat.not_lt.mpr h)

theorem counter_eq_ok_iff {n m : Nat} : counter overflow bound n = .ok m ↔ n < bound ∧ m = n := by
  by_cases h : n < bound
  · rw [counter_of_lt h]
    exact ⟨fun heq => ⟨h, (Except.ok.inj heq).symm⟩, fun heq => congrArg _ heq.2.symm⟩
  · rw [counter_of_le (Nat.not_lt.mp h)]
    exact ⟨nofun, fun heq => absurd heq.1 h⟩

theorem countedLoop_succ (round : α → α) (n : Nat) (x : α) :
    countedLoop overflow bound round (n + 1) x =
      countedLoop overflow bound round n x >>= fun x =>
        counter overflow bound (n + 1) >>= fun _ => .ok (round x) := by
  rw [countedLoop, List.range_succ, List.foldlM_append]
  refine congrArg _ (funext fun x => ?_)
  rw [List.foldlM_cons]
  cases counter overflow bound (n + 1) with
  | error e => rfl
  | ok i => rfl

theorem countedLoop_of_lt (round : α → α) {n : Nat} (x : α) (h : n < bound) :
    countedLoop overflow bound round n x = .ok (round^[n] x) := by
  induction n with
  | zero => rfl
  | succ n ih =>
    rw [countedLoop_succ, ih (Nat.lt_of_succ_lt h), ok_bind, counter_of_lt h, ok_bind,
      Function.iterate_succ_apply']

theorem countedLoop_of_le (round : α → α) {n : Nat} (x : α) (hbound : 0 < bound) (h : bound ≤ n) :
    countedLoop overflow bound round n x = .error overflow := by
  induction n, h using Nat.le_induction with
  | base =>
    obtain ⟨k, rfl⟩ : ∃ k, bound = k + 1 := ⟨bound - 1, by omega⟩
    rw [countedLoop_succ, countedLoop_of_lt round x (Nat.lt_succ_self k), ok_bind,
      counter_of_le le_rfl, error_bind]
  | succ n hle ih => rw [countedLoop_succ, ih, error_bind]

theorem countedLoop_eq (round : α → α) (n : Nat) (x : α) (hbound : 0 < bound) :
    countedLoop overflow bound round n x =
      if n < bound then .ok (round^[n] x) else .error overflow := by
  by_cases h : n < bound
  · rw [if_pos h, countedLoop_of_lt round x h]
  · rw [if_neg h, countedLoop_of_le round x hbound (Nat.not_lt.mp h)]

theorem mapM_eq_ite {β : Type} {f : α → Except ε β} {g : α → β} {good : α → Prop} {xs : List α}
    (hgood : ∀ x ∈ xs, good x → f x = .ok (g x))
    (hbad : ∀ x ∈ xs, ¬ good x → f x = .error overflow) [hdec : Decidable (∀ x ∈ xs, good x)] :
    xs.mapM f = if ∀ x ∈ xs, good x then .ok (xs.map g) else .error overflow := by
  by_cases hall : ∀ x ∈ xs, good x
  · rw [if_pos hall]
    exact mapM_eq_ok_map fun x hx => hgood x hx (hall x hx)
  · rw [if_neg hall]
    cases hrun : xs.mapM f with
    | ok ys =>
      obtain ⟨x, hx, hnot⟩ := not_forall₂.mp hall
      obtain ⟨i, hi, rfl⟩ := List.getElem_of_mem hx
      have hforall := mapM_eq_ok_iff.mp hrun
      have hget := hforall.get hi (hforall.length_eq ▸ hi)
      rw [List.get_eq_getElem, hbad _ hx hnot] at hget
      cases hget
    | error e =>
      obtain ⟨x, hx, hfx⟩ := exists_of_mapM_eq_error hrun
      by_cases hx_good : good x
      · rw [hgood x hx hx_good] at hfx
        cases hfx
      · rw [hbad x hx hx_good] at hfx
        cases hfx
        rfl

end Lootbox.CountedLoop
