import Mathlib

/-!
# Sequences of fallible calls
-/

namespace Lootbox

def need {ε α : Type} (e : ε) : Option α → Except ε α
  | some a => .ok a
  | none => .error e

@[simp] theorem need_some {ε α : Type} (e : ε) (a : α) : need e (some a) = .ok a := rfl

@[simp] theorem need_none {ε α : Type} (e : ε) : need e (none : Option α) = .error e := rfl

theorem need_eq_ok_iff {ε α : Type} {e : ε} {o : Option α} {a : α} :
    need e o = .ok a ↔ o = some a := by
  cases o <;> simp

/-- A sequence of fallible calls returns exactly when each of them does. -/
theorem bind_eq_ok_iff {ε α β : Type} {x : Except ε α} {f : α → Except ε β} {b : β} :
    (x >>= f) = .ok b ↔ ∃ a, x = .ok a ∧ f a = .ok b := by
  cases x with
  | error e => simp [bind, Except.bind]
  | ok a => simp [bind, Except.bind]

@[simp] theorem ok_bind {ε α β : Type} (a : α) (f : α → Except ε β) :
    ((Except.ok a : Except ε α) >>= f) = f a := rfl

theorem bind_eq_of_ok {ε α β : Type} {x : Except ε α} {f : α → Except ε β} {a : α} {r : Except ε β}
    (hx : x = .ok a) (hf : f a = r) : (x >>= f) = r := by
  rw [hx, ok_bind, hf]

@[simp] theorem error_bind {ε α β : Type} (e : ε) (f : α → Except ε β) :
    ((Except.error e : Except ε α) >>= f) = .error e := rfl

theorem mapError_eq_ok_iff {ε ε' α : Type} {f : ε → ε'} {x : Except ε α} {a : α} :
    x.mapError f = .ok a ↔ x = .ok a := by
  cases x <;> simp [Except.mapError]

theorem bind_congr_of_ok {ε α β : Type} {x : Except ε α} {f g : α → Except ε β}
    (h : ∀ a, x = .ok a → f a = g a) : (x >>= f) = (x >>= g) := by
  cases x with
  | error e => rfl
  | ok a => exact h a rfl

theorem unit_bind_eq_ok_iff {ε β : Type} {x : Except ε Unit} {y : Except ε β} {b : β} :
    (x >>= fun _ => y) = .ok b ↔ x = .ok () ∧ y = .ok b := by
  rw [bind_eq_ok_iff]
  constructor
  · rintro ⟨u, hx, hy⟩
    exact ⟨hx, hy⟩
  · rintro ⟨hx, hy⟩
    exact ⟨(), hx, hy⟩

theorem bind_eq_error_iff {ε α β : Type} {x : Except ε α} {f : α → Except ε β} {e : ε} :
    (x >>= f) = .error e ↔ x = .error e ∨ ∃ a, x = .ok a ∧ f a = .error e := by
  cases x with
  | error e' => simp [bind, Except.bind]
  | ok a => simp [bind, Except.bind]

theorem ite_ok_eq_ok_iff {ε α : Type} {c : Prop} [Decidable c] {a : α} {e : ε} :
    (if c then .ok a else .error e) = (.ok a : Except ε α) ↔ c := by
  by_cases h : c
  · rw [if_pos h]
    exact ⟨fun _ => h, fun _ => rfl⟩
  · rw [if_neg h]
    exact ⟨nofun, fun hc => absurd hc h⟩

theorem ite_throw_eq_ok_iff {ε α β : Type} {c : Prop} [hc : Decidable c] {e : ε}
    {f : α → Except ε β} {x : Except ε β} {b : β} :
    (if c then (throw e >>= f) else x) = .ok b ↔ ¬ c ∧ x = .ok b := by
  by_cases h : c
  · rw [if_pos h]
    exact ⟨nofun, fun hn => absurd h hn.1⟩
  · rw [if_neg h]
    exact ⟨fun hx => ⟨h, hx⟩, fun hx => hx.2⟩

theorem map_eq_error_iff {ε α β : Type} {f : α → β} {x : Except ε α} {e : ε} :
    x.map f = .error e ↔ x = .error e := by
  cases x <;> simp [Except.map]

theorem exists_of_any {ε α : Type} {x : Except ε α} {p : α → Bool}
    (h : x.toOption.any p = true) : ∃ a, x = .ok a ∧ p a = true := by
  cases x with
  | error e => cases h
  | ok a => exact ⟨a, rfl, h⟩

theorem exists_of_mapM_eq_error {ε α β : Type} {f : α → Except ε β} {xs : List α} {e : ε}
    (h : xs.mapM f = .error e) : ∃ x ∈ xs, f x = .error e := by
  induction xs with
  | nil => cases h
  | cons x xs ih =>
    rw [List.mapM_cons, bind_eq_error_iff] at h
    rcases h with h | ⟨y, -, h⟩
    · exact ⟨x, List.mem_cons_self, h⟩
    · rcases bind_eq_error_iff.mp h with h | ⟨ys, -, h⟩
      · obtain ⟨a, ha, hf⟩ := ih h
        exact ⟨a, List.mem_cons_of_mem x ha, hf⟩
      · cases h

theorem mapM_eq_ok_iff {ε α β : Type} {f : α → Except ε β} {xs : List α} {ys : List β} :
    xs.mapM f = .ok ys ↔ List.Forall₂ (fun x y => f x = .ok y) xs ys := by
  induction xs generalizing ys with
  | nil =>
    rw [List.mapM_nil, List.forall₂_nil_left_iff]
    simp only [pure, Except.pure, Except.ok.injEq, eq_comm]
  | cons x xs ih =>
    rw [List.mapM_cons, bind_eq_ok_iff, List.forall₂_cons_left_iff]
    constructor
    · rintro ⟨y, hy, hrest⟩
      obtain ⟨ys', hys', heq⟩ := bind_eq_ok_iff.mp hrest
      cases heq
      exact ⟨y, ys', hy, ih.mp hys', rfl⟩
    · rintro ⟨y, ys', hy, hys', rfl⟩
      exact ⟨y, hy, bind_eq_ok_iff.mpr ⟨ys', ih.mpr hys', rfl⟩⟩

theorem exists_of_mem_mapM {ε α β : Type} {f : α → Except ε β} {xs : List α} {ys : List β}
    (h : xs.mapM f = .ok ys) {y : β} (hy : y ∈ ys) : ∃ x ∈ xs, f x = .ok y := by
  induction mapM_eq_ok_iff.mp h with
  | nil => cases hy
  | cons hx hrest ih =>
    rcases List.mem_cons.mp hy with rfl | hy
    · exact ⟨_, List.mem_cons_self, hx⟩
    · obtain ⟨x, hmem, hx⟩ := ih (mapM_eq_ok_iff.mpr hrest) hy
      exact ⟨x, List.mem_cons_of_mem _ hmem, hx⟩

theorem mapM_eq_ok_map_iff {ε α β : Type} {f : α → Except ε β} {good : α → Prop} {g : α → β}
    {xs : List α} (h : ∀ x ∈ xs, ∀ y, f x = .ok y ↔ good x ∧ y = g x) {ys : List β} :
    xs.mapM f = .ok ys ↔ (∀ x ∈ xs, good x) ∧ ys = xs.map g := by
  rw [mapM_eq_ok_iff]
  induction xs generalizing ys with
  | nil => simp
  | cons x xs ih =>
    rw [List.forall₂_cons_left_iff, List.forall_mem_cons, List.map_cons]
    constructor
    · rintro ⟨y, ys', hy, hrest, rfl⟩
      obtain ⟨hgood, rfl⟩ := (h x List.mem_cons_self y).mp hy
      obtain ⟨hall, rfl⟩ := (ih fun a ha => h a (List.mem_cons_of_mem x ha)).mp hrest
      exact ⟨⟨hgood, hall⟩, rfl⟩
    · rintro ⟨⟨hgood, hall⟩, rfl⟩
      exact ⟨g x, xs.map g, (h x List.mem_cons_self _).mpr ⟨hgood, rfl⟩,
        (ih fun a ha => h a (List.mem_cons_of_mem x ha)).mpr ⟨hall, rfl⟩, rfl⟩

theorem mapM_eq_ok_map {ε α β : Type} {f : α → Except ε β} {g : α → β} {xs : List α}
    (h : ∀ x ∈ xs, f x = .ok (g x)) : xs.mapM f = .ok (xs.map g) := by
  rw [mapM_eq_ok_iff, List.forall₂_map_right_iff]
  exact List.forall₂_same.mpr h

theorem exists_forall₂ {α β : Type} {R : α → β → Prop} {xs : List α} (h : ∀ x ∈ xs, ∃ y, R x y) :
    ∃ ys, List.Forall₂ R xs ys := by
  induction xs with
  | nil => exact ⟨[], .nil⟩
  | cons x xs ih =>
    obtain ⟨y, hy⟩ := h x List.mem_cons_self
    obtain ⟨ys, hys⟩ := ih fun a ha => h a (List.mem_cons_of_mem x ha)
    exact ⟨y :: ys, .cons hy hys⟩

theorem exists_mapM_eq_ok {ε α β : Type} {f : α → Except ε β} {xs : List α}
    (h : ∀ x ∈ xs, ∃ y, f x = .ok y) : ∃ ys, xs.mapM f = .ok ys := by
  obtain ⟨ys, hys⟩ := exists_forall₂ h
  exact ⟨ys, mapM_eq_ok_iff.mpr hys⟩

theorem forM_eq_ok_iff {ε α : Type} {f : α → Except ε Unit} {xs : List α} :
    xs.forM f = .ok () ↔ ∀ x ∈ xs, f x = .ok () := by
  induction xs with
  | nil => simp [pure, Except.pure]
  | cons x xs ih =>
    have hcons : (x :: xs).forM f = f x >>= fun _ => xs.forM f := rfl
    rw [hcons, bind_eq_ok_iff, List.forall_mem_cons, ← ih]
    constructor
    · rintro ⟨u, hx, hrest⟩
      exact ⟨hx, hrest⟩
    · rintro ⟨hx, hrest⟩
      exact ⟨(), hx, hrest⟩

theorem foldlM_eq_ok_foldl {ε α σ : Type} {f : σ → α → Except ε σ} {g : σ → α → σ} {xs : List α}
    (h : ∀ x ∈ xs, ∀ s, f s x = .ok (g s x)) (s : σ) : xs.foldlM f s = .ok (xs.foldl g s) := by
  induction xs generalizing s with
  | nil => rfl
  | cons x xs ih =>
    rw [List.forall_mem_cons] at h
    rw [List.foldlM_cons, h.1, ok_bind, ih h.2, List.foldl_cons]

/-- When each round keeps `P` and adds `g x` to a measure, the whole loop adds their sum. -/
theorem foldlM_eq_ok_add {ε α σ M : Type} [AddCommMonoid M] {f : σ → α → Except ε σ} {P : σ → Prop}
    {m : σ → M} {g : α → M} {xs : List α}
    (step : ∀ x ∈ xs, ∀ s s', P s → f s x = .ok s' → P s' ∧ m s' = m s + g x) {s s' : σ} (hs : P s)
    (h : xs.foldlM f s = .ok s') : P s' ∧ m s' = m s + (xs.map g).sum := by
  induction xs generalizing s with
  | nil =>
    cases h
    exact ⟨hs, (add_zero _).symm⟩
  | cons x xs ih =>
    rw [List.forall_mem_cons] at step
    rw [List.foldlM_cons] at h
    obtain ⟨t, ht, h⟩ := bind_eq_ok_iff.mp h
    obtain ⟨hPt, hμt⟩ := step.1 s t hs ht
    obtain ⟨hPs, hμs⟩ := ih step.2 hPt h
    refine ⟨hPs, ?_⟩
    rw [hμs, hμt, List.map_cons, List.sum_cons, add_assoc]

theorem foldlM_add_eq_ok {ε α M : Type} [AddCommMonoid M] {f : α → Except ε M} {g : α → M} {xs : List α}
    (h : ∀ x ∈ xs, f x = .ok (g x)) (s : M) :
    xs.foldlM (fun s x => f x >>= fun v => .ok (s + v)) s = .ok (s + (xs.map g).sum) := by
  induction xs generalizing s with
  | nil => exact congrArg Except.ok (add_zero s).symm
  | cons x xs ih =>
    rw [List.forall_mem_cons] at h
    rw [List.foldlM_cons, h.1, ok_bind, ok_bind, ih h.2, List.map_cons, List.sum_cons, add_assoc]

theorem exists_foldlM_eq_ok {ε α σ : Type} {f : σ → α → Except ε σ} {P : σ → Prop} {xs : List α}
    (step : ∀ x ∈ xs, ∀ s, P s → ∃ s', f s x = .ok s' ∧ P s') {s : σ} (hs : P s) :
    ∃ s', xs.foldlM f s = .ok s' ∧ P s' := by
  induction xs generalizing s with
  | nil => exact ⟨s, rfl, hs⟩
  | cons x xs ih =>
    rw [List.forall_mem_cons] at step
    obtain ⟨t, ht, hPt⟩ := step.1 s hs
    obtain ⟨s', hs', hPs'⟩ := ih step.2 hPt
    exact ⟨s', by rw [List.foldlM_cons, ht, ok_bind, hs'], hPs'⟩

def repeatM {ε σ : Type} (body : σ → Except ε σ) : Nat → σ → Except ε σ
  | 0, s => .ok s
  | n + 1, s => do
    let s ← body s
    repeatM body n s

theorem repeatM_eq_ok {ε σ : Type} (body : σ → Except ε σ) (states : Nat → σ)
    (step : ∀ i, body (states i) = .ok (states (i + 1))) (n i : Nat) :
    repeatM body n (states i) = .ok (states (i + n)) := by
  induction n generalizing i with
  | zero => rfl
  | succ n ih =>
    refine bind_eq_of_ok (step i) ?_
    rw [ih, Nat.add_right_comm]
    rfl

end Lootbox
