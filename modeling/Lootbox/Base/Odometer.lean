import Mathlib

/-!
# Odometers

A map of a finite type is a *full cycle* when every point reaches every other one. Over a
full cycle, a wheel that turns at some of its points is one again, as soon as the number of
these points is coprime to the size of the wheel. A row of wheels, where each wheel lets the
next one turn unless it comes to a stop, is built from this by induction.
-/

namespace Lootbox.Odometer

open Function

universe u v
variable {α : Type u} {β : Type v}

def FullCycle (f : α → α) : Prop := ∀ x y, ∃ i, f^[i] x = y

namespace FullCycle

theorem of_semiconj {f : α → α} {g : β → β} {h : α → β} (hf : FullCycle f)
    (hh : Surjective h) (hfg : Semiconj h f g) : FullCycle g := by
  intro x y
  obtain ⟨a, rfl⟩ := hh x
  obtain ⟨b, rfl⟩ := hh y
  obtain ⟨i, rfl⟩ := hf a b
  exact ⟨i, ((hfg.iterate_right i).eq a).symm⟩

variable {f : α → α}

theorem mem_periodicPts (hf : FullCycle f) (x : α) : x ∈ periodicPts f := by
  obtain ⟨i, hi⟩ := hf (f x) x
  exact ⟨i + 1, Nat.succ_pos i, hi⟩

variable [Fintype α]

/-- Some point is reached at each of the first `Fintype.card α` steps, and each point at one. -/
theorem minimalPeriod_eq (hf : FullCycle f) (x : α) : minimalPeriod f x = Fintype.card α := by
  apply le_antisymm minimalPeriod_le_card
  have hp := minimalPeriod_pos_of_mem_periodicPts (hf.mem_periodicPts x)
  have hs : Surjective fun i : Fin (minimalPeriod f x) => f^[i] x := by
    intro y
    obtain ⟨i, hi⟩ := hf x y
    refine ⟨⟨i % minimalPeriod f x, Nat.mod_lt i hp⟩, ?_⟩
    simpa only [iterate_mod_minimalPeriod_eq] using hi
  simpa using Fintype.card_le_of_surjective _ hs

theorem iterate_card (hf : FullCycle f) (x : α) : f^[Fintype.card α] x = x := by
  rw [← hf.minimalPeriod_eq x]
  exact isPeriodicPt_minimalPeriod f x

theorem bijOn_iterate (hf : FullCycle f) (x : α) :
    Set.BijOn (f^[·] x) (Set.Iio (Fintype.card α)) Set.univ := by
  have hp := minimalPeriod_pos_of_mem_periodicPts (hf.mem_periodicPts x)
  rw [← hf.minimalPeriod_eq x]
  refine ⟨fun i _ => Set.mem_univ _, iterate_injOn_Iio_minimalPeriod, ?_⟩
  intro y _
  obtain ⟨i, rfl⟩ := hf x y
  exact ⟨i % minimalPeriod f x, Nat.mod_lt i hp, iterate_mod_minimalPeriod_eq⟩

end FullCycle

/-! ### A wheel over a full cycle -/

section Skew

variable (f : α → α) (P : α → Prop) [DecidablePred P] (t : β → β)

/-- The wheel turns when the point that `f` comes to satisfies `P`. -/
def skew (p : α × β) : α × β := (f p.1, if P (f p.1) then t p.2 else p.2)

/-- The turns of the wheel in the first `i` steps from `x` -/
def turns (x : α) (i : ℕ) : ℕ := Nat.count (fun j => P (f^[j + 1] x)) i

theorem skew_iterate (x : α) (b : β) (i : ℕ) :
    (skew f P t)^[i] (x, b) = (f^[i] x, t^[turns f P x i] b) := by
  induction i with
  | zero => simp only [turns, Nat.count_zero, iterate_zero, id_eq]
  | succ i ih =>
    have hc : turns f P x (i + 1) = turns f P x i + if P (f^[i + 1] x) then 1 else 0 :=
      Nat.count_succ _ i
    rw [iterate_succ_apply', ih, hc]
    by_cases hP : P (f^[i + 1] x)
    · have hP' : P (f (f^[i] x)) := by simpa only [iterate_succ_apply'] using hP
      simp [skew, hP', iterate_succ_apply']
    · have hP' : ¬ P (f (f^[i] x)) := by simpa only [iterate_succ_apply'] using hP
      simp [skew, hP', iterate_succ_apply']

variable {f} [Fintype α]

theorem turns_card (hf : FullCycle f) (x : α) :
    turns f P x (Fintype.card α) = (Finset.univ.filter P).card := by
  rw [turns, Nat.count_eq_card_filter_range]
  have hb := hf.bijOn_iterate (f x)
  apply Finset.card_bij (fun j _ => f^[j + 1] x)
  · intro j hj
    exact Finset.mem_filter.mpr ⟨Finset.mem_univ _, (Finset.mem_filter.mp hj).2⟩
  · intro i hi j hj hij
    have hi' := Finset.mem_range.mp (Finset.mem_filter.mp hi).1
    exact hb.injOn hi' (Finset.mem_range.mp (Finset.mem_filter.mp hj).1) hij
  · intro y hy
    obtain ⟨j, hj, rfl⟩ := hb.surjOn (Set.mem_univ y)
    have hP : P (f^[j + 1] x) := (Finset.mem_filter.mp hy).2
    exact ⟨j, Finset.mem_filter.mpr ⟨Finset.mem_range.mpr hj, hP⟩, rfl⟩

variable {P t}

theorem skew_iterate_cycles (hf : FullCycle f) (x : α) (b : β) (k : ℕ) :
    (skew f P t)^[Fintype.card α * k] (x, b) = (x, t^[(Finset.univ.filter P).card * k] b) := by
  induction k with
  | zero => rfl
  | succ k ih =>
    rw [Nat.mul_succ, Nat.add_comm, iterate_add_apply, ih, skew_iterate, hf.iterate_card,
      turns_card P hf, ← iterate_add_apply, Nat.mul_succ, Nat.add_comm]

theorem FullCycle.iterate_mul [Fintype β] (ht : FullCycle t) {m : ℕ}
    (hm : m.Coprime (Fintype.card β)) (b c : β) : ∃ k, t^[m * k] b = c := by
  obtain ⟨r, rfl⟩ := ht b c
  have hc : 0 < Fintype.card β := Fintype.card_pos_iff.mpr ⟨b⟩
  obtain ⟨k, -, hk⟩ := Nat.exists_mul_mod_eq_of_coprime r hm hc.ne'
  refine ⟨k, ?_⟩
  have hp := ht.minimalPeriod_eq b
  rw [← iterate_mod_minimalPeriod_eq, hp, hk, ← hp, iterate_mod_minimalPeriod_eq]

theorem FullCycle.skew [Fintype β] (hf : FullCycle f) (ht : FullCycle t)
    (hP : (Finset.univ.filter P).card.Coprime (Fintype.card β)) : FullCycle (skew f P t) := by
  rintro ⟨x, b⟩ ⟨y, c⟩
  obtain ⟨i, rfl⟩ := hf x y
  obtain ⟨k, rfl⟩ := ht.iterate_mul hP (t^[turns f P x i] b) c
  refine ⟨i + Fintype.card α * k, ?_⟩
  rw [ iterate_add_apply, skew_iterate_cycles hf, skew_iterate, ← iterate_add_apply,
    ← iterate_add_apply, Nat.add_comm]

end Skew

/-! ### Rows of wheels -/

section Row

variable (t : β → β) (stop : β → Bool)

/-- Turns the first wheel, and the next one unless the first comes to a stop. -/
def turn : List β → List β
  | [] => []
  | b :: rest => t b :: if stop (t b) then rest else turn rest

@[simp] theorem turn_length (bs : List β) : (turn t stop bs).length = bs.length := by
  induction bs with
  | nil => rfl
  | cons b rest ih =>
    unfold turn
    split <;> simp [ih]

/-- The last wheel turns exactly when no other one comes to a stop. -/
theorem turn_concat (bs : List β) (b : β) :
    turn t stop (bs ++ [b]) =
      turn t stop bs ++ [if ∀ c ∈ turn t stop bs, stop c = false then t b else b] := by
  induction bs with
  | nil => simp [turn]
  | cons c rest ih =>
    cases hc : stop (t c) with
    | true => simp [turn, hc]
    | false => simp [turn, hc, ih]

def turnVector {n : ℕ} (v : List.Vector β n) : List.Vector β n :=
  ⟨turn t stop v.toList, by simp⟩

theorem turnVector_iterate {n : ℕ} (v : List.Vector β n) (i : ℕ) :
    ((turnVector t stop)^[i] v).toList = (turn t stop)^[i] v.toList := by
  induction i generalizing v with
  | zero => rfl
  | succ i ih => exact ih (turnVector t stop v)

def concat {n : ℕ} (p : List.Vector β n × β) : List.Vector β (n + 1) :=
  ⟨p.1.toList ++ [p.2], by simp⟩

theorem concat_bijective {n : ℕ} : Bijective (concat : List.Vector β n × β → _) := by
  constructor
  · rintro ⟨v, b⟩ ⟨w, c⟩ h
    have hl : v.toList ++ [b] = w.toList ++ [c] := congrArg List.Vector.toList h
    obtain ⟨hv, hb⟩ := List.append_inj' hl rfl
    rw [List.Vector.toList_injective hv, List.singleton_inj.mp hb]
  · rintro ⟨l, hl⟩
    rcases List.eq_nil_or_concat l with rfl | ⟨ini, b, rfl⟩
    · simp at hl
    · refine ⟨(⟨ini, by simpa using hl⟩, b), ?_⟩
      apply List.Vector.toList_injective
      exact List.concat_eq_append.symm

def Free {n : ℕ} (v : List.Vector β n) : Prop := ∀ c ∈ v.toList, stop c = false

instance {n : ℕ} : DecidablePred (Free stop : List.Vector β n → Prop) :=
  fun v => inferInstanceAs (Decidable (∀ c ∈ v.toList, stop c = false))

theorem free_concat {n : ℕ} (v : List.Vector β n) (b : β) :
    Free stop (concat (v, b)) ↔ Free stop v ∧ stop b = false := by
  simp [Free, concat, or_imp, forall_and]

theorem turnVector_concat (n : ℕ) :
    Semiconj concat (skew (turnVector t stop) (Free stop) t)
      (turnVector t stop : List.Vector β (n + 1) → _) := by
  rintro ⟨v, b⟩
  apply List.Vector.toList_injective
  exact (turn_concat t stop v.toList b).symm

variable [Fintype β]

theorem card_free (n : ℕ) :
    (Finset.univ.filter (Free stop : List.Vector β n → Prop)).card =
      (Finset.univ.filter fun b => stop b = false).card ^ n := by
  induction n with
  | zero =>
    have hf : ∀ v : List.Vector β 0, Free stop v := fun v => by simp [Free]
    simp [hf]
  | succ n ih =>
    rw [pow_succ, ← ih, ← Finset.card_product]
    symm
    apply Finset.card_bij (fun p _ => concat p)
    · rintro ⟨v, b⟩ hp
      simpa [free_concat] using hp
    · intro p _ q _ hpq
      exact concat_bijective.1 hpq
    · intro w hw
      obtain ⟨⟨v, b⟩, rfl⟩ := concat_bijective.2 w
      exact ⟨(v, b), by simpa [free_concat] using hw, rfl⟩

variable {t stop}

/-- By induction on the length: the lower wheels go through their own cycle, and in each one
the last wheel turns as often as they all stand free. -/
theorem turnVector_fullCycle (ht : FullCycle t)
    (hs : (Finset.univ.filter fun b => stop b = false).card.Coprime (Fintype.card β)) (n : ℕ) :
    FullCycle (turnVector t stop : List.Vector β n → _) := by
  induction n with
  | zero => exact fun v w => ⟨0, Subsingleton.elim _ _⟩
  | succ n ih =>
    have hc := Nat.Coprime.pow_left n hs
    rw [← card_free] at hc
    exact (ih.skew ht hc).of_semiconj concat_bijective.2 (turnVector_concat t stop n)

theorem turn_bijOn (ht : FullCycle t)
    (hs : (Finset.univ.filter fun b => stop b = false).card.Coprime (Fintype.card β))
    (bs : List β) :
    Set.BijOn (fun i => (turn t stop)^[i] bs) (Set.Iio (Fintype.card β ^ bs.length))
      {l | l.length = bs.length} := by
  have hb := (turnVector_fullCycle ht hs bs.length).bijOn_iterate ⟨bs, rfl⟩
  rw [card_vector] at hb
  have hv : Set.BijOn List.Vector.toList (Set.univ : Set (List.Vector β bs.length))
      {l | l.length = bs.length} := by
    refine ⟨fun v _ => v.toList_length, List.Vector.toList_injective.injOn, ?_⟩
    intro l hl
    exact ⟨⟨l, hl⟩, Set.mem_univ _, rfl⟩
  apply (hv.comp hb).congr
  intro i _
  exact turnVector_iterate t stop ⟨bs, rfl⟩ i

theorem turn_iterate_card (ht : FullCycle t)
    (hs : (Finset.univ.filter fun b => stop b = false).card.Coprime (Fintype.card β))
    (bs : List β) : (turn t stop)^[Fintype.card β ^ bs.length] bs = bs := by
  have hc := (turnVector_fullCycle ht hs bs.length).iterate_card ⟨bs, rfl⟩
  rw [card_vector] at hc
  exact (turnVector_iterate t stop ⟨bs, rfl⟩ _).symm.trans (congrArg List.Vector.toList hc)

end Row

end Lootbox.Odometer
