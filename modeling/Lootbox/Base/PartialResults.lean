import Lootbox.Base.FallibleCalls

/-!
# Calls that return what they should, or do not return

A call yields a result with a property, unless one of its parts did not return for a known reason.
-/

namespace Lootbox

/-- The call returns a value with the property `P`, or ends in `e` for the reason `excuse`. -/
def Yields {ε α : Type} (e : ε) (excuse : Prop) (P : α → Prop) (c : Except ε α) : Prop :=
  (∃ a, c = .ok a ∧ P a) ∨ (c = .error e ∧ excuse)

namespace Yields

variable {ε α β : Type} {e : ε} {excuse : Prop} {P Q : α → Prop} {R : β → Prop} {c : Except ε α}

theorem of_ok {a : α} (h : c = .ok a) (ha : P a) : Yields e excuse P c := Or.inl ⟨a, h, ha⟩

theorem pure {a : α} (ha : P a) : Yields e excuse P (.ok a) := of_ok rfl ha

theorem mono (h : Yields e excuse P c) (hPQ : ∀ a, P a → Q a) : Yields e excuse Q c := by
  rcases h with ⟨a, hc, ha⟩ | h
  · exact of_ok hc (hPQ a ha)
  · exact Or.inr h

theorem weaken {excuse' : Prop} (h : Yields e excuse P c) (he : excuse → excuse') :
    Yields e excuse' P c := by
  rcases h with ⟨a, hc, ha⟩ | ⟨hc, hexcuse⟩
  · exact of_ok hc ha
  · exact Or.inr ⟨hc, he hexcuse⟩

theorem bind {f : α → Except ε β} (h : Yields e excuse P c)
    (hf : ∀ a, P a → Yields e excuse R (f a)) : Yields e excuse R (c >>= f) := by
  rcases h with ⟨a, hc, ha⟩ | ⟨hc, hexcuse⟩
  · rw [hc, ok_bind]
    exact hf a ha
  · rw [hc, error_bind]
    exact Or.inr ⟨rfl, hexcuse⟩

theorem of_eq_ok (h : Yields e excuse P c) {a : α} (hc : c = .ok a) : P a := by
  rcases h with ⟨b, hb, hP⟩ | ⟨herror, _⟩
  · cases hb.symm.trans hc
    exact hP
  · cases herror.symm.trans hc

theorem foldlM_range {f : α → Nat → Except ε α} {I : Nat → α → Prop} {n : Nat} {s : α}
    (hs : I 0 s) (step : ∀ i < n, ∀ s, I i s → Yields e excuse (I (i + 1)) (f s i)) :
    Yields e excuse (I n) ((List.range n).foldlM f s) := by
  induction n with
  | zero => exact pure hs
  | succ n ih =>
    rw [List.range_succ, List.foldlM_append]
    apply bind (ih fun i hi => step i (Nat.lt_succ_of_lt hi))
    intro s hI
    rw [List.foldlM_cons]
    exact bind (step n (Nat.lt_succ_self n) s hI) fun s hI => pure hI

end Yields

end Lootbox
