import Mathlib

/-!
# Loops with an explicit bound

`whileLoop guard body fuel s` runs `while guard s do s := body s` for at most
`fuel` rounds and answers `none` when the guard still holds after them.
-/

namespace Lootbox.WhileLoop

universe u
variable {σ : Type u} (guard : σ → Bool) (body : σ → σ)

def whileLoop : Nat → σ → Option σ
  | 0, s => if guard s then none else some s
  | fuel + 1, s => if guard s then whileLoop fuel (body s) else some s

variable {guard body}

theorem whileLoop_of_not_guard {s : σ} (h : guard s = false) (fuel : Nat) :
    whileLoop guard body fuel s = some s := by
  cases fuel <;> simp [whileLoop, h]

theorem whileLoop_succ_of_guard {s : σ} (h : guard s = true) (fuel : Nat) :
    whileLoop guard body (fuel + 1) s = whileLoop guard body fuel (body s) := by
  simp [whileLoop, h]

end Lootbox.WhileLoop
