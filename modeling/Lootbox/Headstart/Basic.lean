import Mathlib
import Lootbox.Base.FallibleCalls

/-!
# Values and exceptions of the Python package
-/

namespace Lootbox.Headstart

abbrev Bytes := List UInt8

/-- The exceptions the modelled functions raise. `diverges` is no exception: it marks a
call that does not return because a loop guard stays true. -/
inductive PyError
  | valueError (message : String)
  | runtimeError (message : String)
  | indexError
  | typeError
  | attributeError
  | stopIteration
  | zeroDivisionError
  | overflowError
  | assertionError
  | diverges
  deriving DecidableEq, Repr

def bytesLe : Bytes → Bytes → Bool
  | [], _ => true
  | _ :: _, [] => false
  | a :: as, b :: bs => a < b || (a == b && bytesLe as bs)

end Lootbox.Headstart
