/- Inversion of programs in the Except monad.
   digest: A computation in Except that succeeded: a bind succeeded at both of
   its parts, a throw never succeeds, and pure and map succeed with the value
   they give.  With these as the simp set a guarded function is opened one
   check at a time, without unfolding the monad. -/

import Mathlib

set_option autoImplicit false
set_option relaxedAutoImplicit false

namespace GravitySdk.Lib.Except

variable {ε α β : Type}

@[simp] theorem bind_eq_ok {x : Except ε α} {f : α → Except ε β} {b : β} :
    (x >>= f) = .ok b ↔ ∃ a, x = .ok a ∧ f a = .ok b := by
  cases x <;> simp [bind, Except.bind]

@[simp] theorem throw_ne_ok {e : ε} {b : α} : (throw e : Except ε α) ≠ .ok b := by
  simp [throw, throwThe, MonadExceptOf.throw]

@[simp] theorem pure_eq_ok {a b : α} : (pure a : Except ε α) = .ok b ↔ a = b := by
  simp [pure, Except.pure]

@[simp] theorem map_eq_ok {x : Except ε α} {f : α → β} {b : β} :
    (f <$> x) = .ok b ↔ ∃ a, x = .ok a ∧ f a = b := by
  cases x <;> simp [Functor.map, Except.map]

end GravitySdk.Lib.Except
