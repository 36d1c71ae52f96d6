/- Checked unsigned arithmetic.
   digest: Addition and subtraction of unsigned machine integers below a
   bound, as a build with overflow checks runs them: an overflow or an
   underflow is a panic, `none`. -/

import Mathlib

set_option autoImplicit false
set_option relaxedAutoImplicit false

namespace GravitySdk.Lib.Checked

/-- `a + b` on integers below `bound`; `none` is the panic of an overflow. -/
def add (bound a b : Nat) : Option Nat :=
  if a + b < bound then some (a + b) else none

/-- `a.saturating_add(b)` on integers below `bound`: the sum, or the largest
value when the sum does not fit. -/
def saturatingAdd (bound a b : Nat) : Nat :=
  if a + b < bound then a + b else bound - 1

/-- `a - b` on unsigned integers; `none` is the panic of an underflow. -/
def sub (a b : Nat) : Option Nat :=
  if b ≤ a then some (a - b) else none

variable {bound a b c : Nat}

@[simp] theorem add_eq_some : add bound a b = some c ↔ a + b < bound ∧ c = a + b := by
  unfold add
  by_cases fits : a + b < bound
  · simp [fits, eq_comm]
  · simp [fits]

@[simp] theorem sub_eq_some : sub a b = some c ↔ b ≤ a ∧ c = a - b := by
  unfold sub
  by_cases fits : b ≤ a
  · simp [fits, eq_comm]
  · simp [fits]

@[simp] theorem add_eq_none : add bound a b = none ↔ bound ≤ a + b := by
  unfold add
  by_cases fits : a + b < bound
  · simp [fits]
  · simp [fits]
    omega

@[simp] theorem sub_eq_none : sub a b = none ↔ a < b := by
  unfold sub
  by_cases fits : b ≤ a
  · simp [fits]
  · simp [fits]
    omega

end GravitySdk.Lib.Checked
