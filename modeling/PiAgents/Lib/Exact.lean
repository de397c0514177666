import Mathlib.Algebra.Ring.Int.Defs
import Mathlib.Data.Int.Order.Basic

/-! Arithmetic of signed 64-bit integers where it does not wrap around. -/

namespace PiAgents.Exact

theorem add (a b : Int64) (above : -2 ^ 63 ≤ a.toInt + b.toInt)
    (below : a.toInt + b.toInt < 2 ^ 63) : (a + b).toInt = a.toInt + b.toInt := by
  rw [Int64.toInt_add]
  exact Int.bmod_eq_of_le (by omega) (by omega)

theorem sub (a b : Int64) (above : -2 ^ 63 ≤ a.toInt - b.toInt)
    (below : a.toInt - b.toInt < 2 ^ 63) : (a - b).toInt = a.toInt - b.toInt := by
  rw [Int64.toInt_sub]
  exact Int.bmod_eq_of_le (by omega) (by omega)

end PiAgents.Exact
