import Mathlib.Algebra.Group.Nat.Defs

/-!
# Unsigned 64-bit arithmetic

The operations of `u64`, `usize` and the atomics over them, on natural numbers.
-/

namespace Xhttp

/-- `u64::MAX`. -/
def u64Max : Nat := 2 ^ 64 - 1

/-- `fetch_add`, and `+` where overflow is not checked. -/
def wrappingAdd (a b : Nat) : Nat := (a + b) % 2 ^ 64

theorem wrappingAdd_of_lt {a b : Nat} (h : a + b < 2 ^ 64) : wrappingAdd a b = a + b :=
  Nat.mod_eq_of_lt h

/-- A sum that wraps around is smaller than its parts. -/
theorem wrappingAdd_of_le {a b : Nat} (ha : a < 2 ^ 64) (hb : b < 2 ^ 64) (h : 2 ^ 64 ≤ a + b) :
    wrappingAdd a b = a + b - 2 ^ 64 := by
  unfold wrappingAdd
  omega

/-- `fetch_sub`. -/
def wrappingSub (a b : Nat) : Nat := (a + (2 ^ 64 - b % 2 ^ 64)) % 2 ^ 64

theorem wrappingSub_of_le {a b : Nat} (hb : b ≤ a) (ha : a < 2 ^ 64) : wrappingSub a b = a - b := by
  unfold wrappingSub
  omega

/-- `u64::saturating_add`. -/
def saturatingAdd (a b : Nat) : Nat := min (a + b) u64Max

/-- `u64::saturating_mul`. -/
def saturatingMul (a b : Nat) : Nat := min (a * b) u64Max

end Xhttp
