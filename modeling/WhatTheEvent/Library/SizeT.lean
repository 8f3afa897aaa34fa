import Mathlib.Algebra.Ring.Nat
import Mathlib.Tactic.Common

/-!
# Unsigned machine words

The unsigned 64-bit arithmetic of `size_t`, on natural numbers below `2 ^ 64`.
-/

namespace SizeT

/-- One more than the largest `size_t`. -/
def modulus : Nat := 2 ^ 64

/-- The largest `size_t`. -/
def max : Nat := 2 ^ 64 - 1

/-- Allocations of this size or more fail: no object is larger than the largest `ptrdiff_t`. -/
def objectLimit : Nat := 2 ^ 63

/-- `a + b`, wrapping around. -/
def add (a b : Nat) : Nat := (a + b) % 2 ^ 64

/-- `a - b`, wrapping around. -/
def sub (a b : Nat) : Nat := if b ≤ a then a - b else 2 ^ 64 + a - b

lemma sub_of_le {a b : Nat} (h : b ≤ a) : sub a b = a - b := if_pos h

lemma sub_of_lt {a b : Nat} (h : a < b) : sub a b = 2 ^ 64 + a - b := if_neg (by omega)

@[simp] lemma sub_self (a : Nat) : sub a a = 0 := by simp [sub]

@[simp] lemma sub_zero (a : Nat) : sub a 0 = a := by simp [sub]

@[simp] lemma sub_add_left (a b : Nat) : sub (a + b) a = b := by
  rw [sub_of_le (by omega)]; omega

lemma add_of_lt {a b : Nat} (h : a + b < 2 ^ 64) : add a b = a + b := Nat.mod_eq_of_lt h

end SizeT
