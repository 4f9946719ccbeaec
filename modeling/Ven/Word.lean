import Mathlib.Data.Int.Basic

namespace Ven

/-- The value a `uint32_t` holds after an integer is stored in it. -/
def u32 (z : Int) : Nat := (z % 4294967296).toNat

/-- `--x` on a `uint32_t` counter that only counts live objects. -/
def pred32 (n : Nat) : Nat := if n = 0 then 4294967295 else n - 1

/-- `a + b` and `a * b` on `uint32_t`. -/
def add32 (a b : Nat) : Nat := u32 ((a : Int) + b)

def mul32 (a b : Nat) : Nat := u32 ((a : Int) * b)

theorem u32_lt (z : Int) : u32 z < 4294967296 := by unfold u32; omega

theorem u32_of_lt {n : Nat} (h : n < 4294967296) : u32 n = n := by unfold u32; omega

theorem u32_sub {a b : Nat} (hab : b ≤ a) (h : a < 4294967296) : u32 ((a : Int) - b) = a - b := by
  unfold u32; omega

theorem u32_natCast (n : Nat) : u32 n = n % 4294967296 := by unfold u32; omega

theorem add32_eq (a b : Nat) : add32 a b = (a + b) % 4294967296 := by
  rw [add32, ← Int.natCast_add, u32_natCast]

theorem mul32_eq (a b : Nat) : mul32 a b = a * b % 4294967296 := by
  rw [mul32, ← Int.natCast_mul, u32_natCast]

theorem add32_of_lt {a b : Nat} (h : a + b < 4294967296) : add32 a b = a + b := by
  rw [add32_eq, Nat.mod_eq_of_lt h]

theorem add32_lt (a b : Nat) : add32 a b < 4294967296 := u32_lt _

theorem add32_add (a b c : Nat) : add32 (add32 a b) c = add32 a (b + c) := by
  rw [add32_eq, add32_eq, add32_eq]
  omega

theorem add32_add_right (a b c : Nat) : add32 a (add32 b c) = add32 a (b + c) := by
  rw [add32_eq, add32_eq, add32_eq]
  omega

theorem add32_zero {a : Nat} (h : a < 4294967296) : add32 a 0 = a := add32_of_lt h

theorem pred32_of_pos {n : Nat} (h : 0 < n) : pred32 n = n - 1 := by
  rw [pred32, if_neg (by omega)]

end Ven
