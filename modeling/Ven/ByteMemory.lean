import Mathlib.Algebra.Group.Nat.Defs
import Mathlib.Data.List.Basic

namespace Bytes

/-- A memory image: the byte at every offset from some base address. -/
abbrev Memory := Nat → UInt8

def readAt (m : Memory) (pos len : Nat) : List UInt8 :=
  (List.range len).map fun i => m (pos + i)

def writeAt (m : Memory) (pos : Nat) (data : List UInt8) : Memory := fun i =>
  if i < pos then m i else (data[i - pos]?).getD (m i)

@[simp] theorem length_readAt (m : Memory) (pos len : Nat) :
    (readAt m pos len).length = len := by simp [readAt]

@[simp] theorem readAt_zero (m : Memory) (pos : Nat) : readAt m pos 0 = [] := rfl

@[simp] theorem writeAt_nil (m : Memory) (pos : Nat) : writeAt m pos [] = m := by
  funext i
  simp [writeAt]

theorem readAt_congr {m m' : Memory} {pos len : Nat}
    (same : ∀ i, pos ≤ i → i < pos + len → m i = m' i) : readAt m pos len = readAt m' pos len := by
  apply List.map_congr_left
  intro i hi
  exact same (pos + i) (by omega) (by have := List.mem_range.mp hi; omega)

theorem readAt_add (m : Memory) (pos a b : Nat) :
    readAt m pos (a + b) = readAt m pos a ++ readAt m (pos + a) b := by
  simp only [readAt, List.range_add, List.map_append, List.map_map]
  congr 1
  apply List.map_congr_left
  intro i _
  simp [Nat.add_assoc]

theorem take_readAt (m : Memory) (pos : Nat) {k len : Nat} (h : k ≤ len) :
    (readAt m pos len).take k = readAt m pos k := by
  obtain ⟨d, rfl⟩ := Nat.exists_eq_add_of_le h
  rw [readAt_add, List.take_left' (length_readAt m pos k)]

theorem drop_readAt (m : Memory) (pos : Nat) {k len : Nat} (h : k ≤ len) :
    (readAt m pos len).drop k = readAt m (pos + k) (len - k) := by
  obtain ⟨d, rfl⟩ := Nat.exists_eq_add_of_le h
  rw [readAt_add, List.drop_left' (length_readAt m pos k), Nat.add_sub_cancel_left]

theorem writeAt_outside {m : Memory} {pos i : Nat} {data : List UInt8}
    (h : i < pos ∨ pos + data.length ≤ i) : writeAt m pos data i = m i := by
  unfold writeAt
  rcases h with h | h
  · rw [if_pos h]
  · rw [if_neg (by omega), List.getElem?_eq_none (by omega), Option.getD_none]

theorem writeAt_inside {m : Memory} {pos i : Nat} {data : List UInt8} (h : i < data.length) :
    writeAt m pos data (pos + i) = data[i] := by
  rw [writeAt, if_neg (by omega), Nat.add_sub_cancel_left, List.getElem?_eq_getElem h,
    Option.getD_some]

theorem readAt_writeAt_same (m : Memory) (pos : Nat) (data : List UInt8) :
    readAt (writeAt m pos data) pos data.length = data := by
  apply List.ext_getElem (length_readAt _ _ _)
  intro i hi hj
  simp only [readAt, List.getElem_map, List.getElem_range]
  exact writeAt_inside hj

theorem readAt_writeAt_disjoint {m : Memory} {pos len at' : Nat} {data : List UInt8}
    (h : pos + len ≤ at' ∨ at' + data.length ≤ pos) :
    readAt (writeAt m at' data) pos len = readAt m pos len := by
  apply readAt_congr
  intro i hi hj
  exact writeAt_outside (by omega)

theorem writeAt_append (m : Memory) (pos : Nat) (xs ys : List UInt8) :
    writeAt m pos (xs ++ ys) = writeAt (writeAt m pos xs) (pos + xs.length) ys := by
  funext i
  by_cases low : i < pos
  · rw [writeAt_outside (Or.inl low), writeAt_outside (Or.inl (by omega)),
      writeAt_outside (Or.inl low)]
  by_cases mid : i < pos + xs.length
  · rw [writeAt_outside (m := writeAt m pos xs) (Or.inl mid)]
    have hi : i - pos < xs.length := by omega
    simp [writeAt, low, List.getElem?_append_left hi, hi]
  · have hi : xs.length ≤ i - pos := by omega
    have he : i - (pos + xs.length) = i - pos - xs.length := by omega
    simp [writeAt, low, mid, List.getElem?_append_right hi, he, List.getElem?_eq_none hi]

/-- The `k` little-endian bytes of a number. -/
def leBytes : Nat → Nat → List UInt8
  | 0, _ => []
  | k + 1, n => UInt8.ofNat (n % 256) :: leBytes k (n / 256)

/-- The number that a list of little-endian bytes spells. -/
def leNat : List UInt8 → Nat
  | [] => 0
  | b :: bs => b.toNat + 256 * leNat bs

@[simp] theorem length_leBytes (k n : Nat) : (leBytes k n).length = k := by
  induction k generalizing n with
  | zero => rfl
  | succ k ih => simp [leBytes, ih]

theorem leNat_leBytes {k n : Nat} (h : n < 256 ^ k) : leNat (leBytes k n) = n := by
  induction k generalizing n with
  | zero =>
    have : n = 0 := by simpa using h
    simp [leBytes, leNat, this]
  | succ k ih =>
    have hq : n / 256 < 256 ^ k := by
      apply Nat.div_lt_of_lt_mul
      rwa [Nat.pow_succ, Nat.mul_comm] at h
    simp only [leBytes, leNat, ih hq, UInt8.toNat_ofNat']
    omega

end Bytes
