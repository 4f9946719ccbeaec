import Mathlib.Algebra.BigOperators.Group.Finset.Piecewise
import Mathlib.Algebra.BigOperators.Fin
import Mathlib.Algebra.Order.BigOperators.Group.Finset
import Mathlib.Data.Fintype.Basic

namespace Threads

variable {ι τ : Type*} [Fintype ι]

/-- What all threads have together of something that a single thread has `w` of. -/
def total (w : τ → Nat) (thread : ι → τ) : Nat := ∑ i, w (thread i)

variable {w v : τ → Nat} {thread : ι → τ}

/-- One thread moves. -/
theorem total_update [DecidableEq ι] (w : τ → Nat) (thread : ι → τ) (i : ι) (x : τ) :
    total w (Function.update thread i x) + w (thread i) = total w thread + w x := by
  have hi : i ∈ Finset.univ := Finset.mem_univ i
  have hnew : ∑ j, w (Function.update thread i x j) = w x + ∑ j ∈ Finset.univ \ {i}, w (thread j) := by
    have hw : ∀ j, w (Function.update thread i x j) = Function.update (fun j => w (thread j)) i (w x) j := by
      intro j
      exact Function.apply_update (fun _ => w) thread i x j
    rw [Finset.sum_congr rfl fun j _ => hw j, Finset.sum_update_of_mem hi]
  have hold : ∑ j, w (thread j) = w (thread i) + ∑ j ∈ Finset.univ \ {i}, w (thread j) :=
    Finset.sum_eq_add_sum_sdiff_singleton_of_mem hi fun j => w (thread j)
  unfold total
  omega

theorem total_mono (h : ∀ i, w (thread i) ≤ v (thread i)) : total w thread ≤ total v thread :=
  Finset.sum_le_sum fun i _ => h i

theorem total_add : total (fun x => w x + v x) thread = total w thread + total v thread :=
  Finset.sum_add_distrib

theorem total_le {n : Nat} (h : ∀ i, w (thread i) ≤ n) : total w thread ≤ Fintype.card ι * n := by
  have hsum := Finset.sum_le_card_nsmul Finset.univ (fun i => w (thread i)) n fun i _ => h i
  rw [Finset.card_univ, smul_eq_mul] at hsum
  exact hsum

theorem total_eq_zero (h : ∀ i, w (thread i) = 0) : total w thread = 0 :=
  Finset.sum_eq_zero fun i _ => h i

theorem le_total (w : τ → Nat) (thread : ι → τ) (i : ι) : w (thread i) ≤ total w thread :=
  Finset.single_le_sum (f := fun j => w (thread j)) (fun _ _ => Nat.zero_le _) (Finset.mem_univ i)

end Threads
