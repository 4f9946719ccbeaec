import Mathlib.Algebra.Order.BigOperators.Group.Finset
import Mathlib.Data.List.Pairwise
import Mathlib.Order.Interval.Finset.Nat

namespace Ranges

/-- Two ranges, each with its end excluded, that have nothing in common. -/
def Apart (r s : Nat × Nat) : Prop := r.2 ≤ s.1 ∨ s.2 ≤ r.1

theorem Apart.symm {r s : Nat × Nat} (h : Apart r s) : Apart s r := Or.symm h

/-- The ranges lie between `lo` and `hi`, without overlaps. -/
structure Placed (lo hi : Nat) (rs : List (Nat × Nat)) : Prop where
  inside : ∀ r ∈ rs, lo ≤ r.1 ∧ r.1 ≤ r.2 ∧ r.2 ≤ hi
  apart : rs.Pairwise Apart

variable {lo mid hi : Nat} {rs ss : List (Nat × Nat)}

theorem placed_nil (lo hi : Nat) : Placed lo hi [] := ⟨fun _ h => absurd h List.not_mem_nil, List.Pairwise.nil⟩

theorem placed_single (h : lo ≤ hi) : Placed lo hi [(lo, hi)] := by
  refine ⟨?_, List.pairwise_singleton _ _⟩
  intro r hr
  cases List.mem_singleton.mp hr
  exact ⟨Nat.le_refl lo, h, Nat.le_refl hi⟩

theorem Placed.mono (h : Placed lo mid rs) (hle : mid ≤ hi) : Placed lo hi rs := by
  refine ⟨?_, h.apart⟩
  intro r hr
  obtain ⟨h1, h2, h3⟩ := h.inside r hr
  exact ⟨h1, h2, Nat.le_trans h3 hle⟩

theorem Placed.append (hr : Placed lo mid rs) (hs : Placed mid hi ss) (h1 : lo ≤ mid) (h2 : mid ≤ hi) :
    Placed lo hi (rs ++ ss) := by
  refine ⟨?_, List.pairwise_append.mpr ⟨hr.apart, hs.apart, ?_⟩⟩
  · intro r hmem
    rcases List.mem_append.mp hmem with h | h
    · exact (hr.mono h2).inside r h
    · obtain ⟨hlo, hle, hhi⟩ := hs.inside r h
      exact ⟨Nat.le_trans h1 hlo, hle, hhi⟩
  · intro r hrm s hsm
    exact Or.inl (Nat.le_trans (hr.inside r hrm).2.2 (hs.inside s hsm).1)

theorem Placed.swap (h : Placed lo hi (rs ++ ss)) : Placed lo hi (ss ++ rs) := by
  obtain ⟨hr, hs, happart⟩ := List.pairwise_append.mp h.apart
  refine ⟨?_, List.pairwise_append.mpr ⟨hs, hr, ?_⟩⟩
  · intro r hmem
    exact h.inside r (List.mem_append.mpr (List.mem_append.mp hmem).symm)
  · intro s hsm r hrm
    exact (happart r hrm s hsm).symm

/-- Between `lo` and `hi` there is room for that many summands. -/
theorem sum_le_between {s : Finset Nat} {f : Nat → Nat} {c : Nat} (hs : ∀ x ∈ s, lo ≤ x ∧ x < hi) (hf : ∀ x ∈ s, f x ≤ c) :
    s.sum f ≤ (hi - lo) * c := by
  have hcard : s.card ≤ hi - lo := by
    rw [← Nat.card_Ico]
    exact Finset.card_le_card fun x hx => Finset.mem_Ico.mpr (hs x hx)
  calc s.sum f ≤ s.card • c := Finset.sum_le_card_nsmul s f c hf
    _ ≤ (hi - lo) * c := Nat.mul_le_mul_right c hcard

theorem sum_split (s : Finset Nat) (f : Nat → Nat) (a : Nat) :
    s.sum f = (s.filter (· < a)).sum f + (s.filter (a ≤ ·)).sum f := by
  have hsplit := Finset.sum_filter_add_sum_filter_not s (· < a) f
  simp only [Nat.not_lt] at hsplit
  exact hsplit.symm

end Ranges
