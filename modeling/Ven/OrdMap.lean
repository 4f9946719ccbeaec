import Mathlib.Data.List.Pairwise
import Mathlib.Logic.Function.Basic

/-- A finite map over ascending keys, as an ordered associative container keeps it. -/
structure OrdMap (β : Type*) where
  keys : List Nat
  val : Nat → β
  sorted : keys.Pairwise (· < ·)

namespace OrdMap

variable {β : Type*}

def insertKey (k : Nat) : List Nat → List Nat
  | [] => [k]
  | x :: xs => if k < x then k :: x :: xs else if k = x then x :: xs else x :: insertKey k xs

theorem mem_insertKey {k x : Nat} {xs : List Nat} : x ∈ insertKey k xs ↔ x = k ∨ x ∈ xs := by
  induction xs with
  | nil => simp [insertKey]
  | cons y ys ih =>
    unfold insertKey
    split
    next => simp
    next =>
      split
      next he => subst he; simp
      next => simp only [List.mem_cons, ih, or_left_comm]

theorem insertKey_sorted {k : Nat} {xs : List Nat} (h : xs.Pairwise (· < ·)) :
    (insertKey k xs).Pairwise (· < ·) := by
  induction xs with
  | nil => simp [insertKey]
  | cons y ys ih =>
    have hy := List.pairwise_cons.mp h
    unfold insertKey
    split
    next hk =>
      refine List.pairwise_cons.mpr ⟨?_, h⟩
      intro x hx
      rcases List.mem_cons.mp hx with rfl | hx
      · exact hk
      · exact Nat.lt_trans hk (hy.1 x hx)
    next hk =>
      split
      next => exact h
      next hne =>
        refine List.pairwise_cons.mpr ⟨?_, ih hy.2⟩
        intro x hx
        rcases mem_insertKey.mp hx with rfl | hx
        · omega
        · exact hy.1 x hx

def empty (b : β) : OrdMap β := ⟨[], fun _ => b, List.Pairwise.nil⟩

/-- `m[k]` as an lvalue: the key is there afterwards, and `f` has been applied to its value. -/
def modify (m : OrdMap β) (k : Nat) (f : β → β) : OrdMap β :=
  ⟨insertKey k m.keys, Function.update m.val k (f (m.val k)), insertKey_sorted m.sorted⟩

/-- The first key that is not below `k`. -/
def lowerBound (m : OrdMap β) (k : Nat) : Option Nat := m.keys.find? fun u => decide (k ≤ u)

@[simp] theorem modify_val_self (m : OrdMap β) (k : Nat) (f : β → β) :
    (m.modify k f).val k = f (m.val k) := by simp [modify]

theorem modify_val_of_ne (m : OrdMap β) {k u : Nat} (f : β → β) (h : u ≠ k) :
    (m.modify k f).val u = m.val u := by simp [modify, h]

@[simp] theorem mem_modify_keys {m : OrdMap β} {k u : Nat} {f : β → β} :
    u ∈ (m.modify k f).keys ↔ u = k ∨ u ∈ m.keys := mem_insertKey

theorem lowerBound_spec {m : OrdMap β} {k u : Nat} (h : m.lowerBound k = some u) :
    u ∈ m.keys ∧ k ≤ u ∧ ∀ v ∈ m.keys, k ≤ v → u ≤ v := by
  unfold lowerBound at h
  obtain ⟨hk, before, after, he, hlow⟩ := List.find?_eq_some_iff_append.mp h
  have hsorted := m.sorted
  rw [he] at hsorted
  have hafter := List.pairwise_cons.mp (List.pairwise_append.mp hsorted).2.1
  refine ⟨by simp [he], by simpa using hk, ?_⟩
  intro v hv hkv
  rw [he] at hv
  rcases List.mem_append.mp hv with hv | hv
  · have := hlow v hv
    simp at this
    omega
  · rcases List.mem_cons.mp hv with rfl | hv
    · exact Nat.le_refl _
    · exact Nat.le_of_lt (hafter.1 v hv)

theorem lowerBound_exists {m : OrdMap β} {k u : Nat} (hu : u ∈ m.keys) (hk : k ≤ u) :
    ∃ v, m.lowerBound k = some v := by
  cases h : m.lowerBound k with
  | some v => exact ⟨v, rfl⟩
  | none =>
    have := List.find?_eq_none.mp h u hu
    simp at this
    omega

theorem insertKey_of_mem {k : Nat} {xs : List Nat} (hs : xs.Pairwise (· < ·)) (hk : k ∈ xs) : insertKey k xs = xs := by
  induction xs with
  | nil => cases hk
  | cons x xs ih =>
    have hx := List.pairwise_cons.mp hs
    unfold insertKey
    rcases List.mem_cons.mp hk with rfl | hk
    · rw [if_neg (Nat.lt_irrefl k), if_pos rfl]
    · have hlt := hx.1 k hk
      rw [if_neg (by omega), if_neg (by omega), ih hx.2 hk]

theorem modify_eq_self {m : OrdMap β} {k : Nat} {f : β → β} (hk : k ∈ m.keys) (hf : f (m.val k) = m.val k) :
    m.modify k f = m := by
  obtain ⟨keys, val, sorted⟩ := m
  simp only [modify, OrdMap.mk.injEq]
  refine ⟨insertKey_of_mem sorted hk, ?_⟩
  rw [show f (val k) = val k from hf, Function.update_eq_self]

/-- The same keys with other values. -/
def map {γ : Type*} (m : OrdMap β) (f : β → γ) : OrdMap γ := ⟨m.keys, fun u => f (m.val u), m.sorted⟩

theorem map_modify {γ : Type*} (m : OrdMap β) {f : β → γ} {g : γ → γ} {h : β → β} (k : Nat)
    (comm : g (f (m.val k)) = f (h (m.val k))) : (m.map f).modify k g = (m.modify k h).map f := by
  simp only [modify, map, OrdMap.mk.injEq, true_and]
  funext u
  by_cases hu : u = k
  · rw [hu, Function.update_self, Function.update_self]
    exact comm
  · rw [Function.update_of_ne hu, Function.update_of_ne hu]

end OrdMap
