import Mathlib.Order.Lattice
import Mathlib.Data.List.Pairwise

/-- Entries in ascending order of their keys, as a search tree holds them. -/
structure SortedMap (K V : Type*) [LinearOrder K] where
  entries : List (K × V)
  sorted : (entries.map Prod.fst).Pairwise (· < ·)

namespace SortedMap

variable {K V : Type*} [LinearOrder K]

/-- `m[k] = v`: the entry of the key is overwritten, or put behind those of all smaller keys. -/
def put (k : K) (v : V) : List (K × V) → List (K × V)
  | [] => [(k, v)]
  | e :: es => if e.1 < k then e :: put k v es else if k < e.1 then (k, v) :: e :: es else (k, v) :: es

theorem mem_put_keys {k x : K} {v : V} {es : List (K × V)} :
    x ∈ (put k v es).map Prod.fst ↔ x = k ∨ x ∈ es.map Prod.fst := by
  induction es with
  | nil => simp [put]
  | cons e es ih =>
    unfold put
    split
    next =>
      rw [List.map_cons, List.mem_cons, ih, List.map_cons, List.mem_cons]
      exact or_left_comm
    next hlow =>
      split
      next => simp
      next hhigh =>
        have hsame : e.1 = k := le_antisymm (not_lt.mp hhigh) (not_lt.mp hlow)
        rw [List.map_cons, List.mem_cons, List.map_cons, List.mem_cons, hsame, or_self_left]

theorem put_sorted {k : K} {v : V} {es : List (K × V)} (h : (es.map Prod.fst).Pairwise (· < ·)) :
    ((put k v es).map Prod.fst).Pairwise (· < ·) := by
  induction es with
  | nil => exact List.pairwise_singleton _ _
  | cons e es ih =>
    obtain ⟨hhead, htail⟩ := List.pairwise_cons.mp h
    unfold put
    split
    next hlow =>
      refine List.pairwise_cons.mpr ⟨fun x hx => ?_, ih htail⟩
      rcases mem_put_keys.mp hx with rfl | hx
      · exact hlow
      · exact hhead x hx
    next hlow =>
      split
      next hhigh =>
        refine List.pairwise_cons.mpr ⟨fun x hx => ?_, h⟩
        rcases List.mem_cons.mp hx with rfl | hx
        · exact hhigh
        · exact lt_trans hhigh (hhead x hx)
      next hhigh =>
        have hsame : e.1 = k := le_antisymm (not_lt.mp hhigh) (not_lt.mp hlow)
        exact List.pairwise_cons.mpr ⟨fun x hx => hsame ▸ hhead x hx, htail⟩

def empty : SortedMap K V := ⟨[], List.Pairwise.nil⟩

def set (m : SortedMap K V) (k : K) (v : V) : SortedMap K V := ⟨put k v m.entries, put_sorted m.sorted⟩

def keys (m : SortedMap K V) : List K := m.entries.map Prod.fst

variable {m : SortedMap K V} {k k' : K} {v v' : V}

theorem mem_set_keys : k' ∈ (m.set k v).keys ↔ k' = k ∨ k' ∈ m.keys := mem_put_keys

theorem mem_put {es : List (K × V)} (hsorted : (es.map Prod.fst).Pairwise (· < ·)) :
    (k', v') ∈ put k v es ↔ k' = k ∧ v' = v ∨ k' ≠ k ∧ (k', v') ∈ es := by
  induction es with
  | nil =>
    simp only [put, List.mem_singleton, Prod.mk.injEq, List.not_mem_nil, and_false, or_false]
  | cons e es ih =>
    obtain ⟨hhead, htail⟩ := List.pairwise_cons.mp hsorted
    have above : ∀ x, (k', x) ∈ es → e.1 < k' := fun x hx => hhead k' (List.mem_map.mpr ⟨_, hx, rfl⟩)
    unfold put
    split
    next hlow =>
      rw [List.mem_cons, ih htail, List.mem_cons]
      constructor
      · rintro (rfl | h | ⟨hne, hin⟩)
        · exact Or.inr ⟨ne_of_lt hlow, Or.inl rfl⟩
        · exact Or.inl h
        · exact Or.inr ⟨hne, Or.inr hin⟩
      · rintro (h | ⟨hne, rfl | hin⟩)
        · exact Or.inr (Or.inl h)
        · exact Or.inl rfl
        · exact Or.inr (Or.inr ⟨hne, hin⟩)
    next hlow =>
      split
      next hhigh =>
        rw [List.mem_cons, Prod.mk.injEq]
        refine or_congr Iff.rfl ⟨fun hin => ⟨?_, hin⟩, And.right⟩
        rcases List.mem_cons.mp hin with rfl | hin
        · exact ne_of_gt hhigh
        · exact ne_of_gt (lt_trans hhigh (above v' hin))
      next hhigh =>
        have hsame : e.1 = k := le_antisymm (not_lt.mp hhigh) (not_lt.mp hlow)
        rw [List.mem_cons, Prod.mk.injEq]
        refine or_congr Iff.rfl ⟨fun hin => ⟨?_, List.mem_cons_of_mem _ hin⟩, ?_⟩
        · rw [← hsame]
          exact ne_of_gt (above v' hin)
        · rintro ⟨hne, hin⟩
          rcases List.mem_cons.mp hin with rfl | hin
          · exact absurd hsame hne
          · exact hin

/-- An entry is the new one, or an old one of another key. -/
theorem mem_set : (k', v') ∈ (m.set k v).entries ↔ k' = k ∧ v' = v ∨ k' ≠ k ∧ (k', v') ∈ m.entries := mem_put m.sorted

theorem length_put (k : K) (v : V) {es : List (K × V)} (hsorted : (es.map Prod.fst).Pairwise (· < ·)) :
    (put k v es).length = if k ∈ es.map Prod.fst then es.length else es.length + 1 := by
  induction es with
  | nil => rfl
  | cons e es ih =>
    obtain ⟨hhead, htail⟩ := List.pairwise_cons.mp hsorted
    unfold put
    split
    next hlow =>
      have hne : ¬k = e.1 := ne_of_gt hlow
      rw [List.length_cons, ih htail, List.map_cons, List.length_cons]
      by_cases hin : k ∈ es.map Prod.fst
      · rw [if_pos hin, if_pos (List.mem_cons_of_mem _ hin)]
      · rw [if_neg hin, if_neg (fun h => (List.mem_cons.mp h).elim hne hin)]
    next hlow =>
      split
      next hhigh =>
        rw [if_neg]
        · rfl
        · intro h
          rcases List.mem_cons.mp h with he | hin
          · exact absurd he (ne_of_lt hhigh)
          · exact lt_asymm hhigh (hhead k hin)
      next hhigh =>
        have hsame : k = e.1 := le_antisymm (not_lt.mp hlow) (not_lt.mp hhigh)
        rw [if_pos (hsame ▸ List.mem_cons_self)]
        rfl

theorem length_set (m : SortedMap K V) (k : K) (v : V) :
    (m.set k v).entries.length = if k ∈ m.keys then m.entries.length else m.entries.length + 1 :=
  length_put k v m.sorted

end SortedMap
