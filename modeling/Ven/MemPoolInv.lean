import Ven.MemPool
import Mathlib.Data.Finset.Card
import Mathlib.Order.Interval.Finset.Nat
import Mathlib.Data.Finset.Range

namespace Ven

namespace MemPool

def unitOf (h : Heap) (id : Nat) : Option Nat := (h id).map Mem.unit

/-- All blocks of a unit that exist. -/
def unitBlocks (r : Ram MemPool) (unit : Nat) : Finset Nat :=
  (Finset.range r.pool.next).filter fun id => unitOf r.heap id = some unit

def freeOf (r : Ram MemPool) (unit : Nat) : List Nat := (r.pool.map.val unit).free

/-- Whether the block should stand in the free list of `unit`. -/
def Idle (r : Ram MemPool) (H : Multiset Nat) (unit : Nat) (id : Nat) : Prop :=
  unitOf r.heap id = some unit ∧ unit ≤ r.pool.maxUnit ∧ id ∉ H

structure Core (r : Ram MemPool) (H : Multiset Nat) : Prop where
  ref_eq : ∀ {id m}, r.heap id = some m → m.ref = H.count id
  live : ∀ {id}, id ∈ H → ∃ m, r.heap id = some m
  key : ∀ {id u}, unitOf r.heap id = some u → u ≤ r.pool.maxUnit → u ∈ r.pool.map.keys
  nodup : ∀ u, (freeOf r u).Nodup
  free : ∀ u id, id ∈ freeOf r u ↔ Idle r H u id
  exceed : ∀ {id u}, unitOf r.heap id = some u → r.pool.maxUnit < u → id ∈ H
  fresh : ∀ {id}, r.pool.next ≤ id → r.heap id = none
  key_le : ∀ {u}, u ∈ r.pool.map.keys → u ≤ r.pool.maxUnit
  step : ∀ {u}, u ∈ r.pool.map.keys → 1 ≤ (r.pool.map.val u).stepCnt
  total : ∀ {u}, u ∈ r.pool.map.keys → (r.pool.map.val u).total = (unitBlocks r u).card

theorem mem_unitBlocks {r : Ram MemPool} {u id : Nat} :
    id ∈ unitBlocks r u ↔ id < r.pool.next ∧ unitOf r.heap id = some u := by
  simp [unitBlocks]

theorem unitOf_some {h : Heap} {id : Nat} {u : Nat} :
    unitOf h id = some u ↔ ∃ m, h id = some m ∧ m.unit = u := by
  simp [unitOf]

theorem pushNew_spec (unit : Nat) (cnt : Nat) (slist : List Nat) (r : Ram MemPool) :
    ∃ ids : List Nat, (pushNew unit cnt slist r).1 = ids ++ slist ∧ ids.Nodup ∧
      (∀ id, id ∈ ids ↔ r.pool.next ≤ id ∧ id < r.pool.next + cnt) ∧
      (pushNew unit cnt slist r).2.pool = { r.pool with next := r.pool.next + cnt } ∧
      ∀ id, (pushNew unit cnt slist r).2.heap id =
        if r.pool.next ≤ id ∧ id < r.pool.next + cnt then some ⟨unit, 0, fun _ => 0⟩ else r.heap id := by
  induction cnt generalizing slist r with
  | zero =>
    refine ⟨[], rfl, List.nodup_nil, ?_, rfl, ?_⟩
    · intro id
      simp only [List.not_mem_nil, false_iff]
      omega
    · intro id
      rw [if_neg (by omega)]
      rfl
  | succ cnt ih =>
    obtain ⟨ids, hl, hn, hm, hp, hh⟩ := ih (r.pool.next :: slist) (newMem r unit).2
    have hnext : (newMem r unit).2.pool.next = r.pool.next + 1 := rfl
    rw [hnext] at hm hp hh
    refine ⟨ids ++ [r.pool.next], ?_, ?_, ?_, ?_, ?_⟩
    · rw [List.append_assoc]
      exact hl
    · apply List.nodup_append.mpr
      refine ⟨hn, by simp, ?_⟩
      intro a ha b hb he
      have := (hm a).mp ha
      have hb' : b = r.pool.next := by simpa using hb
      omega
    · intro id
      rw [List.mem_append, hm, List.mem_singleton]
      omega
    · have hp' : (pushNew unit (cnt + 1) slist r).2.pool = _ := hp
      rw [hp']
      simp only [newMem, Nat.add_assoc, Nat.add_comm 1]
    · intro id
      have hh' : (pushNew unit (cnt + 1) slist r).2.heap id = _ := hh id
      rw [hh']
      by_cases he : id = r.pool.next
      · subst he
        rw [if_neg (by omega), if_pos (by omega)]
        simp [newMem]
      · have hold : (newMem r unit).2.heap id = r.heap id := by simp [newMem, he]
        rw [hold]
        by_cases hin : r.pool.next + 1 ≤ id ∧ id < r.pool.next + 1 + cnt
        · rw [if_pos hin, if_pos (by omega)]
        · rw [if_neg hin, if_neg (by omega)]

theorem Core.lt_next {r : Ram MemPool} {H : Multiset Nat} (c : Core r H) {id u : Nat}
    (hu : unitOf r.heap id = some u) : id < r.pool.next := by
  obtain ⟨m, hmem, _⟩ := unitOf_some.mp hu
  by_contra hge
  rw [c.fresh (by omega)] at hmem
  cases hmem

theorem Core.held_lt_next {r : Ram MemPool} {H : Multiset Nat} (c : Core r H) {id : Nat} (hid : id ∈ H) :
    id < r.pool.next := by
  obtain ⟨m, hmem⟩ := c.live hid
  exact c.lt_next (unitOf_some.mpr ⟨m, hmem, rfl⟩)

section Grown

variable {r r' : Ram MemPool} {H : Multiset Nat} {u cnt : Nat}

/-- A block is a new one, or one that was there before. -/
theorem Core.unitOf_grown (c : Core r H)
    (unit : ∀ id, unitOf r'.heap id =
      if r.pool.next ≤ id ∧ id < r.pool.next + cnt then some u else unitOf r.heap id) {id v : Nat} :
    unitOf r'.heap id = some v ↔
      (v = u ∧ r.pool.next ≤ id ∧ id < r.pool.next + cnt) ∨ unitOf r.heap id = some v := by
  rw [unit id]
  split
  next hin =>
    refine ⟨fun hv => Or.inl ⟨(Option.some.inj hv).symm, hin⟩, ?_⟩
    rintro (⟨rfl, _⟩ | hv)
    · rfl
    · have := c.lt_next hv
      omega
  next hout =>
    refine ⟨Or.inr, ?_⟩
    rintro (⟨_, hin⟩ | hv)
    · exact absurd hin hout
    · exact hv

/-- The new blocks are those of the unit that were not there before. -/
theorem Core.card_grown (c : Core r H)
    (unit : ∀ id, unitOf r'.heap id =
      if r.pool.next ≤ id ∧ id < r.pool.next + cnt then some u else unitOf r.heap id)
    (next : r'.pool.next = r.pool.next + cnt) : (unitBlocks r' u).card = (unitBlocks r u).card + cnt := by
  have split : unitBlocks r' u = unitBlocks r u ∪ Finset.Ico r.pool.next (r.pool.next + cnt) := by
    ext id
    rw [Finset.mem_union, Finset.mem_Ico, mem_unitBlocks, mem_unitBlocks, c.unitOf_grown unit, next]
    constructor
    · rintro ⟨_, ⟨_, hin⟩ | hv⟩
      · exact Or.inr hin
      · exact Or.inl ⟨c.lt_next hv, hv⟩
    · rintro (⟨hlt, hv⟩ | hin)
      · exact ⟨by omega, Or.inr hv⟩
      · exact ⟨hin.2, Or.inl ⟨rfl, hin⟩⟩
  have apart : Disjoint (unitBlocks r u) (Finset.Ico r.pool.next (r.pool.next + cnt)) := by
    rw [Finset.disjoint_left]
    intro id ha hb
    have ha' := (mem_unitBlocks.mp ha).1
    have hb' := (Finset.mem_Ico.mp hb).1
    omega
  rw [split, Finset.card_union_of_disjoint apart, Nat.card_Ico]
  omega

theorem Core.unitBlocks_other (c : Core r H)
    (unit : ∀ id, unitOf r'.heap id =
      if r.pool.next ≤ id ∧ id < r.pool.next + cnt then some u else unitOf r.heap id)
    (next : r'.pool.next = r.pool.next + cnt) {v : Nat} (hvu : v ≠ u) : unitBlocks r' v = unitBlocks r v := by
  ext id
  rw [mem_unitBlocks, mem_unitBlocks, c.unitOf_grown unit, next]
  constructor
  · rintro ⟨_, ⟨hv, _⟩ | hv⟩
    · exact absurd hv hvu
    · exact ⟨c.lt_next hv, hv⟩
  · rintro ⟨hlt, hv⟩
    exact ⟨by omega, Or.inr hv⟩

end Grown

/-- Creating blocks of one unit and putting them in front of its free list. -/
theorem Core.grow {r r' : Ram MemPool} {H : Multiset Nat} (c : Core r H) {u cnt : Nat}
    {ids : List Nat} (hu : u ≤ r.pool.maxUnit) (hn : ids.Nodup)
    (hm : ∀ id, id ∈ ids ↔ r.pool.next ≤ id ∧ id < r.pool.next + cnt)
    (heap : ∀ id, r'.heap id =
      if r.pool.next ≤ id ∧ id < r.pool.next + cnt then some ⟨u, 0, fun _ => 0⟩ else r.heap id)
    (next : r'.pool.next = r.pool.next + cnt) (top : r'.pool.maxUnit = r.pool.maxUnit)
    (keys : ∀ x, x ∈ r'.pool.map.keys ↔ x = u ∨ x ∈ r.pool.map.keys)
    (other : ∀ v, v ≠ u → r'.pool.map.val v = r.pool.map.val v)
    (free : freeOf r' u = ids ++ freeOf r u) (step : 1 ≤ (r'.pool.map.val u).stepCnt)
    (total : (r'.pool.map.val u).total = (unitBlocks r u).card + cnt) : Core r' H := by
  have unit : ∀ id, unitOf r'.heap id =
      if r.pool.next ≤ id ∧ id < r.pool.next + cnt then some u else unitOf r.heap id := by
    intro id
    unfold unitOf
    rw [heap id]
    split <;> rfl
  constructor
  · intro id m hmem
    rw [heap id] at hmem
    split at hmem
    next hin =>
      cases Option.some.inj hmem
      exact (Multiset.count_eq_zero.mpr fun hid => by have := c.held_lt_next hid; omega).symm
    next => exact c.ref_eq hmem
  · intro id hid
    obtain ⟨m, hmem⟩ := c.live hid
    have := c.held_lt_next hid
    exact ⟨m, by rw [heap id, if_neg (by omega)]; exact hmem⟩
  · intro id v hv hle
    rcases (c.unitOf_grown unit).mp hv with ⟨hnew, _⟩ | hv
    · exact (keys v).mpr (Or.inl hnew)
    · exact (keys v).mpr (Or.inr (c.key hv (top ▸ hle)))
  · intro v
    by_cases hvu : v = u
    · subst hvu
      rw [free]
      refine List.nodup_append.mpr ⟨hn, c.nodup v, ?_⟩
      intro a ha b hb he
      have ha' := (hm a).mp ha
      have hb' := c.lt_next ((c.free v b).mp hb).1
      omega
    · have hv : freeOf r' v = freeOf r v := by unfold freeOf; rw [other v hvu]
      rw [hv]
      exact c.nodup v
  · intro v id
    unfold Idle
    rw [c.unitOf_grown unit, top]
    by_cases hvu : v = u
    · subst hvu
      rw [free, List.mem_append, hm, c.free v id]
      unfold Idle
      constructor
      · rintro (hin | ⟨hv, hle, hid⟩)
        · exact ⟨Or.inl ⟨rfl, hin⟩, hu, fun hid => by have := c.held_lt_next hid; omega⟩
        · exact ⟨Or.inr hv, hle, hid⟩
      · rintro ⟨⟨_, hin⟩ | hv, hle, hid⟩
        · exact Or.inl hin
        · exact Or.inr ⟨hv, hle, hid⟩
    · have hv : freeOf r' v = freeOf r v := by unfold freeOf; rw [other v hvu]
      rw [hv, c.free v id]
      unfold Idle
      refine and_congr_left fun _ => ⟨Or.inr, ?_⟩
      exact fun h => h.resolve_left fun hnew => hvu hnew.1
  · intro id v hv hlt
    rw [top] at hlt
    rcases (c.unitOf_grown unit).mp hv with ⟨rfl, _⟩ | hv
    · omega
    · exact c.exceed hv hlt
  · intro id hid
    rw [heap id, if_neg (by omega)]
    exact c.fresh (by omega)
  · intro v hv
    rw [top]
    rcases (keys v).mp hv with rfl | hv
    · exact hu
    · exact c.key_le hv
  · intro v hv
    by_cases hvu : v = u
    · exact hvu ▸ step
    · rw [other v hvu]
      exact c.step (((keys v).mp hv).resolve_left hvu)
  · intro v hv
    by_cases hvu : v = u
    · subst hvu
      rw [total, c.card_grown unit next]
    · rw [other v hvu, c.unitBlocks_other unit next hvu]
      exact c.total (((keys v).mp hv).resolve_left hvu)

end MemPool

end Ven
