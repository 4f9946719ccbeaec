import Ven.MemPoolRefs

namespace Ven

namespace MemPool

/-- Dropping one of several references, or the last one before the block is returned. -/
theorem Core.dropRef {r : Ram MemPool} {H : Multiset Nat} {id : Nat} {m : Mem}
    (c : Core r (id ::ₘ H)) (hm : r.heap id = some m) (hid : id ∈ H) :
    Core { r with heap := Function.update r.heap id (some { m with ref := m.ref - 1 }) } H := by
  have same := mem_cons_held hid
  refine c.retarget ?_ ?_ ?_ rfl rfl (fun _ => Iff.rfl) (fun _ => rfl) (fun _ => rfl) c.nodup ?_ ?_
  · exact fun k => unitOf_update hm rfl
  · intro k m' hm'
    by_cases hk : k = id
    · subst hk
      have he : m' = { m with ref := m.ref - 1 } := by simpa using hm'.symm
      have hr := c.ref_eq hm
      rw [Multiset.count_cons_self] at hr
      rw [he]
      exact Nat.sub_eq_of_eq_add hr
    · have hr := c.ref_eq (show r.heap k = some m' by simpa [hk] using hm')
      rwa [Multiset.count_cons_of_ne hk] at hr
  · exact fun hk => c.live ((same _).mpr hk)
  · intro u k
    have hfree := c.free u k
    rw [Idle, same k] at hfree
    exact hfree
  · exact fun hu hlt => (same _).mp (c.exceed hu hlt)

/-- The last reference to a pooled block is dropped: the block goes back to its free list. -/
theorem Core.putBack {r : Ram MemPool} {H : Multiset Nat} {id : Nat} {m : Mem}
    (c : Core r (id ::ₘ H)) (hm : r.heap id = some m) (hid : id ∉ H) (hle : m.unit ≤ r.pool.maxUnit) :
    Core (modify { r with heap := Function.update r.heap id (some { m with ref := 0 }) } m.unit
      fun mems => { mems with free := id :: mems.free }) H := by
  have hunit : unitOf r.heap id = some m.unit := unitOf_some.mpr ⟨m, hm, rfl⟩
  have hkey := c.key hunit hle
  have frees : ∀ v, freeOf (modify { r with heap := Function.update r.heap id (some { m with ref := 0 }) }
      m.unit fun mems => { mems with free := id :: mems.free }) v =
      if v = m.unit then id :: freeOf r v else freeOf r v := by
    intro v
    split
    next he => subst he; exact freeOf_modify_self _ _ _
    next hne => exact freeOf_modify_of_ne _ _ hne
  have absent : ∀ v, id ∉ freeOf r v := by
    intro v hv
    exact ((c.free v id).mp hv).2.2 (Multiset.mem_cons_self id H)
  have fields : ∀ v, ((modify { r with heap := Function.update r.heap id (some { m with ref := 0 }) }
      m.unit fun mems => { mems with free := id :: mems.free }).pool.map.val v).stepCnt =
        (r.pool.map.val v).stepCnt ∧
      ((modify { r with heap := Function.update r.heap id (some { m with ref := 0 }) }
      m.unit fun mems => { mems with free := id :: mems.free }).pool.map.val v).total =
        (r.pool.map.val v).total := by
    intro v
    by_cases h : v = m.unit
    · subst h
      simp [modify]
    · simp [modify, OrdMap.modify_val_of_ne _ _ h]
  refine c.retarget ?_ ?_ ?_ rfl rfl (modify_mem_keys hkey) (fun v => (fields v).1)
    (fun v => (fields v).2) ?_ ?_ ?_
  · exact fun k => unitOf_update hm rfl
  · intro k m' hm'
    by_cases hk : k = id
    · subst hk
      have he : m' = { m with ref := 0 } := by simpa [modify] using hm'.symm
      rw [he]
      exact (Multiset.count_eq_zero.mpr hid).symm
    · have hr := c.ref_eq (show r.heap k = some m' by simpa [modify, hk] using hm')
      rwa [Multiset.count_cons_of_ne hk] at hr
  · exact fun hk => c.live (Multiset.mem_cons_of_mem hk)
  · intro v
    rw [frees v]
    split
    next => exact List.nodup_cons.mpr ⟨absent v, c.nodup v⟩
    next => exact c.nodup v
  · intro v k
    have hfree := c.free v k
    rw [Idle, Multiset.mem_cons, not_or] at hfree
    rw [frees v, Idle]
    split
    next he =>
      subst he
      rw [List.mem_cons, hfree]
      constructor
      · rintro (rfl | ⟨ha, hb, _, hc⟩)
        · exact ⟨hunit, hle, hid⟩
        · exact ⟨ha, hb, hc⟩
      · rintro ⟨ha, hb, hc⟩
        by_cases hk : k = id
        · exact Or.inl hk
        · exact Or.inr ⟨ha, hb, hk, hc⟩
    next hne =>
      rw [hfree]
      constructor
      · rintro ⟨ha, hb, _, hc⟩
        exact ⟨ha, hb, hc⟩
      · rintro ⟨ha, hb, hc⟩
        refine ⟨ha, hb, ?_, hc⟩
        rintro rfl
        exact hne (Option.some.inj (ha.symm.trans hunit))
  · intro k u hu hlt
    apply (Multiset.mem_cons.mp (c.exceed hu hlt)).resolve_left
    rintro rfl
    have := Option.some.inj (hu.symm.trans hunit)
    omega

/-- The last reference to an oversized block is dropped: the block is deleted. -/
theorem Core.delete {r : Ram MemPool} {H : Multiset Nat} {id : Nat} {m : Mem}
    (c : Core r (id ::ₘ H)) (hm : r.heap id = some m) (hid : id ∉ H) (hlt : r.pool.maxUnit < m.unit) :
    Core { r with heap := Function.update r.heap id none } H := by
  have unit : ∀ {k u}, unitOf (Function.update r.heap id none) k = some u ↔
      k ≠ id ∧ unitOf r.heap k = some u := by
    intro k u
    by_cases hk : k = id
    · subst hk
      simp [unitOf]
    · simp [unitOf, hk]
  have hunit : unitOf r.heap id = some m.unit := unitOf_some.mpr ⟨m, hm, rfl⟩
  constructor
  · intro k m' hm'
    by_cases hk : k = id
    · subst hk
      simp at hm'
    · have hr := c.ref_eq (show r.heap k = some m' by simpa [hk] using hm')
      rwa [Multiset.count_cons_of_ne hk] at hr
  · intro k hk
    obtain ⟨m', hm'⟩ := c.live (Multiset.mem_cons_of_mem hk)
    have hne : k ≠ id := fun he => hid (he ▸ hk)
    exact ⟨m', by simpa [hne] using hm'⟩
  · exact fun hu hle => c.key (unit.mp hu).2 hle
  · exact c.nodup
  · intro u k
    apply (c.free u k).trans
    rw [Idle, Idle, Multiset.mem_cons, not_or, unit]
    constructor
    · rintro ⟨ha, hb, hc, hd⟩
      exact ⟨⟨hc, ha⟩, hb, hd⟩
    · rintro ⟨⟨hc, ha⟩, hb, hd⟩
      exact ⟨ha, hb, hc, hd⟩
  · intro k u hu hlt
    obtain ⟨hne, hu⟩ := unit.mp hu
    exact (Multiset.mem_cons.mp (c.exceed hu hlt)).resolve_left hne
  · intro k hk
    by_cases he : k = id
    · subst he
      simp
    · simpa [he] using c.fresh hk
  · exact c.key_le
  · exact c.step
  · intro u hu
    have blocks : unitBlocks { r with heap := Function.update r.heap id none } u = unitBlocks r u := by
      ext k
      rw [mem_unitBlocks, mem_unitBlocks, unit]
      constructor
      · rintro ⟨ha, _, hb⟩
        exact ⟨ha, hb⟩
      · rintro ⟨ha, hb⟩
        refine ⟨ha, ?_, hb⟩
        rintro rfl
        have := Option.some.inj (hb.symm.trans hunit)
        have := c.key_le hu
        omega
    rw [blocks]
    exact c.total hu

/-- A block larger than every unit is created with its first reference. -/
theorem Core.exceedNew {r : Ram MemPool} {H : Multiset Nat} {size : Nat} (c : Core r H)
    (hlt : r.pool.maxUnit < size) : Core ((newMem r size).2.addRef r.pool.next) (r.pool.next ::ₘ H) := by
  have heap : ((newMem r size).2.addRef r.pool.next).heap =
      Function.update r.heap r.pool.next (some ⟨size, 1, fun _ => 0⟩) := by
    simp [newMem, Ram.addRef, Heap.addRef]
  have unit : ∀ {k u}, unitOf ((newMem r size).2.addRef r.pool.next).heap k = some u ↔
      (k = r.pool.next ∧ size = u) ∨ unitOf r.heap k = some u := by
    intro k u
    rw [heap]
    by_cases hk : k = r.pool.next
    · subst hk
      simp [unitOf, c.fresh (Nat.le_refl r.pool.next)]
    · simp [unitOf, hk]
  have old : ∀ {k}, k ∈ H → k ≠ r.pool.next := fun hk => (c.held_lt_next hk).ne
  have stale : ∀ {k u}, unitOf r.heap k = some u → k ≠ r.pool.next := fun hu => (c.lt_next hu).ne
  constructor
  · intro k m hm
    rw [heap] at hm
    by_cases hk : k = r.pool.next
    · subst hk
      have he : m = ⟨size, 1, fun _ => 0⟩ := by simpa using hm.symm
      rw [he, Multiset.count_cons_self, Multiset.count_eq_zero.mpr (fun h => old h rfl)]
    · rw [Multiset.count_cons_of_ne hk]
      exact c.ref_eq (by simpa [hk] using hm)
  · intro k hk
    rw [heap]
    rcases Multiset.mem_cons.mp hk with rfl | hk
    · exact ⟨_, by simp; rfl⟩
    · obtain ⟨m, hm⟩ := c.live hk
      exact ⟨m, by simpa [old hk] using hm⟩
  · intro k u hu hle
    have hle' : u ≤ r.pool.maxUnit := hle
    rcases unit.mp hu with ⟨_, rfl⟩ | hu
    · omega
    · exact c.key hu hle
  · exact c.nodup
  · intro u k
    apply (c.free u k).trans
    rw [Idle, Idle, Multiset.mem_cons, not_or, unit]
    constructor
    · rintro ⟨ha, hb, hc⟩
      exact ⟨Or.inr ha, hb, stale ha, hc⟩
    · rintro ⟨ha, hb, hc, hd⟩
      exact ⟨ha.resolve_left fun h => hc h.1, hb, hd⟩
  · intro k u hu hlt
    rcases unit.mp hu with ⟨rfl, _⟩ | hu
    · exact Multiset.mem_cons_self _ _
    · exact Multiset.mem_cons_of_mem (c.exceed hu hlt)
  · intro k hk
    have hk' : r.pool.next + 1 ≤ k := hk
    rw [heap]
    simpa [show k ≠ r.pool.next by omega] using c.fresh (show r.pool.next ≤ k by omega)
  · exact c.key_le
  · exact c.step
  · intro u hu
    have blocks : unitBlocks ((newMem r size).2.addRef r.pool.next) u = unitBlocks r u := by
      ext k
      have hnext : ((newMem r size).2.addRef r.pool.next).pool.next = r.pool.next + 1 := rfl
      rw [mem_unitBlocks, mem_unitBlocks, unit, hnext]
      constructor
      · rintro ⟨ha, ⟨_, rfl⟩ | hb⟩
        · have := c.key_le hu
          omega
        · have := stale hb
          exact ⟨by omega, hb⟩
      · rintro ⟨ha, hb⟩
        exact ⟨by omega, Or.inr hb⟩
    rw [blocks]
    exact c.total hu

end MemPool

end Ven
