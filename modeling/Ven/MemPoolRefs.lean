import Ven.MemPoolInv

namespace Ven

namespace MemPool

/-- The pool invariant after a change of reference counts and free lists in which every block
keeps its unit. -/
theorem Core.retarget {r r' : Ram MemPool} {H H' : Multiset Nat} (c : Core r H)
    (unit : ∀ k, unitOf r'.heap k = unitOf r.heap k)
    (ref : ∀ {k m}, r'.heap k = some m → m.ref = H'.count k)
    (live : ∀ {k}, k ∈ H' → ∃ m, r.heap k = some m)
    (top : r'.pool.maxUnit = r.pool.maxUnit) (next : r'.pool.next = r.pool.next)
    (keys : ∀ x, x ∈ r'.pool.map.keys ↔ x ∈ r.pool.map.keys)
    (step : ∀ u, (r'.pool.map.val u).stepCnt = (r.pool.map.val u).stepCnt)
    (total : ∀ u, (r'.pool.map.val u).total = (r.pool.map.val u).total)
    (nodup : ∀ u, (freeOf r' u).Nodup)
    (free : ∀ u k, k ∈ freeOf r' u ↔ Idle r H' u k)
    (exceed : ∀ {k u}, unitOf r.heap k = some u → r.pool.maxUnit < u → k ∈ H') : Core r' H' := by
  have blocks : ∀ u, unitBlocks r' u = unitBlocks r u := by
    intro u
    ext k
    rw [mem_unitBlocks, mem_unitBlocks, next, unit k]
  have alive : ∀ k, (∃ m, r.heap k = some m) → ∃ m, r'.heap k = some m := by
    rintro k ⟨m, hm⟩
    obtain ⟨m', hm', _⟩ := unitOf_some.mp ((unit k).trans (unitOf_some.mpr ⟨m, hm, rfl⟩))
    exact ⟨m', hm'⟩
  constructor
  · exact ref
  · exact fun hk => alive _ (live hk)
  · intro k u hu hle
    exact (keys u).mpr (c.key ((unit k).symm.trans hu) (top ▸ hle))
  · exact nodup
  · intro u k
    rw [free u k, Idle, Idle, unit k, top]
  · intro k u hu hlt
    exact exceed ((unit k).symm.trans hu) (top ▸ hlt)
  · intro k hk
    rw [next] at hk
    cases hm : r'.heap k with
    | none => rfl
    | some m =>
      have hu := (unit k).symm.trans (unitOf_some.mpr ⟨m, hm, rfl⟩)
      rw [unitOf, c.fresh hk] at hu
      cases hu
  · intro u hu
    rw [top]
    exact c.key_le ((keys u).mp hu)
  · intro u hu
    rw [step u]
    exact c.step ((keys u).mp hu)
  · intro u hu
    rw [total u, blocks u]
    exact c.total ((keys u).mp hu)

theorem unitOf_update {h : Heap} {id k : Nat} {m m' : Mem} (hm : h id = some m)
    (hu : m'.unit = m.unit) : unitOf (Function.update h id (some m')) k = unitOf h k := by
  by_cases hk : k = id
  · subst hk
    simp [unitOf, hm, hu]
  · simp [unitOf, hk]

/-- One more reference to a block that is held. -/
theorem mem_cons_held {H : Multiset Nat} {id : Nat} (hid : id ∈ H) (k : Nat) : k ∈ id ::ₘ H ↔ k ∈ H := by
  rw [Multiset.mem_cons]
  exact ⟨fun h => h.elim (fun he => he ▸ hid) (fun h => h), Or.inr⟩

theorem Core.addRef {r : Ram MemPool} {H : Multiset Nat} {id : Nat} (c : Core r H) (hid : id ∈ H) :
    Core (r.addRef id) (id ::ₘ H) := by
  obtain ⟨m, hm⟩ := c.live hid
  have heap : (r.addRef id).heap = Function.update r.heap id (some { m with ref := m.ref + 1 }) := by
    simp [Ram.addRef, Heap.addRef, hm]
  have same := mem_cons_held hid
  refine c.retarget ?_ ?_ ?_ rfl rfl (fun _ => Iff.rfl) (fun _ => rfl) (fun _ => rfl) c.nodup ?_ ?_
  · intro k
    rw [heap]
    exact unitOf_update hm rfl
  · intro k m' hm'
    rw [heap] at hm'
    by_cases hk : k = id
    · subst hk
      have he : m' = { m with ref := m.ref + 1 } := by simpa using hm'.symm
      rw [he, Multiset.count_cons_self, c.ref_eq hm]
    · rw [Multiset.count_cons_of_ne hk]
      exact c.ref_eq (by simpa [hk] using hm')
  · exact fun hk => c.live ((same _).mp hk)
  · intro u k
    rw [show freeOf (r.addRef id) u = freeOf r u from rfl, c.free u k, Idle, Idle, same k]
  · exact fun hu hlt => (same _).mpr (c.exceed hu hlt)

theorem Core.store {r : Ram MemPool} {H : Multiset Nat} {id : Nat} (c : Core r H) (pos : Nat)
    (data : List UInt8) (hid : id ∈ H) : Core (r.store id pos data) H := by
  obtain ⟨m, hm⟩ := c.live hid
  have heap : (r.store id pos data).heap =
      Function.update r.heap id (some { m with bytes := Bytes.writeAt m.bytes pos data }) := by
    simp [Ram.store, Heap.store, hm]
  refine c.retarget ?_ ?_ c.live rfl rfl (fun _ => Iff.rfl) (fun _ => rfl) (fun _ => rfl) c.nodup
    c.free c.exceed
  · intro k
    rw [heap]
    exact unitOf_update hm rfl
  · intro k m' hm'
    rw [heap] at hm'
    by_cases hk : k = id
    · subst hk
      have he : m' = { m with bytes := Bytes.writeAt m.bytes pos data } := by simpa using hm'.symm
      have hr : m.ref = H.count k := c.ref_eq hm
      rw [he]
      exact hr
    · exact c.ref_eq (by simpa [hk] using hm')

theorem modify_mem_keys {r : Ram MemPool} {u : Nat} {f : Mems → Mems}
    (hu : u ∈ r.pool.map.keys) (x : Nat) :
    x ∈ (modify r u f).pool.map.keys ↔ x ∈ r.pool.map.keys := by
  have h : x ∈ (r.pool.map.modify u f).keys ↔ x = u ∨ x ∈ r.pool.map.keys := OrdMap.mem_modify_keys
  exact h.trans ⟨fun h => h.elim (fun he => he ▸ hu) (fun h => h), Or.inr⟩

theorem freeOf_modify_self (r : Ram MemPool) (u : Nat) (f : Mems → Mems) :
    freeOf (modify r u f) u = (f (r.pool.map.val u)).free := by
  simp [freeOf, modify]

theorem freeOf_modify_of_ne (r : Ram MemPool) {u v : Nat} (f : Mems → Mems) (h : v ≠ u) :
    freeOf (modify r u f) v = freeOf r v := by
  simp [freeOf, modify, OrdMap.modify_val_of_ne _ f h]

/-- Changing a free list touches no other figure of any unit. -/
theorem modify_free_fields (r : Ram MemPool) (u : Nat) (l : List Nat) (v : Nat) :
    ((modify r u fun mems => { mems with free := l }).pool.map.val v).stepCnt =
        (r.pool.map.val v).stepCnt ∧
      ((modify r u fun mems => { mems with free := l }).pool.map.val v).total =
        (r.pool.map.val v).total := by
  by_cases h : v = u
  · subst h
    simp [modify]
  · simp [modify, OrdMap.modify_val_of_ne _ _ h]

/-- Taking the first free block out and giving it its first reference. -/
theorem Core.take {r : Ram MemPool} {H : Multiset Nat} {u id : Nat} {rest : List Nat}
    (c : Core r H) (hf : freeOf r u = id :: rest) :
    unitOf r.heap id = some u ∧ id ∉ H ∧
      Core ((modify r u fun mems => { mems with free := rest }).addRef id) (id ::ₘ H) := by
  obtain ⟨hunit, hle, hid⟩ := (c.free u id).mp (by rw [hf]; exact List.mem_cons_self)
  obtain ⟨m, hm, hmu⟩ := unitOf_some.mp hunit
  have hkey := c.key hunit hle
  have hzero : m.ref = 0 := (c.ref_eq hm).trans (Multiset.count_eq_zero.mpr hid)
  have hnodup := c.nodup u
  rw [hf] at hnodup
  have heap : ((modify r u fun mems => { mems with free := rest }).addRef id).heap =
      Function.update r.heap id (some { m with ref := m.ref + 1 }) := by
    simp [Ram.addRef, Heap.addRef, modify, hm]
  have frees : ∀ v, freeOf ((modify r u fun mems => { mems with free := rest }).addRef id) v =
      if v = u then rest else freeOf r v := by
    intro v
    split
    next he => subst he; exact freeOf_modify_self r v _
    next hne => exact freeOf_modify_of_ne r _ hne
  refine ⟨hunit, hid, ?_⟩
  refine c.retarget ?_ ?_ ?_ rfl rfl (modify_mem_keys hkey)
    (fun v => (modify_free_fields r u rest v).1) (fun v => (modify_free_fields r u rest v).2) ?_ ?_ ?_
  · intro k
    rw [heap]
    exact unitOf_update hm rfl
  · intro k m' hm'
    rw [heap] at hm'
    by_cases hk : k = id
    · subst hk
      have he : m' = { m with ref := m.ref + 1 } := by simpa using hm'.symm
      rw [he, Multiset.count_cons_self, c.ref_eq hm]
    · rw [Multiset.count_cons_of_ne hk]
      exact c.ref_eq (by simpa [hk] using hm')
  · intro k hk
    rcases Multiset.mem_cons.mp hk with rfl | hk
    · exact ⟨m, hm⟩
    · exact c.live hk
  · intro v
    rw [frees v]
    split
    next => exact (List.nodup_cons.mp hnodup).2
    next => exact c.nodup v
  · intro v k
    rw [frees v, Idle, Multiset.mem_cons, not_or]
    split
    next he =>
      subst he
      have hmem := c.free v k
      rw [hf, List.mem_cons, Idle] at hmem
      have hne : k ∈ rest → k ≠ id := fun hk he => (List.nodup_cons.mp hnodup).1 (he ▸ hk)
      constructor
      · intro hk
        obtain ⟨ha, hb, hc⟩ := hmem.mp (Or.inr hk)
        exact ⟨ha, hb, hne hk, hc⟩
      · rintro ⟨ha, hb, hk, hc⟩
        exact (hmem.mpr ⟨ha, hb, hc⟩).resolve_left hk
    next hne =>
      rw [c.free v k, Idle]
      constructor
      · rintro ⟨ha, hb, hc⟩
        refine ⟨ha, hb, ?_, hc⟩
        rintro rfl
        exact hne (Option.some.inj (ha.symm.trans hunit))
      · rintro ⟨ha, hb, _, hc⟩
        exact ⟨ha, hb, hc⟩
  · exact fun hu hlt => Multiset.mem_cons_of_mem (c.exceed hu hlt)

end MemPool

end Ven
