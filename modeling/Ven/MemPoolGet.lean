import Ven.MemPoolContract

namespace Ven

namespace MemPool

/-- Of the blocks `born` earlier only oversized ones may be gone. -/
def Kept (born : Nat → Option Nat) (r : Ram MemPool) : Prop :=
  ∀ k u, born k = some u → k < r.pool.next ∧
    (unitOf r.heap k = some u ∨ (unitOf r.heap k = none ∧ r.pool.maxUnit < u))

/-- The invariant of a pool configured with `units`. -/
structure Inv (units : List Nat) (born : Nat → Option Nat) (r : Ram MemPool) (H : Multiset Nat) :
    Prop where
  core : Core r H
  keys : ∀ x, x ∈ r.pool.map.keys ↔ x ∈ units
  top : r.pool.maxUnit ∈ units
  kept : Kept born r

variable {units : List Nat} {born : Nat → Option Nat}

theorem Kept.of_same {r r' : Ram MemPool} (h : Kept born r)
    (next : r.pool.next ≤ r'.pool.next) (top : r'.pool.maxUnit = r.pool.maxUnit)
    (unit : ∀ k, k < r.pool.next → unitOf r'.heap k = unitOf r.heap k) : Kept born r' := by
  intro k u hk
  obtain ⟨hlt, h⟩ := h k u hk
  rw [unit k hlt, top]
  exact ⟨by omega, h⟩

theorem Core.incMem_spec {r : Ram MemPool} {H : Multiset Nat} {u : Nat} (c : Core r H)
    (hu : u ∈ r.pool.map.keys) :
    Core (incMem r u) H ∧ freeOf (incMem r u) u ≠ [] ∧
      (incMem r u).pool.maxUnit = r.pool.maxUnit ∧ r.pool.next ≤ (incMem r u).pool.next ∧
      (∀ x, x ∈ (incMem r u).pool.map.keys ↔ x ∈ r.pool.map.keys) ∧
      ∀ k, k < r.pool.next → (incMem r u).heap k = r.heap k := by
  let r₁ := modify r u fun mems => { mems with total := mems.total + (r.pool.map.val u).stepCnt }
  obtain ⟨ids, hl, hn, hm, hp, hh⟩ := pushNew_spec u (r.pool.map.val u).stepCnt [] r₁
  have hstep := c.step hu
  have pool : (incMem r u).pool.map =
      r₁.pool.map.modify u fun mems => { mems with free := ids ++ mems.free } := by
    change ((pushNew u (r.pool.map.val u).stepCnt [] r₁).2.pool.map.modify u fun mems =>
      { mems with free := (pushNew u (r.pool.map.val u).stepCnt [] r₁).1 ++ mems.free }) = _
    rw [hp, hl, List.append_nil]
  have rest : (incMem r u).pool.next = r.pool.next + (r.pool.map.val u).stepCnt ∧
      (incMem r u).pool.maxUnit = r.pool.maxUnit := by
    change (pushNew u (r.pool.map.val u).stepCnt [] r₁).2.pool.next = _ ∧
      (pushNew u (r.pool.map.val u).stepCnt [] r₁).2.pool.maxUnit = _
    rw [hp]
    exact ⟨rfl, rfl⟩
  have keys : ∀ x, x ∈ (incMem r u).pool.map.keys ↔ x = u ∨ x ∈ r.pool.map.keys := by
    intro x
    have first : x ∈ r₁.pool.map.keys ↔ x = u ∨ x ∈ r.pool.map.keys := OrdMap.mem_modify_keys
    rw [pool, OrdMap.mem_modify_keys, first]
    exact ⟨fun h => h.elim Or.inl (fun h => h), Or.inr⟩
  have same : ∀ x, x ∈ (incMem r u).pool.map.keys ↔ x ∈ r.pool.map.keys := by
    intro x
    rw [keys x]
    exact ⟨fun h => h.elim (fun he => he ▸ hu) (fun h => h), Or.inr⟩
  have own : (incMem r u).pool.map.val u =
      { r.pool.map.val u with free := ids ++ freeOf r u,
                              total := (r.pool.map.val u).total + (r.pool.map.val u).stepCnt } := by
    rw [pool]
    simp [r₁, modify, freeOf]
  have free : freeOf (incMem r u) u = ids ++ freeOf r u := by
    unfold freeOf
    rw [own]
    rfl
  have heap : ∀ id, (incMem r u).heap id =
      if r.pool.next ≤ id ∧ id < r.pool.next + (r.pool.map.val u).stepCnt then
        some ⟨u, 0, fun _ => 0⟩ else r.heap id := hh
  refine ⟨?_, ?_, rest.2, rest.1 ▸ Nat.le_add_right _ _, same, ?_⟩
  · refine c.grow (c.key_le hu) hn hm heap rest.1 rest.2 keys ?_ free ?_ ?_
    · intro v hv
      rw [pool]
      simp [r₁, modify, OrdMap.modify_val_of_ne _ _ hv]
    · rw [own]
      exact hstep
    · rw [own, ← c.total hu]
  · rw [free]
    have hmem : r.pool.next ∈ ids :=
      (hm r.pool.next).mpr ⟨Nat.le_refl _, Nat.lt_add_of_pos_right hstep⟩
    intro he
    rw [(List.append_eq_nil_iff.mp he).1] at hmem
    cases hmem
  · intro k hk
    rw [heap k, if_neg]
    rintro ⟨hle, _⟩
    omega

/-- Taking a block out of a free list that is not empty. -/
theorem Inv.popFree_spec {r : Ram MemPool} {H : Multiset Nat} {u : Nat}
    (i : Inv units born r H) (hu : u ∈ r.pool.map.keys) (hf : freeOf r u ≠ []) :
    ∃ id r' m, popFree r u = (some id, r') ∧ Buf.ofMem r' (some id) = (⟨some id, 0, u⟩, r'.addRef id) ∧
      id ∉ H ∧ (r'.addRef id).heap id = some m ∧ m.unit = u ∧
      Inv units born (r'.addRef id) (id ::ₘ H) ∧ ∀ k ∈ H, (r'.addRef id).heap k = r.heap k := by
  obtain ⟨id, rest, he⟩ := List.exists_cons_of_ne_nil hf
  obtain ⟨hunit, hid, hc⟩ := i.core.take he
  obtain ⟨m, hm, hmu⟩ := unitOf_some.mp hunit
  let r' := modify r u fun mems => { mems with free := rest }
  have hpop : popFree r u = (some id, r') := by
    unfold popFree
    rw [show (r.pool.map.val u).free = id :: rest from he]
  have hm' : r'.heap id = some m := hm
  refine ⟨id, r', { m with ref := m.ref + 1 }, hpop, ?_, hid, Heap.addRef_self hm', hmu,
    ⟨hc, ?_, i.top, ?_⟩, ?_⟩
  · simp [Buf.ofMem, hm', hmu]
  · exact fun x => (modify_mem_keys hu x).trans (i.keys x)
  · refine i.kept.of_same (Nat.le_refl _) rfl fun k _ => ?_
    have hheap : (r'.addRef id).heap = Function.update r.heap id (some { m with ref := m.ref + 1 }) := by
      simp [Ram.addRef, Heap.addRef, r', modify, hm]
    rw [hheap]
    exact unitOf_update hm rfl
  · intro k hk
    exact Heap.addRef_of_ne r'.heap (fun h => hid (h ▸ hk))

/-- The unit of the block that `get(size)` must return. -/
def UnitFor (units : List Nat) (size unit : Nat) : Prop :=
  if ∃ u ∈ units, size ≤ u then unit ∈ units ∧ size ≤ unit ∧ ∀ v ∈ units, size ≤ v → unit ≤ v
  else unit = size

theorem Inv.top_max {r : Ram MemPool} {H : Multiset Nat} (i : Inv units born r H) {size : Nat} :
    (∃ u ∈ units, size ≤ u) ↔ size ≤ r.pool.maxUnit := by
  constructor
  · rintro ⟨u, hu, hle⟩
    exact hle.trans (i.core.key_le ((i.keys u).mpr hu))
  · exact fun h => ⟨_, i.top, h⟩

theorem Inv.get_spec {r : Ram MemPool} {H : Multiset Nat} (i : Inv units born r H) (size : Nat) :
    ∃ id m, (get r size).1 = ⟨some id, 0, m.unit⟩ ∧ id ∉ H ∧ (get r size).2.heap id = some m ∧
      UnitFor units size m.unit ∧ Inv units born (get r size).2 (id ::ₘ H) ∧
      ∀ k ∈ H, (get r size).2.heap k = r.heap k := by
  have live : ∀ {k}, k ∈ H → k ≠ r.pool.next := by
    rintro k hk rfl
    obtain ⟨m, hm⟩ := i.core.live hk
    rw [i.core.fresh (Nat.le_refl _)] at hm
    cases hm
  by_cases big : r.pool.maxUnit < size
  · have hm : (newMem r size).2.heap r.pool.next = some ⟨size, 0, fun _ => 0⟩ := by simp [newMem]
    have he : get r size = (⟨some r.pool.next, 0, size⟩, (newMem r size).2.addRef r.pool.next) := by
      unfold get
      rw [if_pos big]
      simp only [show (newMem r size).1 = r.pool.next from rfl, Buf.ofMem, hm]
    have frame : ∀ k, k ≠ r.pool.next → ((newMem r size).2.addRef r.pool.next).heap k = r.heap k :=
      fun k hk => (Heap.addRef_of_ne _ hk).trans (Function.update_of_ne hk _ _)
    rw [he]
    refine ⟨r.pool.next, ⟨size, 1, fun _ => 0⟩, rfl, fun h => live h rfl, ?_, ?_, ?_, ?_⟩
    · exact Heap.addRef_self hm
    · rw [UnitFor, if_neg (fun h => Nat.not_le_of_lt big (i.top_max.mp h))]
    · refine ⟨i.core.exceedNew big, i.keys, i.top, i.kept.of_same (Nat.le_succ _) rfl fun k hk => ?_⟩
      rw [unitOf, frame k (Nat.ne_of_lt hk), unitOf]
    · exact fun k hk => frame k (live hk)
  · obtain ⟨u, hu⟩ := OrdMap.lowerBound_exists ((i.keys _).mpr i.top) (Nat.le_of_not_lt big)
    obtain ⟨hkey, hle, hleast⟩ := OrdMap.lowerBound_spec hu
    have hfor : UnitFor units size u := by
      rw [UnitFor, if_pos (i.top_max.mpr (Nat.le_of_not_lt big))]
      exact ⟨(i.keys u).mp hkey, hle, fun v hv => hleast v ((i.keys v).mpr hv)⟩
    by_cases hf : freeOf r u = []
    · obtain ⟨hc, hne, htop, hnext, hkeys, hsame⟩ := i.core.incMem_spec hkey
      have hi : Inv units born (incMem r u) H := by
        refine ⟨hc, fun x => (hkeys x).trans (i.keys x), htop ▸ i.top,
          i.kept.of_same hnext htop fun k hk => ?_⟩
        rw [unitOf, hsame k hk, unitOf]
      obtain ⟨id, r', m, hpop, hbuf, hid, hm, hmu, hinv, hframe⟩ := hi.popFree_spec ((hkeys u).mpr hkey) hne
      have he : get r size = (⟨some id, 0, u⟩, r'.addRef id) := by
        have hnone : popFree r u = (none, r) := by
          unfold popFree
          rw [show (r.pool.map.val u).free = [] from hf]
        unfold get
        simp only [if_neg big, hu, hnone, hpop, hbuf]
      rw [he]
      refine ⟨id, m, by rw [hmu], hid, hm, hmu ▸ hfor, hinv, fun k hk => ?_⟩
      obtain ⟨n, hn⟩ := i.core.live hk
      exact (hframe k hk).trans (hsame k (i.core.lt_next (unitOf_some.mpr ⟨n, hn, rfl⟩)))
    · obtain ⟨id, r', m, hpop, hbuf, hid, hm, hmu, hinv, hframe⟩ := i.popFree_spec hkey hf
      have he : get r size = (⟨some id, 0, u⟩, r'.addRef id) := by
        unfold get
        simp only [if_neg big, hu, hpop, hbuf]
      rw [he]
      exact ⟨id, m, by rw [hmu], hid, hm, hmu ▸ hfor, hinv, hframe⟩

theorem UnitFor.le {size unit : Nat} (h : UnitFor units size unit) : size ≤ unit := by
  unfold UnitFor at h
  split at h
  next => exact h.2.1
  next => omega

theorem Inv.relRef_spec {r : Ram MemPool} {H : Multiset Nat} {id : Nat}
    (i : Inv units born r (id ::ₘ H)) : Inv units born (memPool.relRef r id) H ∧
      ∀ k ∈ H, SameBlock r.heap (memPool.relRef r id).heap k := by
  obtain ⟨m, hm⟩ := i.core.live (Multiset.mem_cons_self id H)
  have href := i.core.ref_eq hm
  rw [Multiset.count_cons_self] at href
  have hpred : pred32 m.ref = m.ref - 1 := pred32_of_pos (by omega)
  let r₁ : Ram MemPool := { r with heap := Function.update r.heap id (some { m with ref := m.ref - 1 }) }
  have hr₁ : r₁.heap id = some { m with ref := m.ref - 1 } := by simp [r₁]
  have others : ∀ k ∈ H, k ≠ id → r₁.heap k = r.heap k := fun k _ hne => Function.update_of_ne hne _ _
  have hrel : memPool.relRef r id = if m.ref - 1 = 0 then ret r₁ id else r₁ := by
    simp only [IMemPool.relRef, hm, hpred]
    rfl
  by_cases hid : id ∈ H
  · have hpos : m.ref - 1 ≠ 0 := by
      have := Multiset.count_pos.mpr hid
      omega
    rw [hrel, if_neg hpos]
    refine ⟨⟨i.core.dropRef hm hid, i.keys, i.top, ?_⟩, ?_⟩
    · exact i.kept.of_same (Nat.le_refl _) rfl fun k _ => unitOf_update hm rfl
    intro k hk
    by_cases hne : k = id
    · subst hne
      exact ⟨m, _, hm, hr₁, rfl, rfl⟩
    · obtain ⟨n, hn⟩ := i.core.live (Multiset.mem_cons_of_mem hk)
      exact SameBlock.of_eq hn (others k hk hne)
  · have hzero : m.ref - 1 = 0 := by
      have := Multiset.count_eq_zero.mpr hid
      omega
    have frame : ∀ k ∈ H, k ≠ id := fun k hk he => hid (he ▸ hk)
    rw [hrel, if_pos hzero]
    by_cases hlt : r.pool.maxUnit < m.unit
    · have he : ret r₁ id = { r with heap := Function.update r.heap id none } := by
        simp only [ret, hr₁]
        rw [if_pos hlt]
        simp [delMem, r₁]
      rw [he]
      refine ⟨⟨i.core.delete hm hid hlt, i.keys, i.top, ?_⟩, ?_⟩
      · intro k u hk
        obtain ⟨hlt', h⟩ := i.kept k u hk
        refine ⟨hlt', ?_⟩
        by_cases hne : k = id
        · subst hne
          have gone : Function.update r.heap k none k = none := Function.update_self k none r.heap
          refine Or.inr ⟨congrArg (Option.map Mem.unit) gone, ?_⟩
          rcases h with h | ⟨_, h⟩
          · exact (Option.some.inj (h.symm.trans (unitOf_some.mpr ⟨m, hm, rfl⟩))) ▸ hlt
          · exact h
        · have heap : Function.update r.heap id none k = r.heap k := Function.update_of_ne hne _ _
          have hu : unitOf (Function.update r.heap id none) k = unitOf r.heap k :=
            congrArg (Option.map Mem.unit) heap
          exact h.imp hu.trans (And.imp_left hu.trans)
      intro k hk
      obtain ⟨n, hn⟩ := i.core.live (Multiset.mem_cons_of_mem hk)
      exact SameBlock.of_eq hn (Function.update_of_ne (frame k hk) _ _)
    · have hle := Nat.le_of_not_lt hlt
      have hkey := i.core.key (unitOf_some.mpr ⟨m, hm, rfl⟩) hle
      have he : ret r₁ id = modify { r with heap := Function.update r.heap id (some { m with ref := 0 }) }
          m.unit fun mems => { mems with free := id :: mems.free } := by
        simp only [ret, hr₁]
        rw [if_neg (show ¬ r₁.pool.maxUnit < m.unit from hlt)]
        simp only [r₁, hzero]
      rw [he]
      refine ⟨⟨i.core.putBack hm hid hle, ?_, i.top, ?_⟩, ?_⟩
      · exact fun x => (modify_mem_keys hkey x).trans (i.keys x)
      · exact i.kept.of_same (Nat.le_refl _) rfl fun k _ => unitOf_update hm rfl
      intro k hk
      obtain ⟨n, hn⟩ := i.core.live (Multiset.mem_cons_of_mem hk)
      exact SameBlock.of_eq hn (Function.update_of_ne (frame k hk) _ _)

end MemPool

/-- `MemPool` keeps what a memory pool promises. -/
def memPool_contract (units : List Nat) (born : Nat → Option Nat) : PoolContract memPool where
  Inv := MemPool.Inv units born
  ref_eq := fun i hm => i.core.ref_eq hm
  live := fun i hid => i.core.live hid
  get := fun size i => by
    obtain ⟨id, m, hb, hid, hm, hfor, hinv, hframe⟩ := i.get_spec size
    exact ⟨id, m, hb, hid, hm, hfor.le, hinv, hframe⟩
  addRef := fun i hid => by
    obtain ⟨m, hm⟩ := i.core.live hid
    refine ⟨i.core.addRef hid, i.keys, i.top, i.kept.of_same (Nat.le_refl _) rfl fun k _ => ?_⟩
    simp only [Ram.addRef, Heap.addRef, hm]
    exact MemPool.unitOf_update hm rfl
  relRef := fun i => i.relRef_spec
  store := fun pos data i hid => by
    obtain ⟨m, hm⟩ := i.core.live hid
    refine ⟨i.core.store pos data hid, i.keys, i.top, i.kept.of_same (Nat.le_refl _) rfl fun k _ => ?_⟩
    simp only [Ram.store, Heap.store, hm]
    exact MemPool.unitOf_update hm rfl

end Ven
