import Ven.MemPoolRuns

namespace Ven

namespace MemPool

/-- The blocks of a unit that somebody holds. -/
def heldBlocks (r : Ram MemPool) (unit : Nat) : Finset Nat :=
  (unitBlocks r unit).filter fun id => 0 < ((r.heap id).map Mem.ref).getD 0

theorem Inv.free_count {units : List Nat} {born : Nat → Option Nat} {r : Ram MemPool}
    {H : Multiset Nat} (i : Inv units born r H) {id : Nat} {m : Mem} (hm : r.heap id = some m)
    (u : Nat) : (freeOf r u).count id = if u = m.unit ∧ u ∈ units ∧ m.ref = 0 then 1 else 0 := by
  have hmem := i.core.free u id
  have hunit : unitOf r.heap id = some u ↔ u = m.unit := by
    rw [unitOf, hm]
    exact ⟨fun h => (Option.some.inj h).symm, fun h => h ▸ rfl⟩
  have hzero : id ∉ H ↔ m.ref = 0 := by rw [i.core.ref_eq hm, Multiset.count_eq_zero]
  split
  next h =>
    obtain ⟨hu, hk, hz⟩ := h
    have hle := i.core.key_le ((i.keys u).mpr hk)
    exact List.count_eq_one_of_mem (i.core.nodup u) (hmem.mpr ⟨hunit.mpr hu, hle, hzero.mpr hz⟩)
  next h =>
    apply List.count_eq_zero.mpr
    intro hf
    obtain ⟨ha, hb, hc⟩ := hmem.mp hf
    exact h ⟨hunit.mp ha, (i.keys u).mp (i.core.key ha hb), hzero.mp hc⟩

theorem Inv.exceed_held {units : List Nat} {born : Nat → Option Nat} {r : Ram MemPool}
    {H : Multiset Nat} (i : Inv units born r H) {id : Nat} {m : Mem} (hm : r.heap id = some m)
    (hu : m.unit ∉ units) : id ∈ H := by
  refine i.core.exceed (unitOf_some.mpr ⟨m, hm, rfl⟩) ?_
  by_contra hle
  exact hu ((i.keys _).mp (i.core.key (unitOf_some.mpr ⟨m, hm, rfl⟩) (Nat.le_of_not_lt hle)))

/-- Every block of a unit is free or held. -/
theorem Inv.total_eq {units : List Nat} {born : Nat → Option Nat} {r : Ram MemPool}
    {H : Multiset Nat} (i : Inv units born r H) {u : Nat} (hu : u ∈ units) :
    (r.pool.map.val u).total = (freeOf r u).length + (heldBlocks r u).card := by
  have hkey := (i.keys u).mpr hu
  have idle : (unitBlocks r u).filter (fun id => ¬ 0 < ((r.heap id).map Mem.ref).getD 0) =
      (freeOf r u).toFinset := by
    ext id
    rw [Finset.mem_filter, mem_unitBlocks, List.mem_toFinset, i.core.free u id, Idle]
    constructor
    · rintro ⟨⟨_, hunit⟩, hz⟩
      obtain ⟨m, hm, _⟩ := unitOf_some.mp hunit
      refine ⟨hunit, i.core.key_le hkey, ?_⟩
      rw [← Multiset.count_eq_zero, ← i.core.ref_eq hm]
      simpa [hm] using hz
    · rintro ⟨hunit, _, hz⟩
      obtain ⟨m, hm, _⟩ := unitOf_some.mp hunit
      refine ⟨⟨i.core.lt_next hunit, hunit⟩, ?_⟩
      rw [← Multiset.count_eq_zero, ← i.core.ref_eq hm] at hz
      simp [hm, hz]
  have halves := Finset.card_filter_add_card_filter_not (s := unitBlocks r u)
    (fun id => 0 < ((r.heap id).map Mem.ref).getD 0)
  rw [idle, List.toFinset_card_of_nodup (i.core.nodup u)] at halves
  rw [i.core.total hkey, ← halves, heldBlocks, Nat.add_comm]

end MemPool

open MemPool

/-- A step never loses a pooled block, and loses an oversized one exactly with its last holder. -/
theorem bufVars_step_deletes {units : List Nat} {s s' : BufVars MemPool} {op : BufOp}
    (i : Inv units (fun _ => none) s.ram s.holders) (hs : s.step memPool op = some s') {id : Nat}
    {m : Mem} (hm : s.ram.heap id = some m) :
    s'.ram.heap id = none ↔ m.unit ∉ units ∧ s'.holders.count id = 0 := by
  have hunit : unitOf s.ram.heap id = some m.unit := unitOf_some.mpr ⟨m, hm, rfl⟩
  have start : Inv units (unitOf s.ram.heap) s.ram s.holders :=
    ⟨i.core, i.keys, i.top, fun k u hk => ⟨i.core.lt_next hk, Or.inl hk⟩⟩
  have i' : Inv units (unitOf s.ram.heap) s'.ram s'.holders :=
    bufVars_step_inv (memPool_contract units _) start hs
  have kept := (i'.kept id m.unit hunit).2
  constructor
  · intro gone
    have hnone : unitOf s'.ram.heap id = none := by rw [unitOf, gone]; rfl
    refine ⟨?_, Multiset.count_eq_zero.mpr fun hid => ?_⟩
    · intro hk
      rcases kept with kept | ⟨_, hlt⟩
      · rw [hnone] at kept
        cases kept
      · have := i'.core.key_le ((i'.keys _).mpr hk)
        omega
    · obtain ⟨m', hm'⟩ := i'.core.live hid
      rw [gone] at hm'
      cases hm'
  · rintro ⟨hk, hz⟩
    cases hm' : s'.ram.heap id with
    | none => rfl
    | some m' =>
      rcases kept with kept | ⟨kept, _⟩
      · have hu : m'.unit = m.unit := by
          rw [unitOf, hm'] at kept
          exact Option.some.inj kept
        exact absurd (i'.exceed_held hm' (hu ▸ hk)) (Multiset.count_eq_zero.mp hz)
      · rw [unitOf, hm'] at kept
        cases kept

end Ven
