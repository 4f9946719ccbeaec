import Ven.MemPoolOwners

namespace Ven

namespace MemPool

/-- `ref_` and `total_` are `uint32_t`s. -/
def stored (r : Ram MemPool) : Ram MemPool :=
  r.pool.map.keys.foldl (fun r u => modify r u fun mems => { mems with total := u32 mems.total })
    { r with heap := r.heap.stored }

end MemPool

def BufVars.stored (s : BufVars MemPool) : BufVars MemPool := { s with ram := MemPool.stored s.ram }

open MemPool

/-- One operation, with the counters in 32 bits afterwards. -/
def poolStep : BufVars MemPool → BufOp → Option (BufVars MemPool) := Machine.stored (BufVars.step memPool) BufVars.stored

/-- A program before its first operation, on a pool configured with `conf`. -/
def poolStart (conf : MemPoolConf) : BufVars MemPool := ⟨MemPool.init conf, [], []⟩

/-- No block has 2^32 holders, and no unit 2^32 blocks. -/
structure BufVars.Countable (s : BufVars MemPool) : Prop where
  ref : ∀ id, s.holders.count id < 4294967296
  total : ∀ u, (unitBlocks s.ram u).card < 4294967296

namespace MemPool

theorem stored_keeps (r : Ram MemPool) : (stored r).heap = r.heap.stored ∧ (stored r).pool.next = r.pool.next := by
  have keep : ∀ (us : List Nat) (q : Ram MemPool),
      (us.foldl (fun r u => modify r u fun mems => { mems with total := u32 mems.total }) q).heap = q.heap ∧
      (us.foldl (fun r u => modify r u fun mems => { mems with total := u32 mems.total }) q).pool.next = q.pool.next := by
    intro us
    induction us with
    | nil => exact fun _ => ⟨rfl, rfl⟩
    | cons u us ih => exact fun q => ih _
  exact keep _ _

theorem unitBlocks_stored (r : Ram MemPool) (u : Nat) : unitBlocks (stored r) u = unitBlocks r u := by
  obtain ⟨hheap, hnext⟩ := stored_keeps r
  have hunit : ∀ id, unitOf (stored r).heap id = unitOf r.heap id := by
    intro id
    rw [unitOf, unitOf, hheap, Heap.stored, Option.map_map]
    rfl
  simp only [unitBlocks, hnext, hunit]

theorem stored_of_total {r : Ram MemPool} (htotal : ∀ u ∈ r.pool.map.keys, (r.pool.map.val u).total < 4294967296) :
    stored r = { r with heap := r.heap.stored } := by
  have same : ∀ (us : List Nat) (h : Heap), (∀ u ∈ us, u ∈ r.pool.map.keys) →
      us.foldl (fun r u => modify r u fun mems => { mems with total := u32 mems.total }) { r with heap := h } =
        { r with heap := h } := by
    intro us h
    induction us with
    | nil => exact fun _ => rfl
    | cons u us ih =>
      intro hus
      have hu := hus u List.mem_cons_self
      have hmod : modify { r with heap := h } u (fun mems => { mems with total := u32 mems.total }) =
          { r with heap := h } := by
        rw [modify, OrdMap.modify_eq_self hu (by rw [u32_of_lt (htotal u hu)])]
      rw [List.foldl_cons, hmod]
      exact ih fun v hv => hus v (List.mem_cons_of_mem u hv)
  exact same r.pool.map.keys r.heap.stored fun _ hu => hu

/-- Counters that fit are stored as they are. -/
theorem Core.stored_eq {r : Ram MemPool} {H : Multiset Nat} (c : Core r H) (hcnt : ∀ id, H.count id < 4294967296)
    (htotal : ∀ u, (unitBlocks r u).card < 4294967296) : stored r = r := by
  rw [stored_of_total fun u hu => c.total hu ▸ htotal u, Heap.stored_eq fun id m hm => c.ref_eq hm ▸ hcnt id]

end MemPool

theorem BufVars.Countable.of_stored {s : BufVars MemPool} (h : s.stored.Countable) : s.Countable :=
  ⟨h.ref, fun u => unitBlocks_stored s.ram u ▸ h.total u⟩

theorem BufVars.stored_eq {units : List Nat} {s : BufVars MemPool} (i : Inv units (fun _ => none) s.ram s.holders)
    (h : s.Countable) : s.stored = s := by
  rw [BufVars.stored, i.core.stored_eq h.ref h.total]

/-- There are no more holders than variables and detached owners, and no more blocks than were created. -/
theorem BufVars.countable_of_small {s : BufVars MemPool} (hvars : s.bufs.length + s.dettached.length < 4294967296)
    (hnext : s.ram.pool.next < 4294967296) : s.Countable := by
  refine ⟨fun id => ?_, fun u => ?_⟩
  · have hle := card_heldBy_le s.bufs
    have hcard : s.holders.card = (heldBy s.bufs).card + s.dettached.length := by
      rw [BufVars.holders, Multiset.card_add, Multiset.coe_card]
    exact Nat.lt_of_le_of_lt (Multiset.count_le_card id s.holders) (by omega)
  · have hle := Finset.card_filter_le (Finset.range s.ram.pool.next) fun id => unitOf s.ram.heap id = some u
    rw [Finset.card_range] at hle
    exact Nat.lt_of_le_of_lt hle hnext

theorem poolStep_inv {units : List Nat} {s s' : BufVars MemPool} {op : BufOp}
    (i : Inv units (fun _ => none) s.ram s.holders) (hs : s.step memPool op = some s') :
    Inv units (fun _ => none) s'.ram s'.holders :=
  bufVars_step_inv (memPool_contract units fun _ => none) i hs

/-- As long as the counters fit, a run is one of a pool with unbounded counters. -/
theorem poolRun_inv {conf : MemPoolConf} {ops : List BufOp} {s : BufVars MemPool}
    (hstep : ∀ u ∈ conf.keys, 1 ≤ (conf.val u).stepCnt)
    (countable : Machine.Throughout poolStep BufVars.Countable (poolStart conf) ops)
    (run : Machine.exec poolStep (poolStart conf) ops = some s) :
    Inv (configured conf) (fun _ => none) s.ram s.holders :=
  (Machine.exec_stored (I := fun t => Inv (configured conf) (fun _ => none) t.ram t.holders) (G := fun _ _ => True)
    (fun _ _ _ i _ hs => poolStep_inv i hs) (fun _ i h => BufVars.stored_eq i h.of_stored) (inv_init hstep)
    (Machine.along_of_forall (fun _ _ _ => trivial) _) countable run).2

/-- Memory blocks are exclusive and conserved over every run of a program on its `Buf` objects whose counters
stay below 2^32. -/
theorem poolRun_blocks_exclusive {conf : MemPoolConf} {ops : List BufOp} {s : BufVars MemPool}
    (hstep : ∀ u ∈ conf.keys, 1 ≤ (conf.val u).stepCnt)
    (countable : Machine.Throughout poolStep BufVars.Countable (poolStart conf) ops)
    (run : Machine.exec poolStep (poolStart conf) ops = some s) :
    (∀ size, ∃ id m, (MemPool.get s.ram size).1.mem = some id ∧
      (MemPool.get s.ram size).2.heap id = some m ∧ UnitFor (configured conf) size m.unit ∧
      id ∉ s.holders) ∧
    (∀ id ∈ s.holders, ∃ m, s.ram.heap id = some m) ∧
    (∀ id m, s.ram.heap id = some m → m.ref = s.holders.count id) ∧
    (∀ u id, id ∈ freeOf s.ram u → ∃ m, s.ram.heap id = some m) ∧
    (∀ id m, s.ram.heap id = some m → ∀ u, (freeOf s.ram u).count id =
      if u = m.unit ∧ u ∈ configured conf ∧ m.ref = 0 then 1 else 0) ∧
    (∀ id m, s.ram.heap id = some m → m.unit ∉ configured conf → 0 < m.ref) ∧
    (∀ op s', poolStep s op = some s' → ∀ id m, s.ram.heap id = some m →
      (s'.ram.heap id = none ↔ m.unit ∉ configured conf ∧ s'.holders.count id = 0)) ∧
    (∀ u ∈ configured conf,
      (s.ram.pool.map.val u).total = (freeOf s.ram u).length + (heldBlocks s.ram u).card) := by
  have i := poolRun_inv hstep countable run
  refine ⟨?_, fun id hid => i.core.live hid, fun id m hm => i.core.ref_eq hm, ?_,
    fun id m hm u => i.free_count hm u, ?_, ?_, fun u hu => i.total_eq hu⟩
  · intro size
    obtain ⟨id, m, hb, hid, hm, hfor, _⟩ := i.get_spec size
    exact ⟨id, m, by rw [hb], hm, hfor, hid⟩
  · intro u id hid
    obtain ⟨m, hm, _⟩ := unitOf_some.mp ((i.core.free u id).mp hid).1
    exact ⟨m, hm⟩
  · intro id m hm hu
    rw [i.core.ref_eq hm]
    exact Multiset.count_pos.mpr (i.exceed_held hm hu)
  · intro op s' hs id m hm
    obtain ⟨raw, hraw, rfl⟩ := Option.map_eq_some_iff.mp hs
    have hgone : raw.stored.ram.heap id = none ↔ raw.ram.heap id = none := by
      change (MemPool.stored raw.ram).heap id = none ↔ _
      rw [(stored_keeps raw.ram).1, Heap.stored, Option.map_eq_none_iff]
    rw [hgone]
    exact bufVars_step_deletes i hraw hm

/-- Two users of one block, a detached owner and an oversized block. -/
theorem poolRun_blocks_exclusive_sample :
    ∃ s, Machine.exec poolStep (poolStart ⟨[8], fun _ => ⟨1, 1⟩, by decide⟩)
      [.get 5, .copy 0, .assign 0 1, .dettach 1, .get 9, .relRef 0, .destroy 0] = some s ∧
      (∀ id m, s.ram.heap id = some m → m.ref = s.holders.count id) ∧
      (s.ram.pool.map.val 8).total = (freeOf s.ram 8).length + (heldBlocks s.ram 8).card := by
  have run : ∃ s, Machine.exec poolStep (poolStart ⟨[8], fun _ => ⟨1, 1⟩, by decide⟩)
      [.get 5, .copy 0, .assign 0 1, .dettach 1, .get 9, .relRef 0, .destroy 0] = some s ∧
      s.bufs.length + s.dettached.length < 4294967296 ∧ s.ram.pool.next < 4294967296 := ⟨_, rfl, by decide, by decide⟩
  obtain ⟨s, run, hend⟩ := run
  have small : Machine.Throughout poolStep (fun t => t.bufs.length + t.dettached.length < 4294967296 ∧
      t.ram.pool.next < 4294967296) (poolStart ⟨[8], fun _ => ⟨1, 1⟩, by decide⟩)
      [.get 5, .copy 0, .assign 0 1, .dettach 1, .get 9, .relRef 0, .destroy 0] :=
    Machine.throughout_of_along (by decide) run hend
  have h := poolRun_blocks_exclusive (by decide)
    (fun before t hpre hrun => BufVars.countable_of_small (small before t hpre hrun).1 (small before t hpre hrun).2) run
  exact ⟨s, run, h.2.2.1, h.2.2.2.2.2.2.2 8 (by decide)⟩

section

variable {s : BufVars MemPool} {id : Nat} {m : Mem} {b : Buf} {rest : List Buf}

/-- Each copy of a `Buf` adds one to `ref_`, in 32 bits. -/
theorem poolStep_copies (htotal : ∀ u ∈ s.ram.pool.map.keys, (s.ram.pool.map.val u).total < 4294967296) (n : Nat)
    (hb : s.bufs = b :: rest) (hid : b.mem = some id) (hm : s.ram.heap id = some m) (href : m.ref < 4294967296) :
    ∃ t, Machine.exec poolStep s (List.replicate n (.copy 0)) = some t ∧
      t.bufs = List.replicate n b ++ s.bufs ∧ t.dettached = s.dettached ∧ t.ram.pool = s.ram.pool ∧
      t.ram.heap id = some { m with ref := add32 m.ref n } := by
  induction n generalizing s m rest with
  | zero => exact ⟨s, rfl, rfl, rfl, rfl, by rw [hm, add32_zero href]⟩
  | succ n ih =>
    have hcopy : Buf.copy s.ram b = (b, s.ram.addRef id) := by rw [Buf.copy, hid]
    let t : BufVars MemPool := { s with ram := { s.ram with heap := (s.ram.heap.addRef id).stored }, bufs := b :: s.bufs }
    have hstep : poolStep s (.copy 0) = some t := by
      have hraw : s.step memPool (.copy 0) = some { s with ram := s.ram.addRef id, bufs := b :: s.bufs } := by
        simp only [BufVars.step, hb, List.getElem?_cons_zero, Option.bind_eq_bind, Option.bind_some, hcopy]
        rfl
      rw [poolStep, Machine.stored, hraw, Option.map_some, BufVars.stored]
      exact congrArg some (congrArg (BufVars.mk · _ _) (MemPool.stored_of_total htotal))
    have hm' : t.ram.heap id = some { m with ref := add32 m.ref 1 } := by
      change (s.ram.heap.addRef id).stored id = _
      rw [Heap.stored, Heap.addRef_self hm, add32, ← Int.natCast_add]
      rfl
    obtain ⟨u, run, hbufs, hdet, hpool, hu⟩ := ih (s := t) htotal rfl hm' (add32_lt _ _)
    refine ⟨u, by rw [List.replicate_succ, Machine.exec, hstep]; exact run, ?_, hdet, hpool, ?_⟩
    · rw [hbufs, List.replicate_succ', List.append_assoc]
      rfl
    · rw [hu, add32_add, Nat.add_comm 1]

/-- The last reference that `ref_` counts goes, and the block goes back to its unit. -/
theorem poolStep_destroy_last (htotal : ∀ u ∈ s.ram.pool.map.keys, (s.ram.pool.map.val u).total < 4294967296)
    (hb : s.bufs = b :: rest) (hid : b.mem = some id) (hm : s.ram.heap id = some m) (href : m.ref = 1)
    (hunit : m.unit ≤ s.ram.pool.maxUnit) (hkey : m.unit ∈ s.ram.pool.map.keys) :
    ∃ t, poolStep s (.destroy 0) = some t ∧ t.bufs = rest ∧ t.dettached = s.dettached ∧
      t.ram.heap id = some { m with ref := 0 } ∧ t.ram.pool.maxUnit = s.ram.pool.maxUnit ∧
      t.ram.pool.map.keys = s.ram.pool.map.keys ∧ freeOf t.ram m.unit = id :: freeOf s.ram m.unit := by
  let r : Ram MemPool := { s.ram with heap := Function.update s.ram.heap id (some { m with ref := 0 }) }
  let r' := MemPool.modify r m.unit fun mems => { mems with free := id :: mems.free }
  have hrel : memPool.relRef s.ram id = r' := by
    have hpred : pred32 m.ref = 0 := by rw [href]; rfl
    have hr : r.heap id = some { m with ref := 0 } := Function.update_self ..
    simp only [IMemPool.relRef, hm, hpred, if_true]
    change MemPool.ret r id = r'
    simp only [MemPool.ret, hr]
    exact if_neg (Nat.not_lt_of_le hunit)
  have hraw : s.step memPool (.destroy 0) = some { s with ram := r', bufs := rest } := by
    simp only [BufVars.step, hb, List.getElem?_cons_zero, Option.bind_eq_bind, Option.bind_some, Buf.destroy, hid, hrel]
    rfl
  have hkeys : r'.pool.map.keys = s.ram.pool.map.keys := OrdMap.insertKey_of_mem s.ram.pool.map.sorted hkey
  have hfits : ∀ u ∈ r'.pool.map.keys, (r'.pool.map.val u).total < 4294967296 := by
    intro u hu
    rw [hkeys] at hu
    by_cases he : u = m.unit
    · subst he
      simpa [r', MemPool.modify] using htotal _ hu
    · simpa [r', MemPool.modify, OrdMap.modify_val_of_ne _ _ he] using htotal u hu
  have hstored : MemPool.stored r' = { r' with heap := r'.heap.stored } := stored_of_total hfits
  refine ⟨{ s with ram := MemPool.stored r', bufs := rest }, ?_, rfl, rfl, ?_⟩
  · rw [poolStep, Machine.stored, hraw]
    rfl
  · rw [hstored]
    refine ⟨?_, rfl, hkeys, ?_⟩
    · change (Function.update s.ram.heap id (some { m with ref := 0 }) id).map _ = _
      rw [Function.update_self]
      rfl
    · simp [freeOf, r', MemPool.modify, r]

end

/-- A free block of the least unit is handed out. -/
theorem get_free {r : Ram MemPool} {size u id : Nat} {m : Mem} {free : List Nat} (hsize : size ≤ r.pool.maxUnit)
    (hu : r.pool.map.lowerBound size = some u) (hfree : freeOf r u = id :: free) (hm : r.heap id = some m) :
    (MemPool.get r size).1.mem = some id := by
  have hpop : popFree r u = (some id, MemPool.modify r u fun mems => { mems with free := free }) := by
    rw [popFree, show (r.pool.map.val u).free = id :: free from hfree]
  have hm' : (MemPool.modify r u fun mems => { mems with free := free }).heap id = some m := hm
  simp only [MemPool.get, if_neg (Nat.not_lt_of_le hsize), hu, hpop, Buf.ofMem, hm']

/-- After 2^32 copies `ref_` is 1 again: with the next destruction the pool has a block that 2^32 `Buf`s hold,
and hands it out. -/
theorem poolRun_block_shared : ∃ s, Machine.exec poolStep (poolStart ⟨[8], fun _ => ⟨1, 1⟩, by decide⟩)
      (.get 5 :: (List.replicate 4294967296 (.copy 0) ++ [.destroy 0])) = some s ∧
      s.holders.count 0 = 4294967296 ∧ (s.ram.heap 0).map Mem.ref = some 0 ∧ (MemPool.get s.ram 5).1.mem = some 0 := by
  have first : ∃ s₀ m, poolStep (poolStart ⟨[8], fun _ => ⟨1, 1⟩, by decide⟩) (.get 5) = some s₀ ∧
      s₀.bufs = [⟨some 0, 0, 8⟩] ∧ s₀.dettached = [] ∧ s₀.ram.heap 0 = some m ∧ m.ref = 1 ∧ m.unit = 8 ∧
      s₀.ram.pool.maxUnit = 8 ∧ s₀.ram.pool.map.keys = [8] ∧ (s₀.ram.pool.map.val 8).total = 1 :=
    ⟨_, _, rfl, rfl, rfl, rfl, rfl, rfl, rfl, rfl, rfl⟩
  obtain ⟨s₀, m, hfirst, hbufs, hdet, hm, href, hunit, hmax, hkeys, htotal⟩ := first
  have hfits : ∀ u ∈ s₀.ram.pool.map.keys, (s₀.ram.pool.map.val u).total < 4294967296 := by
    intro u hu
    rw [hkeys] at hu
    rw [List.mem_singleton.mp hu, htotal]
    decide
  obtain ⟨t, run, htb, htd, hpool, ht⟩ := poolStep_copies hfits 4294967296 hbufs rfl hm (by rw [href]; decide)
  have hfront : t.bufs = ⟨some 0, 0, 8⟩ :: List.replicate 4294967296 ⟨some 0, 0, 8⟩ := by
    rw [htb, hbufs, ← List.replicate_succ', List.replicate_succ]
  obtain ⟨s, hlast, hsb, hsd, hheap, hsmax, hskeys, hsfree⟩ := poolStep_destroy_last (hpool ▸ hfits) hfront rfl ht
    (by rw [href]; rfl) (by rw [hpool, hunit, hmax]) (by rw [hpool, hunit, hkeys]; exact List.mem_singleton.mpr rfl)
  refine ⟨s, ?_, ?_, by rw [hheap]; rfl, ?_⟩
  · rw [Machine.exec, hfirst, Option.bind_some, Machine.exec_append, run, Option.bind_some, Machine.exec, hlast]
    rfl
  · have hheld : heldBy (List.replicate 4294967296 (⟨some 0, 0, 8⟩ : Buf)) = 4294967296 • {0} := by
      rw [heldBy, List.map_replicate, List.sum_replicate, Buf.held_some]
    rw [BufVars.holders, hsb, hsd, htd, hdet, hheld, Multiset.count_add, Multiset.count_nsmul, Multiset.count_singleton_self]
    rfl
  · rw [hunit] at hsfree
    refine get_free (u := 8) ?_ ?_ hsfree hheap
    · rw [hsmax, hpool, hmax]
      decide
    · rw [OrdMap.lowerBound, hskeys, hpool, hkeys]
      rfl

end Ven
