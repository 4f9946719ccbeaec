import Ven.TlsAccount
import Ven.MemPoolRuns
import Ven.Machine
import Mathlib.Algebra.Order.BigOperators.Group.List
import Mathlib.Algebra.Order.Group.Nat

namespace Ven

namespace Tm

variable {ι : Type} [DecidableEq ι]

/-- Neither the lists of the thread nor what `pop_cnt_` lets it take from the heap has a block. -/
def UnitPool.Dry (s : UnitPool ι) (t : ι) : Prop :=
  (s.lists (.wait t)).cnt = 0 ∧ (s.lists (.free t)).cnt = 0 ∧ (s.conf.popCnt = 0 ∨ (s.lists .heap).cnt = 0)

instance (s : UnitPool ι) (t : ι) : Decidable (s.Dry t) := inferInstanceAs (Decidable (_ ∧ _ ∧ (_ ∨ _)))

namespace TlsMemPool

structure Conserved (s : TlsMemPool ι) : Prop where
  units : ∀ u ∈ s.units.keys, UnitPool.Conserved s.hlist (s.units.val u)
  use : ∀ u ∈ s.units.keys, (s.state.units.val u).use = (s.units.val u).held.length
  whole : ∀ u ∈ s.units.keys,
    (s.state.units.val u).wait + (s.state.units.val u).free + (s.state.units.val u).use = (s.state.units.val u).total
  served : ∀ u ∈ s.misses, (s.units.val u).conf.cnt = 0
  written : s.overrun = false

/-- A unit that gets a new chunk stays below 2^32 blocks. -/
def Countable (s : TlsMemPool ι) : PoolOp ι → Prop
  | .get t size => ((s.units.lowerBound size).all fun u =>
      decide ((s.units.val u).Dry t → (s.units.val u).total + (s.units.val u).conf.cnt < 4294967296)) = true
  | _ => True

instance (s : TlsMemPool ι) : ∀ op, Decidable (s.Countable op)
  | .get _ _ => inferInstanceAs (Decidable (_ = true))
  | .ret _ _ _ => isTrue trivial
  | .retLarge _ => isTrue trivial

/-- A unit that has blocks lets a thread take some. -/
def Asked (conf : MemConf) : PoolOp ι → Prop
  | .get _ size => ((conf.lowerBound size).all fun u => decide (1 ≤ (conf.val u).cnt → 1 ≤ (conf.val u).popCnt)) = true
  | _ => True

instance (conf : MemConf) : DecidablePred (Asked conf : PoolOp ι → Prop)
  | .get _ _ => inferInstanceAs (Decidable (_ = true))
  | .ret _ _ _ => isTrue trivial
  | .retLarge _ => isTrue trivial

structure Inv (conf : MemConf) (s : TlsMemPool ι) : Prop where
  keys : s.units.keys = conf.keys
  confs : ∀ u, (s.units.val u).conf = conf.val u
  units : ∀ u ∈ conf.keys, ∃ L, UnitPool.UnitOk s.hlist (s.units.val u) L
  hlist : s.hlist.Nodup
  fits : ∀ u ∈ conf.keys, u * (conf.val u).cnt < 4294967296
  maxUnit : ∀ u ∈ conf.keys, u ≤ s.maxUnit
  overrun : s.overrun = false
  misses : ∀ u ∈ s.misses, (conf.val u).cnt = 0

variable {conf : MemConf} {s s' : TlsMemPool ι} {op : PoolOp ι} {t : ι} {u size mem : Nat}

omit [DecidableEq ι] in
theorem Inv.conserved (h : Inv conf s) : Conserved s := by
  have each : ∀ u ∈ s.units.keys, ∃ L, UnitPool.UnitOk s.hlist (s.units.val u) L := fun u hu =>
    h.units u (h.keys ▸ hu)
  refine ⟨fun u hu => ?_, fun u hu => ?_, fun u hu => ?_, fun u hu => ?_, h.overrun⟩
  · obtain ⟨L, hL⟩ := each u hu
    exact hL.conserved
  · obtain ⟨L, hL⟩ := each u hu
    exact (hL.state h.hlist).1
  · obtain ⟨L, hL⟩ := each u hu
    exact (hL.state h.hlist).2
  · rw [h.confs]
    exact h.misses u hu

theorem Inv.getThreadMem (h : Inv conf s) (t : ι) : Inv conf (s.getThreadMem t) ∧ t ∈ (s.getThreadMem t).hlist := by
  unfold TlsMemPool.getThreadMem
  split
  next ht => exact ⟨h, ht⟩
  next ht =>
    refine ⟨{ h with units := fun u hu => ?_, hlist := ?_ }, by simp⟩
    · obtain ⟨L, hL⟩ := h.units u hu
      exact ⟨L, hL.mono fun v hv => List.mem_append_left _ hv⟩
    · refine List.nodup_append'.mpr ⟨h.hlist, List.nodup_singleton t, fun x hx hx' => ?_⟩
      rw [List.mem_singleton.mp hx'] at hx
      exact ht hx

omit [DecidableEq ι] in
/-- One unit changes. -/
theorem Inv.modify (h : Inv conf s) (hu : u ∈ conf.keys) {f : UnitPool ι → UnitPool ι}
    (hconf : (f (s.units.val u)).conf = conf.val u)
    (hok : ∃ L, UnitPool.UnitOk s.hlist (f (s.units.val u)) L) : Inv conf { s with units := s.units.modify u f } := by
  refine { h with keys := ?_, confs := fun v => ?_, units := fun v hv => ?_ }
  · change OrdMap.insertKey u s.units.keys = conf.keys
    rw [OrdMap.insertKey_of_mem s.units.sorted (by rw [h.keys]; exact hu), h.keys]
  · by_cases hv : v = u
    · rw [hv]
      exact (congrArg UnitPool.conf (OrdMap.modify_val_self s.units u f)).trans hconf
    · exact (congrArg UnitPool.conf (OrdMap.modify_val_of_ne s.units f hv)).trans (h.confs v)
  · by_cases he : v = u
    · rw [he]
      simpa using hok
    · simpa [OrdMap.modify_val_of_ne s.units f he] using h.units v hv

omit [DecidableEq ι] in
theorem Inv.lowerBound (h : Inv conf s) : s.units.lowerBound size = conf.lowerBound size := by
  unfold OrdMap.lowerBound
  rw [h.keys]

theorem get_some {p : UnitPool ι} (hsize : ¬s.maxUnit < size) (hu : (s.getThreadMem t).units.lowerBound size = some u)
    (hpop : ((s.getThreadMem t).units.val u).pop u t = (some mem, p)) :
    s.get t size =
      { s.getThreadMem t with units := (s.getThreadMem t).units.modify u fun _ => { p with held := mem :: p.held } } := by
  unfold TlsMemPool.get
  rw [if_neg hsize]
  simp only [hu, hpop]

theorem get_none {p : UnitPool ι} (hsize : ¬s.maxUnit < size) (hu : (s.getThreadMem t).units.lowerBound size = some u)
    (hpop : ((s.getThreadMem t).units.val u).pop u t = (none, p)) :
    s.get t size = { s.getThreadMem t with
      units := (s.getThreadMem t).units.modify u fun _ => p
      misses := (s.getThreadMem t).misses ++ [u] } := by
  unfold TlsMemPool.get
  rw [if_neg hsize]
  simp only [hu, hpop]

theorem getThreadMem_units (s : TlsMemPool ι) (t : ι) : (s.getThreadMem t).units = s.units := by
  unfold TlsMemPool.getThreadMem
  split
  next => rfl
  next => rfl

omit [DecidableEq ι] in
theorem Countable.room (h : s.Countable (.get t size)) (hu : s.units.lowerBound size = some u)
    (hdry : (s.units.val u).Dry t) : (s.units.val u).total + (s.units.val u).conf.cnt < 4294967296 := by
  simp only [Countable, hu, Option.all_some, decide_eq_true_eq] at h
  exact h hdry

omit [DecidableEq ι] in
theorem asked_iff (hu : conf.lowerBound size = some u) :
    Asked conf (.get t size : PoolOp ι) ↔ (1 ≤ (conf.val u).cnt → 1 ≤ (conf.val u).popCnt) := by
  simp only [Asked, hu, Option.all_some, decide_eq_true_eq]

/-- The call of `get` for a unit: the unit is all right afterwards, and `pop` has returned null only where it has no
blocks to lay out or may not keep any. -/
theorem Inv.pop (h : Inv conf s) (countable : s.Countable (.get t size)) (hu : conf.lowerBound size = some u) :
    ∃ m p, ((s.getThreadMem t).units.val u).pop u t = (m, p) ∧
      Inv conf { s.getThreadMem t with
        units := (s.getThreadMem t).units.modify u fun _ => { p with held := m.toList ++ p.held } } ∧
      (m = none → (conf.val u).cnt = 0 ∨ (conf.val u).popCnt = 0) ∧ ((conf.val u).popCnt = 0 → m = none) := by
  obtain ⟨hthread, ht⟩ := h.getThreadMem t
  have hkey := (OrdMap.lowerBound_spec hu).1
  have hunits := getThreadMem_units s t
  obtain ⟨L, hL⟩ := hthread.units u hkey
  have hconf := hthread.confs u
  obtain ⟨m, p, hpop, hpconf, hp, hmiss, hdry⟩ := hL.get ht (by rw [hconf]; exact h.fits u hkey)
    fun hw hf hheap => by
      rw [hunits] at hw hf hheap ⊢
      exact countable.room (h.lowerBound.trans hu) ⟨hw, hf, hheap⟩
  rw [hconf] at hmiss hdry
  exact ⟨m, p, hpop, hthread.modify hkey (hpconf.trans hconf) hp, hmiss, hdry⟩

theorem Inv.get (h : Inv conf s) (countable : s.Countable (.get t size)) (asked : Asked conf (.get t size : PoolOp ι)) :
    Inv conf (s.get t size) := by
  by_cases hsize : s.maxUnit < size
  · unfold TlsMemPool.get
    rw [if_pos hsize]
    exact { h with }
  · cases hu : conf.lowerBound size with
    | none =>
      unfold TlsMemPool.get
      rw [if_neg hsize]
      simp only [getThreadMem_units, h.lowerBound, hu]
      exact (h.getThreadMem t).1
    | some u =>
      obtain ⟨m, p, hpop, hinv, hmiss, _⟩ := h.pop countable hu
      have hu' : (s.getThreadMem t).units.lowerBound size = some u := by rw [getThreadMem_units, h.lowerBound, hu]
      cases m with
      | some mem =>
        rw [get_some hsize hu' hpop]
        exact hinv
      | none =>
        rw [get_none hsize hu' hpop]
        refine { hinv with misses := fun v hv => ?_ }
        rcases List.mem_append.mp hv with hv | hv
        · exact hinv.misses v hv
        · rw [List.mem_singleton.mp hv]
          have hpop_cnt := (asked_iff hu).mp asked
          rcases hmiss rfl with hz | hz
          · exact hz
          · omega

/-- With `pop_cnt_` 0 the new chunk goes to the heap as a whole, and the thread gets nothing. -/
theorem Inv.get_null (h : Inv conf s) (countable : s.Countable (.get t size))
    (asked : ¬Asked conf (.get t size : PoolOp ι)) : ¬Conserved (s.get t size) := by
  cases hu : conf.lowerBound size with
  | none =>
    refine absurd ?_ asked
    simp only [Asked, hu, Option.all_none]
  | some u =>
    obtain ⟨hcnt, hpop_cnt⟩ := Classical.not_imp.mp fun himp => asked ((asked_iff hu).mpr himp)
    obtain ⟨hkey, hle, _⟩ := OrdMap.lowerBound_spec hu
    have hmax := h.maxUnit u hkey
    obtain ⟨m, p, hpop, hinv, _, hdry⟩ := h.pop countable hu
    cases hdry (by omega)
    rw [get_none (by omega) (by rw [getThreadMem_units, h.lowerBound, hu]) hpop]
    intro hconserved
    have hserved := hconserved.served u (List.mem_append_right _ (List.mem_singleton_self u))
    have hconf := hinv.confs u
    have hzero : (conf.val u).cnt = 0 := (congrArg UnitMemConf.cnt hconf).symm.trans hserved
    omega

theorem Inv.ret (h : Inv conf s) (hkey : u ∈ conf.keys) (hmem : mem ∈ (s.units.val u).held) :
    Inv conf (s.ret t u mem) := by
  obtain ⟨hthread, ht⟩ := h.getThreadMem t
  obtain ⟨L, hL⟩ := hthread.units u hkey
  have hmem' : mem ∈ ((s.getThreadMem t).units.val u).held := by
    rw [getThreadMem_units]
    exact hmem
  obtain ⟨hconf, hok⟩ := hL.ret ht hmem'
  exact hthread.modify hkey (hconf.trans (hthread.confs u)) hok

theorem Inv.step (h : Inv conf s) (countable : s.Countable op) (asked : Asked conf op) (hs : s.step op = some s') :
    Inv conf s' := by
  cases op with
  | get t size =>
    cases Option.some.inj hs
    exact h.get countable asked
  | ret t u mem =>
    unfold TlsMemPool.step at hs
    simp only at hs
    split at hs
    next hin =>
      cases Option.some.inj hs
      exact h.ret (h.keys ▸ hin.1) hin.2
    next => cases hs
  | retLarge t =>
    unfold TlsMemPool.step at hs
    simp only at hs
    split at hs
    next =>
      cases Option.some.inj hs
      exact { h with }
    next => cases hs

theorem Inv.fails (h : Inv conf s) (countable : s.Countable op) (asked : ¬Asked conf op) (hs : s.step op = some s') :
    ¬Conserved s' := by
  cases op with
  | get t size =>
    cases Option.some.inj hs
    exact h.get_null countable asked
  | ret t u mem => exact absurd trivial asked
  | retLarge t => exact absurd trivial asked

theorem memSize_le (unit cnt : Nat) : memSize unit cnt ≤ (sizeofMem + unit) * cnt := by
  unfold memSize
  rw [mul32_eq, Nat.add_mul]
  exact Nat.add_le_add_left (Nat.mod_le _ _) _

theorem memSize_lt {unit cnt : Nat} (h : ¬unit * cnt < 4294967296) : memSize unit cnt < (sizeofMem + unit) * cnt := by
  unfold memSize
  rw [mul32_eq, Nat.add_mul]
  omega

theorem init_overrun (conf : MemConf) : (init conf : TlsMemPool ι).overrun = false ↔
    ∀ u ∈ (chosen conf).keys, u * ((chosen conf).val u).cnt < 4294967296 := by
  unfold TlsMemPool.init
  simp only
  generalize chosen conf = conf
  rw [decide_eq_false_iff_not]
  constructor
  · intro hsum u hu
    by_contra hbig
    exact hsum (List.sum_lt_sum _ _ (fun v _ => memSize_le v _) ⟨u, hu, memSize_lt hbig⟩)
  · intro hfits
    have hsame : (conf.keys.map fun u => memSize u (conf.val u).cnt) =
        conf.keys.map fun u => (sizeofMem + u) * (conf.val u).cnt :=
      List.map_congr_left fun u hu =>
        Nat.le_antisymm (memSize_le u _) (Nat.le_of_not_lt (UnitPool.memSize_enough u _ (hfits u hu)))
    rw [hsame]
    exact Nat.lt_irrefl _

theorem inv_init {conf : MemConf} (hbits : ∀ u ∈ conf.keys, (conf.val u).cnt < 4294967296)
    (hfits : ∀ u ∈ (chosen conf).keys, u * ((chosen conf).val u).cnt < 4294967296) :
    Inv (chosen conf) (init conf : TlsMemPool ι) := by
  have hchosen : ∀ u ∈ (chosen conf).keys, ((chosen conf).val u).cnt < 4294967296 := by
    unfold chosen
    split
    next => decide
    next => exact hbits
  have hover := (init_overrun (ι := ι) conf).mpr hfits
  refine ⟨rfl, fun u => UnitPool.init_conf _, fun u hu => UnitPool.unitOk_init (hchosen u hu), List.nodup_nil, hfits, fun u hu => ?_, hover,
    fun u hu => by cases hu⟩
  exact MemPool.le_getLastD (chosen conf).sorted hu

/-- Throughout a run every block is in one place, `state` counts right and every `get` has its block, exactly when the
memory of every unit is as large as its blocks and every `get` is for a unit that has no blocks or lets a thread take
some. -/
theorem blocks_conserved_iff {conf : MemConf} (hbits : ∀ u ∈ conf.keys, (conf.val u).cnt < 4294967296)
    {ops : List (PoolOp ι)} (run : Machine.exec TlsMemPool.step (init conf) ops = some s)
    (countable : Machine.Along TlsMemPool.step Countable (init conf) ops) :
    Machine.Throughout TlsMemPool.step Conserved (init conf) ops ↔
      (∀ u ∈ (chosen conf).keys, u * ((chosen conf).val u).cnt < 4294967296) ∧ ∀ op ∈ ops, Asked (chosen conf) op := by
  have hstart : Machine.Throughout TlsMemPool.step Conserved (init conf) ops →
      ∀ u ∈ (chosen conf).keys, u * ((chosen conf).val u).cnt < 4294967296 := fun h =>
    (init_overrun conf).mp (h [] _ List.nil_prefix rfl).written
  have hiff : (∀ u ∈ (chosen conf).keys, u * ((chosen conf).val u).cnt < 4294967296) →
      (Machine.Throughout TlsMemPool.step Conserved (init conf) ops ↔
        Machine.Along TlsMemPool.step (fun _ op => Asked (chosen conf) op) (init conf) ops) := fun hfits =>
    Machine.throughout_iff_along_under (fun _ h => h.conserved)
      (fun _ _ _ h countable asked hs => h.step countable asked hs)
      (fun _ _ _ h countable asked hs => h.fails countable asked hs) (inv_init hbits hfits) countable run
  constructor
  · exact fun h => ⟨hstart h, Machine.forall_of_along ((hiff (hstart h)).mp h) run⟩
  · exact fun h => (hiff h.1).mpr (Machine.along_of_forall (fun op hop _ => h.2 op hop) _)

/-- Two threads exchange blocks, and the second returns enough of them for the heap. -/
theorem blocks_conserved_sample :
    Machine.Throughout TlsMemPool.step Conserved (init ⟨[8, 32], fun u => ⟨3, 2, u / 8⟩, by decide⟩ : TlsMemPool (Fin 2))
      [.get 0 5, .get 0 20, .get 0 30, .ret 1 32 1, .get 1 8, .ret 1 8 2, .get 0 32, .get 0 32, .get 0 99] := by
  have run : ∃ s, Machine.exec TlsMemPool.step
      (init ⟨[8, 32], fun u => ⟨3, 2, u / 8⟩, by decide⟩ : TlsMemPool (Fin 2))
      [.get 0 5, .get 0 20, .get 0 30, .ret 1 32 1, .get 1 8, .ret 1 8 2, .get 0 32, .get 0 32, .get 0 99] = some s := ⟨_, rfl⟩
  obtain ⟨s, run⟩ := run
  exact (blocks_conserved_iff (by decide) run (by decide)).mpr (by decide)

/-- A unit with two blocks and `pop_cnt_` 0: the first `get` has a new chunk laid out and gets nothing. -/
theorem first_get_null : ∃ s, Machine.exec TlsMemPool.step
    (init ⟨[8], fun _ => ⟨2, 0, 1⟩, by decide⟩ : TlsMemPool (Fin 1)) [.get 0 8] = some s ∧ s.misses = [8] ∧
    (s.units.val 8).laid = 4 ∧ (s.units.val 8).held = [] ∧ ¬Conserved s := by
  refine ⟨_, rfl, by decide, by decide, by decide, fun h => ?_⟩
  have hserved := h.served 8 (by decide)
  revert hserved
  decide

end TlsMemPool

end Tm

end Ven
