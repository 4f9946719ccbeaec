import Ven.MemPoolState

namespace Ven

namespace MemPool

def BufOp.stock (r : Ram MemPool) : BufOp → Nat → Nat
  | .get size => MemPool.stock r size
  | _ => fun _ => 0

/-- The units of the blocks that an operation may create. -/
def BufOp.creates (r : Ram MemPool) : BufOp → Nat → Prop
  | .get size => fun v => if r.pool.maxUnit < size then v = size else r.pool.map.lowerBound size = some v
  | _ => fun _ => False

theorem bufVars_step_leaves {s s' : BufVars MemPool} {op : BufOp} (hs : s.step memPool op = some s') :
    Leaves s.ram s'.ram (BufOp.creates s.ram op) (BufOp.stock s.ram op) := by
  cases op with
  | get size =>
    cases Option.some.inj hs
    change Leaves s.ram (get s.ram size).2 _ _
    by_cases big : s.ram.pool.maxUnit < size
    · simp only [BufOp.creates, if_pos big]
      exact leaves_get_oversized big
    · simp only [BufOp.creates, if_neg big]
      exact leaves_get_pooled big
  | copy i =>
    obtain ⟨cls, _, hs⟩ := Option.bind_eq_some_iff.mp hs
    cases Option.some.inj hs
    change Keeps s.ram (Buf.copy s.ram cls).2
    unfold Buf.copy
    cases cls.mem with
    | none => exact Keeps.refl s.ram
    | some id => exact keeps_addRef s.ram id
  | assign i j =>
    obtain ⟨b, _, hs⟩ := Option.bind_eq_some_iff.mp hs
    obtain ⟨cls, _, hs⟩ := Option.bind_eq_some_iff.mp hs
    split at hs
    next =>
      cases Option.some.inj hs
      exact Keeps.refl s.ram
    next =>
      cases Option.some.inj hs
      change Keeps s.ram (Buf.assign memPool s.ram b cls).2
      unfold Buf.assign
      cases cls.mem with
      | none => exact keeps_destroy s.ram b
      | some id => exact (keeps_destroy s.ram b).keeps (keeps_addRef _ id)
  | swap i j =>
    obtain ⟨a, _, hs⟩ := Option.bind_eq_some_iff.mp hs
    obtain ⟨b, _, hs⟩ := Option.bind_eq_some_iff.mp hs
    cases Option.some.inj hs
    exact Keeps.refl s.ram
  | dettach i =>
    obtain ⟨b, _, hs⟩ := Option.bind_eq_some_iff.mp hs
    cases Option.some.inj hs
    exact Keeps.refl s.ram
  | relRef k =>
    obtain ⟨mem, _, hs⟩ := Option.bind_eq_some_iff.mp hs
    cases Option.some.inj hs
    exact keeps_relRef s.ram mem
  | destroy i =>
    obtain ⟨b, _, hs⟩ := Option.bind_eq_some_iff.mp hs
    cases Option.some.inj hs
    exact keeps_destroy s.ram b

/-- A new unit brings no more than its initial blocks. -/
theorem initUnit_counters (conf : MemPoolConf) (r : Ram MemPool) (u : Nat) :
    (initUnit conf r u).pool.exceedNew = r.pool.exceedNew ∧ (initUnit conf r u).pool.exceedDel = r.pool.exceedDel ∧
      ∀ v, ((initUnit conf r u).pool.map.val v).total =
        if v = u then (conf.val u).initCnt else (r.pool.map.val v).total := by
  let r₁ := modify r u fun mems =>
    { mems with total := (conf.val u).initCnt, initCnt := (conf.val u).initCnt,
                stepCnt := (conf.val u).stepCnt, delCnt := u32 ((conf.val u).initCnt * 2) }
  have hall := (leaves_pushNew u (conf.val u).initCnt (r₁.pool.map.val u).free r₁).keeps
    (keeps_free _ u fun _ => (pushNew u (conf.val u).initCnt (r₁.pool.map.val u).free r₁).1)
  refine ⟨hall.exceedNew, hall.exceedDel, fun v => (hall.total v).trans ?_⟩
  by_cases hv : v = u
  · subst hv
    simp [r₁, modify]
  · simp [r₁, modify, OrdMap.modify_val_of_ne _ _ hv, hv]

theorem init_counters {conf : MemPoolConf} (hinit : ∀ u ∈ conf.keys, (conf.val u).initCnt < 4294967296) :
    (init conf).pool.exceedNew = 0 ∧ (init conf).pool.exceedDel = 0 ∧
      ∀ v, ((init conf).pool.map.val v).total < 4294967296 := by
  have build : ∀ (conf' : MemPoolConf) (us : List Nat) (r : Ram MemPool),
      (∀ u ∈ us, (conf'.val u).initCnt < 4294967296) → r.pool.exceedNew = 0 ∧ r.pool.exceedDel = 0 ∧
        (∀ v, (r.pool.map.val v).total < 4294967296) →
      (us.foldl (initUnit conf') r).pool.exceedNew = 0 ∧ (us.foldl (initUnit conf') r).pool.exceedDel = 0 ∧
        ∀ v, ((us.foldl (initUnit conf') r).pool.map.val v).total < 4294967296 := by
    intro conf' us
    induction us with
    | nil => exact fun r _ h => h
    | cons u us ih =>
      intro r hus ⟨hnew, hdel, htotal⟩
      obtain ⟨hnew', hdel', htotal'⟩ := initUnit_counters conf' r u
      refine ih _ (fun v hv => hus v (List.mem_cons_of_mem u hv)) ⟨hnew'.trans hnew, hdel'.trans hdel, fun v => ?_⟩
      rw [htotal' v]
      split
      next => exact hus u List.mem_cons_self
      next => exact htotal v
  by_cases he : conf.keys = []
  · rw [init, if_pos he]
    exact build defaultConf _ _ (by decide) ⟨rfl, rfl, fun v => Nat.zero_lt_succ _⟩
  · rw [init, if_neg he]
    exact build conf _ _ hinit ⟨rfl, rfl, fun v => Nat.zero_lt_succ _⟩

end MemPool

open MemPool

namespace PoolBooks

/-- A pool that was never asked for an oversized block. -/
structure Ordinary (units : List Nat) (s : PoolBooks) : Prop where
  inv : Inv units (fun _ => none) (stepped s.vars.ram) s.vars.holders
  fits : ∀ v, (s.vars.ram.pool.map.val v).total < 4294967296
  small : ∀ id u, unitOf s.vars.ram.heap id = some u → u ≤ s.vars.ram.pool.maxUnit
  exceedNew : s.vars.ram.pool.exceedNew = 0
  exceedDel : s.vars.ram.pool.exceedDel = 0
  news : s.news = 0
  dels : s.dels = 0

variable {units : List Nat} {s s' : PoolBooks} {op : BufOp}

theorem heldOversized_eq_empty {r : Ram MemPool} (small : ∀ id u, unitOf r.heap id = some u → u ≤ r.pool.maxUnit) :
    heldOversized r = ∅ := by
  refine Finset.filter_eq_empty_iff.mpr fun id _ h => ?_
  cases hm : r.heap id with
  | none => simp [hm] at h
  | some m =>
    have hle := small id m.unit (unitOf_some.mpr ⟨m, hm, rfl⟩)
    simp only [hm, Option.any_some, Bool.and_eq_true, decide_eq_true_eq] at h
    omega

theorem Ordinary.faithful (o : Ordinary units s) : Faithful s := by
  have hover := heldOversized_eq_empty o.small
  have hunit : ∀ u ∈ s.vars.ram.pool.map.keys, (s.vars.ram.pool.map.val u).total =
      (s.vars.ram.pool.map.val u).free.length + (heldBlocks s.vars.ram u).card := fun u hu =>
    o.inv.total_eq ((o.inv.keys u).mp hu)
  have hval : ∀ u, (state s.vars.ram).units.val u = ⟨u32 (s.vars.ram.pool.map.val u).total, 0,
      u32 (s.vars.ram.pool.map.val u).free.length, u32 ((u32 (s.vars.ram.pool.map.val u).total : Int) -
        u32 (s.vars.ram.pool.map.val u).free.length)⟩ := fun _ => rfl
  have huse : ∀ u ∈ s.vars.ram.pool.map.keys, (state s.vars.ram).units.val u =
      ⟨(s.vars.ram.pool.map.val u).total, 0, (s.vars.ram.pool.map.val u).free.length,
        (heldBlocks s.vars.ram u).card⟩ := by
    intro u hu
    have htotal := o.fits u
    have hsum := hunit u hu
    rw [hval, u32_of_lt htotal, u32_of_lt (show (s.vars.ram.pool.map.val u).free.length < 4294967296 by omega),
      u32_sub (by omega) htotal]
    congr 1
    omega
  refine ⟨fun u hu => by rw [huse u hu], fun u hu => ?_, ?_, ?_, ?_⟩
  · rw [huse u hu]
    exact hunit u hu
  · change u32 s.vars.ram.pool.exceedNew = s.news
    rw [o.exceedNew, o.news]
    rfl
  · change u32 s.vars.ram.pool.exceedDel = s.dels
    rw [o.exceedDel, o.dels]
    rfl
  · change (u32 s.vars.ram.pool.exceedNew : Int) - u32 s.vars.ram.pool.exceedDel = (heldOversized s.vars.ram).card
    rw [o.exceedNew, o.exceedDel, hover]
    rfl

theorem Ordinary.step (o : Ordinary units s) (countable : s.Countable op) (pooled : s.Pooled op)
    (hs : s.step op = some s') : Ordinary units s' := by
  obtain ⟨vars, hv, he⟩ := Option.map_eq_some_iff.mp hs
  have hleaves := bufVars_step_leaves hv
  have hmax : vars.ram.pool.maxUnit = s.vars.ram.pool.maxUnit := hleaves.maxUnit
  have hsmall : ∀ id u, unitOf vars.ram.heap id = some u → u ≤ vars.ram.pool.maxUnit := by
    intro id u hu
    rw [hmax]
    rcases hleaves.unit id u hu with hold | hnew
    · exact o.small id u hold
    · cases op with
      | get size =>
        have hle : ¬s.vars.ram.pool.maxUnit < size := by simpa [Pooled, asksOversized] using pooled
        simp only [BufOp.creates, if_neg hle] at hnew
        exact o.inv.core.key_le (OrdMap.lowerBound_spec hnew).1
      | _ => cases hnew
  have hfits : ∀ v, (vars.ram.pool.map.val v).total < 4294967296 := by
    intro v
    have hold := o.fits v
    rw [hleaves.total v]
    cases op with
    | get size =>
      simp only [BufOp.stock, stock]
      split
      next h =>
        simp only [Countable, h.2.1, Option.all_some, h.2.2, List.isEmpty_nil, Bool.not_true, Bool.false_or,
          decide_eq_true_eq] at countable
        exact countable
      next => exact hold
    | _ => exact hold
  subst he
  refine ⟨bufVars_step_dry o.inv hv, hfits, hsmall, hleaves.exceedNew.trans o.exceedNew,
    hleaves.exceedDel.trans o.exceedDel, ?_, ?_⟩
  · change s.news + (if asksOversized s.vars.ram op then 1 else 0) = 0
    rw [o.news, show asksOversized s.vars.ram op = false from pooled]
    rfl
  · change s.dels + (heldOversized s.vars.ram \ heldOversized vars.ram).card = 0
    rw [o.dels, heldOversized_eq_empty o.small, Finset.empty_sdiff, Finset.card_empty]

/-- The counters never hear of an oversized block. -/
theorem Ordinary.unfaithful (o : Ordinary units s) (oversized : ¬s.Pooled op) (hs : s.step op = some s') :
    ¬Faithful s' := by
  intro h
  obtain ⟨vars, hv, he⟩ := Option.map_eq_some_iff.mp hs
  have hasks : asksOversized s.vars.ram op = true := by simpa [Pooled] using oversized
  have hnews : s'.news = 1 := by
    rw [← he]
    change s.news + (if asksOversized s.vars.ram op then 1 else 0) = 1
    rw [o.news, hasks]
    rfl
  have hzero : (state s'.vars.ram).exceedNew = 0 := by
    change u32 s'.vars.ram.pool.exceedNew = 0
    rw [← he]
    change u32 vars.ram.pool.exceedNew = 0
    rw [(bufVars_step_leaves hv).exceedNew, o.exceedNew]
    rfl
  have hnew := h.exceedNew
  omega

theorem ordinary_start {conf : MemPoolConf} (hinit : ∀ u ∈ conf.keys, (conf.val u).initCnt < 4294967296) :
    Ordinary (configured conf) (start conf) := by
  obtain ⟨hnew, hdel, htotal⟩ := init_counters hinit
  have hinv := inv_init_stepped conf
  refine ⟨hinv, htotal, fun id u hu => ?_, hnew, hdel, rfl, rfl⟩
  by_contra hlt
  exact Multiset.notMem_zero id (hinv.core.exceed hu (Nat.lt_of_not_le hlt))

/-- `state` is right throughout exactly the runs that get no oversized block. -/
theorem state_faithful_iff {conf : MemPoolConf} (hinit : ∀ u ∈ conf.keys, (conf.val u).initCnt < 4294967296)
    {ops : List BufOp} (run : Machine.exec step (start conf) ops = some s)
    (countable : Machine.Along step Countable (start conf) ops) :
    Machine.Throughout step Faithful (start conf) ops ↔ Machine.Along step Pooled (start conf) ops :=
  Machine.throughout_iff_along_under (I := Ordinary (configured conf)) (fun _ o => o.faithful)
    (fun _ _ _ o countable pooled hs => o.step countable pooled hs)
    (fun _ _ _ o _ oversized hs => o.unfaithful oversized hs) (ordinary_start hinit) countable run

/-- A unit that cannot grow is used up, and a block goes back. -/
theorem state_faithful_sample :
    Machine.Throughout step Faithful (start ⟨[8, 32], fun u => ⟨1, u - 8⟩, by decide⟩)
      [.get 5, .get 7, .get 20, .destroy 2, .get 21] := by
  have run : ∃ s, Machine.exec step (start ⟨[8, 32], fun u => ⟨1, u - 8⟩, by decide⟩)
      [.get 5, .get 7, .get 20, .destroy 2, .get 21] = some s := ⟨_, rfl⟩
  obtain ⟨s, run⟩ := run
  exact (state_faithful_iff (by decide) run (by decide)).mpr (by decide)

/-- After one block above the largest unit the counter still shows none. -/
theorem oversized_not_counted : ∃ s, Machine.exec step (start ⟨[8], fun _ => ⟨1, 1⟩, by decide⟩) [.get 9] = some s ∧
    (heldOversized s.vars.ram).card = 1 ∧ (state s.vars.ram).exceedNew = 0 ∧ ¬Faithful s := by
  refine ⟨_, rfl, by decide, by decide, fun h => ?_⟩
  have hnew := h.exceedNew
  revert hnew
  decide

end PoolBooks

end Ven
