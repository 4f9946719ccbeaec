import Ven.MemPoolOwners

namespace Ven

def Mems.stepped (m : Mems) : Mems := { m with stepCnt := max 1 m.stepCnt }

namespace MemPool

/-- The same pool as if every unit could grow. -/
def stepped (r : Ram MemPool) : Ram MemPool :=
  ⟨r.heap, { r.pool with map := r.pool.map.map Mems.stepped }⟩

variable {r : Ram MemPool} {H : Multiset Nat}

theorem Core.stepped (c : Core r H) : Core (stepped r) H where
  ref_eq := c.ref_eq
  live := c.live
  key := c.key
  nodup := c.nodup
  free := c.free
  exceed := c.exceed
  fresh := c.fresh
  key_le := c.key_le
  step := fun _ => Nat.le_max_left 1 _
  total := c.total

theorem modify_stepped {r : Ram MemPool} {u : Nat} {f g : Mems → Mems}
    (comm : f (r.pool.map.val u).stepped = (g (r.pool.map.val u)).stepped) :
    modify (stepped r) u f = stepped (modify r u g) := by
  have hmap := OrdMap.map_modify r.pool.map u comm
  simp only [modify, stepped, hmap]

theorem pushNew_stepped (unit cnt : Nat) (slist : List Nat) (r : Ram MemPool) :
    pushNew unit cnt slist (stepped r) = ((pushNew unit cnt slist r).1, stepped (pushNew unit cnt slist r).2) := by
  induction cnt generalizing slist r with
  | zero => rfl
  | succ cnt ih => exact ih (r.pool.next :: slist) (newMem r unit).2

theorem popFree_stepped (r : Ram MemPool) (u : Nat) :
    popFree (stepped r) u = ((popFree r u).1, stepped (popFree r u).2) := by
  have hfree : ((stepped r).pool.map.val u).free = (r.pool.map.val u).free := rfl
  cases hf : (r.pool.map.val u).free with
  | nil => simp only [popFree, hfree, hf]
  | cons id rest =>
    have hmod : modify (stepped r) u (fun mems => { mems with free := rest }) =
        stepped (modify r u fun mems => { mems with free := rest }) := modify_stepped rfl
    simp only [popFree, hfree, hf, hmod]

theorem incMem_stepped {u : Nat} (hstep : 1 ≤ (r.pool.map.val u).stepCnt) :
    incMem (stepped r) u = stepped (incMem r u) := by
  have hcnt : ((stepped r).pool.map.val u).stepCnt = (r.pool.map.val u).stepCnt := Nat.max_eq_right hstep
  have hfirst : modify (stepped r) u (fun mems => { mems with total := mems.total + (r.pool.map.val u).stepCnt }) =
      stepped (modify r u fun mems => { mems with total := mems.total + (r.pool.map.val u).stepCnt }) :=
    modify_stepped rfl
  simp only [incMem, hcnt, hfirst, pushNew_stepped]
  exact modify_stepped rfl

/-- A unit that cannot grow stays as it is. -/
theorem incMem_dry {u : Nat} (hu : u ∈ r.pool.map.keys) (hstep : (r.pool.map.val u).stepCnt = 0) : incMem r u = r := by
  have hsame : ∀ f : Mems → Mems, f (r.pool.map.val u) = r.pool.map.val u → modify r u f = r := by
    intro f hf
    rw [modify, OrdMap.modify_eq_self hu hf]
  have htotal : modify r u (fun mems => { mems with total := mems.total + 0 }) = r := hsame _ rfl
  simp only [incMem, hstep, htotal, pushNew]
  exact hsame _ rfl

theorem ofMem_stepped (r : Ram MemPool) (mem : Option Nat) :
    Buf.ofMem (stepped r) mem = ((Buf.ofMem r mem).1, stepped (Buf.ofMem r mem).2) := by
  cases mem with
  | none => rfl
  | some id =>
    have hheap : (stepped r).heap id = r.heap id := rfl
    cases hm : r.heap id with
    | none => simp only [Buf.ofMem, hheap, hm]
    | some m =>
      simp only [Buf.ofMem, hheap, hm]
      rfl

/-- A pool gives what it would give if it could grow, or it gives nothing and stays as it is. -/
theorem get_stepped (r : Ram MemPool) (size : Nat) :
    (get (stepped r) size = ((get r size).1, stepped (get r size).2)) ∨
      (size ≤ r.pool.maxUnit ∧ get r size = (Buf.null, r)) := by
  by_cases big : r.pool.maxUnit < size
  · refine Or.inl ?_
    have hbig : (stepped r).pool.maxUnit < size := big
    have hnew : newMem (stepped r) size = ((newMem r size).1, stepped (newMem r size).2) := rfl
    simp only [get, if_pos big, if_pos hbig, hnew]
    exact ofMem_stepped _ _
  · have hbig : ¬(stepped r).pool.maxUnit < size := big
    have hlower : (stepped r).pool.map.lowerBound size = r.pool.map.lowerBound size := rfl
    cases hu : r.pool.map.lowerBound size with
    | none =>
      refine Or.inr ⟨Nat.le_of_not_lt big, ?_⟩
      simp only [get, if_neg big, hu]
    | some u =>
      have hkey := (OrdMap.lowerBound_spec hu).1
      cases hf : (r.pool.map.val u).free with
      | cons id rest =>
        refine Or.inl ?_
        have hpop : popFree r u = (some id, modify r u fun mems => { mems with free := rest }) := by
          simp only [popFree, hf]
        simp only [get, if_neg big, if_neg hbig, hlower, hu, popFree_stepped, hpop]
        exact ofMem_stepped _ _
      | nil =>
        have hpop : popFree r u = (none, r) := by simp only [popFree, hf]
        by_cases hstep : (r.pool.map.val u).stepCnt = 0
        · refine Or.inr ⟨Nat.le_of_not_lt big, ?_⟩
          simp only [get, if_neg big, hu, hpop, incMem_dry hkey hstep]
          rfl
        · refine Or.inl ?_
          have hinc := incMem_stepped (r := r) (u := u) (by omega)
          simp only [get, if_neg big, if_neg hbig, hlower, hu, popFree_stepped, hpop, hinc]
          exact ofMem_stepped _ _

theorem relRef_stepped (r : Ram MemPool) (id : Nat) :
    memPool.relRef (stepped r) id = stepped (memPool.relRef r id) := by
  have hret : ∀ r' : Ram MemPool, ret (stepped r') id = stepped (ret r' id) := by
    intro r'
    have hheap : (stepped r').heap id = r'.heap id := rfl
    have hmax : (stepped r').pool.maxUnit = r'.pool.maxUnit := rfl
    cases hm : r'.heap id with
    | none => simp only [ret, hheap, hm]
    | some m =>
      have hmod : modify (stepped r') m.unit (fun mems => { mems with free := id :: mems.free }) =
          stepped (modify r' m.unit fun mems => { mems with free := id :: mems.free }) := modify_stepped rfl
      simp only [ret, hheap, hm, hmax, hmod]
      split
      next => rfl
      next => rfl
  have hheap : (stepped r).heap id = r.heap id := rfl
  cases hm : r.heap id with
  | none => simp only [IMemPool.relRef, hheap, hm]
  | some m =>
    simp only [IMemPool.relRef, hheap, hm]
    split
    next => exact hret { r with heap := Function.update r.heap id (some { m with ref := pred32 m.ref }) }
    next => rfl

theorem initUnit_stepped {conf conf' : MemPoolConf} (r : Ram MemPool) (u : Nat)
    (hconf : conf'.val u = ⟨(conf.val u).initCnt, max 1 (conf.val u).stepCnt⟩) :
    initUnit conf' (stepped r) u = stepped (initUnit conf r u) := by
  have hfirst : modify (stepped r) u (fun mems => { mems with
        total := (conf.val u).initCnt
        initCnt := (conf.val u).initCnt
        stepCnt := max 1 (conf.val u).stepCnt
        delCnt := u32 ((conf.val u).initCnt * 2) }) =
      stepped (modify r u fun mems => { mems with
        total := (conf.val u).initCnt
        initCnt := (conf.val u).initCnt
        stepCnt := (conf.val u).stepCnt
        delCnt := u32 ((conf.val u).initCnt * 2) }) := modify_stepped rfl
  simp only [initUnit, hconf, hfirst]
  rw [show ∀ r' : Ram MemPool, ((stepped r').pool.map.val u).free = (r'.pool.map.val u).free from fun _ => rfl,
    pushNew_stepped]
  exact modify_stepped rfl

theorem initUnits_stepped {conf conf' : MemPoolConf} (us : List Nat) (r : Ram MemPool)
    (hconf : ∀ u, conf'.val u = ⟨(conf.val u).initCnt, max 1 (conf.val u).stepCnt⟩) :
    us.foldl (initUnit conf') (stepped r) = stepped (us.foldl (initUnit conf) r) := by
  induction us generalizing r with
  | nil => rfl
  | cons u us ih =>
    rw [List.foldl_cons, List.foldl_cons, initUnit_stepped r u (hconf u)]
    exact ih (initUnit conf r u)

/-- The invariant of a new pool, also of one that cannot grow. -/
theorem inv_init_stepped (conf : MemPoolConf) :
    Inv (configured conf) (fun _ => none) (stepped (init conf)) 0 := by
  have build : ∀ conf' : MemPoolConf, conf'.keys ≠ [] →
      Inv conf'.keys (fun _ => none) (stepped (conf'.keys.foldl (initUnit conf')
        { init₀ with pool := { init₀.pool with maxUnit := conf'.keys.getLastD 0 } })) 0 := by
    intro conf' hne
    let up : MemPoolConf := conf'.map fun mc => ⟨mc.initCnt, max 1 mc.stepCnt⟩
    have hlt := conf'.sorted
    have hup : ∀ u, up.val u = ⟨(conf'.val u).initCnt, max 1 (conf'.val u).stepCnt⟩ := fun _ => rfl
    have hgrows : ∀ u ∈ conf'.keys, 1 ≤ (up.val u).stepCnt := fun u _ => Nat.le_max_left 1 _
    rw [← initUnits_stepped conf'.keys _ hup]
    obtain ⟨hc, htop, hkeys⟩ := (core_init₀ (conf'.keys.getLastD 0)).stepped.initUnits_spec conf'.keys
      (hlt.imp fun h => Nat.ne_of_lt h) (fun u _ => List.not_mem_nil)
      (fun u hu => le_getLastD hlt hu) hgrows
    refine ⟨hc, ?_, ?_, fun _ _ h => by cases h⟩
    · intro x
      rw [hkeys x]
      exact or_iff_left List.not_mem_nil
    · have hlast : conf'.keys.getLastD 0 = conf'.keys.getLast hne := by
        rw [List.getLastD_eq_getLast?, List.getLast?_eq_some_getLast hne, Option.getD_some]
      rw [htop]
      change conf'.keys.getLastD 0 ∈ conf'.keys
      rw [hlast]
      exact List.getLast_mem hne
  by_cases he : conf.keys = []
  · rw [configured, init, if_pos he, if_pos he]
    exact build defaultConf (by decide)
  · rw [configured, init, if_neg he, if_neg he]
    exact build conf he

end MemPool

open MemPool

/-- A step on a pool is one on the pool that can grow, except where a `get` gives nothing. -/
theorem bufVars_step_stepped {s s' : BufVars MemPool} {op : BufOp} (hs : s.step memPool op = some s') :
    ({ s with ram := stepped s.ram } : BufVars MemPool).step memPool op = some { s' with ram := stepped s'.ram } ∨
      ∃ size, op = .get size ∧ size ≤ s.ram.pool.maxUnit ∧ s' = { s with bufs := Buf.null :: s.bufs } := by
  have hdestroy : ∀ (r : Ram MemPool) (b : Buf), Buf.destroy memPool (stepped r) b = stepped (Buf.destroy memPool r b) := by
    intro r b
    unfold Buf.destroy
    cases b.mem with
    | none => rfl
    | some id => exact relRef_stepped r id
  cases op with
  | get size =>
    cases Option.some.inj hs
    rcases get_stepped s.ram size with hget | ⟨hle, hget⟩
    · refine Or.inl ?_
      have hget' : memPool.get (stepped s.ram) size = _ := hget
      simp only [BufVars.step, hget']
      rfl
    · refine Or.inr ⟨size, rfl, hle, ?_⟩
      change (⟨(MemPool.get s.ram size).2, (MemPool.get s.ram size).1 :: s.bufs, s.dettached⟩ : BufVars MemPool) = _
      rw [hget]
  | copy i =>
    refine Or.inl ?_
    obtain ⟨cls, hc, hs⟩ := Option.bind_eq_some_iff.mp hs
    cases Option.some.inj hs
    have hcopy : Buf.copy (stepped s.ram) cls = ((Buf.copy s.ram cls).1, stepped (Buf.copy s.ram cls).2) := by
      unfold Buf.copy
      cases cls.mem with
      | none => rfl
      | some id => rfl
    simp only [BufVars.step, hc, Option.bind_eq_bind, Option.bind_some, hcopy]
    rfl
  | assign i j =>
    refine Or.inl ?_
    obtain ⟨b, hb, hs⟩ := Option.bind_eq_some_iff.mp hs
    obtain ⟨cls, hc, hs⟩ := Option.bind_eq_some_iff.mp hs
    have hassign : Buf.assign memPool (stepped s.ram) b cls =
        ((Buf.assign memPool s.ram b cls).1, stepped (Buf.assign memPool s.ram b cls).2) := by
      unfold Buf.assign
      rw [hdestroy]
      cases cls.mem with
      | none => rfl
      | some id => rfl
    split at hs
    next he =>
      cases Option.some.inj hs
      simp [BufVars.step, he ▸ hb, he]
    next he =>
      cases Option.some.inj hs
      simp only [BufVars.step, hb, hc, Option.bind_eq_bind, Option.bind_some, if_neg he, hassign]
      rfl
  | swap i j =>
    refine Or.inl ?_
    obtain ⟨a, ha, hs⟩ := Option.bind_eq_some_iff.mp hs
    obtain ⟨b, hb, hs⟩ := Option.bind_eq_some_iff.mp hs
    cases Option.some.inj hs
    simp [BufVars.step, ha, hb]
  | dettach i =>
    refine Or.inl ?_
    obtain ⟨b, hb, hs⟩ := Option.bind_eq_some_iff.mp hs
    cases Option.some.inj hs
    simp only [BufVars.step, hb, Option.bind_eq_bind, Option.bind_some]
    rfl
  | relRef k =>
    refine Or.inl ?_
    obtain ⟨mem, hm, hs⟩ := Option.bind_eq_some_iff.mp hs
    cases Option.some.inj hs
    simp [BufVars.step, hm, relRef_stepped]
  | destroy i =>
    refine Or.inl ?_
    obtain ⟨b, hb, hs⟩ := Option.bind_eq_some_iff.mp hs
    cases Option.some.inj hs
    simp [BufVars.step, hb, hdestroy]

/-- The invariant holds of a pool that may be unable to grow as it holds of one that can. -/
theorem bufVars_step_dry {units : List Nat} {born : Nat → Option Nat} {s s' : BufVars MemPool} {op : BufOp}
    (i : Inv units born (stepped s.ram) s.holders) (hs : s.step memPool op = some s') :
    Inv units born (stepped s'.ram) s'.holders := by
  rcases bufVars_step_stepped hs with hstep | ⟨size, _, _, rfl⟩
  · have h : (memPool_contract units born).Inv (stepped s.ram)
        ({ s with ram := stepped s.ram } : BufVars MemPool).holders := i
    exact bufVars_step_inv (memPool_contract units born) h hstep
  · have hsame : ({ s with bufs := Buf.null :: s.bufs } : BufVars MemPool).holders = s.holders := by
      simp [BufVars.holders]
    rw [hsame]
    exact i

end Ven
