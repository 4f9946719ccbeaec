import Ven.MemPoolDry

namespace Ven

/-- The counters are `uint32_t`. -/
structure UnitMemState where
  total : Nat
  wait : Nat
  free : Nat
  use : Nat
deriving DecidableEq

structure MemState where
  units : OrdMap UnitMemState
  exceedNew : Nat
  exceedDel : Nat

namespace MemPool

def state (r : Ram MemPool) : MemState where
  exceedNew := u32 r.pool.exceedNew
  exceedDel := u32 r.pool.exceedDel
  units := r.pool.map.map fun mems =>
    let total := u32 mems.total
    let free := u32 mems.free.length
    ⟨total, 0, free, u32 ((total : Int) - free)⟩

/-- The blocks above the largest unit that somebody holds. -/
def heldOversized (r : Ram MemPool) : Finset Nat :=
  (Finset.range r.pool.next).filter fun id => (r.heap id).any fun m => decide (r.pool.maxUnit < m.unit) && decide (0 < m.ref)

def asksOversized (r : Ram MemPool) : BufOp → Bool
  | .get size => decide (r.pool.maxUnit < size)
  | _ => false

end MemPool

/-- A program with how many oversized blocks it has had allocated and deleted. -/
structure PoolBooks where
  vars : BufVars MemPool
  news : Nat
  dels : Nat

namespace PoolBooks

open MemPool

def start (conf : MemPoolConf) : PoolBooks := ⟨⟨init conf, [], []⟩, 0, 0⟩

def step (s : PoolBooks) (op : BufOp) : Option PoolBooks :=
  (s.vars.step memPool op).map fun vars =>
    { vars := vars
      news := s.news + if asksOversized s.vars.ram op then 1 else 0
      dels := s.dels + (heldOversized s.vars.ram \ heldOversized vars.ram).card }

/-- What `state` must report. -/
structure Faithful (s : PoolBooks) : Prop where
  use : ∀ u ∈ s.vars.ram.pool.map.keys, ((state s.vars.ram).units.val u).use = (heldBlocks s.vars.ram u).card
  total : ∀ u ∈ s.vars.ram.pool.map.keys, ((state s.vars.ram).units.val u).total =
    ((state s.vars.ram).units.val u).free + ((state s.vars.ram).units.val u).use
  exceedNew : (state s.vars.ram).exceedNew = s.news
  exceedDel : (state s.vars.ram).exceedDel = s.dels
  exceed : ((state s.vars.ram).exceedNew : Int) - (state s.vars.ram).exceedDel = (heldOversized s.vars.ram).card

/-- No `get` is for more than the largest unit. -/
def Pooled (s : PoolBooks) (op : BufOp) : Prop := asksOversized s.vars.ram op = false

instance (s : PoolBooks) (op : BufOp) : Decidable (s.Pooled op) :=
  inferInstanceAs (Decidable (asksOversized s.vars.ram op = false))

/-- A unit that grows stays below 2^32 blocks. -/
def Countable (s : PoolBooks) : BufOp → Prop
  | .get size => ((s.vars.ram.pool.map.lowerBound size).all fun u => !(freeOf s.vars.ram u).isEmpty ||
      decide ((s.vars.ram.pool.map.val u).total + (s.vars.ram.pool.map.val u).stepCnt < 4294967296)) = true
  | _ => True

instance (s : PoolBooks) : ∀ op, Decidable (s.Countable op)
  | .get _ => inferInstanceAs (Decidable (_ = true))
  | .copy _ => isTrue trivial
  | .assign _ _ => isTrue trivial
  | .swap _ _ => isTrue trivial
  | .dettach _ => isTrue trivial
  | .relRef _ => isTrue trivial
  | .destroy _ => isTrue trivial

end PoolBooks

namespace MemPool

/-- What an operation of a pool leaves alone, by how much the totals grow, and of which units the blocks are that
were not there before it. -/
structure Leaves (r r' : Ram MemPool) (fresh : Nat → Prop) (grown : Nat → Nat) : Prop where
  maxUnit : r'.pool.maxUnit = r.pool.maxUnit
  exceedNew : r'.pool.exceedNew = r.pool.exceedNew
  exceedDel : r'.pool.exceedDel = r.pool.exceedDel
  total : ∀ v, (r'.pool.map.val v).total = (r.pool.map.val v).total + grown v
  unit : ∀ id u, unitOf r'.heap id = some u → unitOf r.heap id = some u ∨ fresh u

/-- The same for an operation that creates nothing. -/
def Keeps (r r' : Ram MemPool) : Prop := Leaves r r' (fun _ => False) fun _ => 0

variable {r r' r'' : Ram MemPool} {fresh : Nat → Prop} {grown : Nat → Nat}

theorem Keeps.refl (r : Ram MemPool) : Keeps r r := ⟨rfl, rfl, rfl, fun _ => rfl, fun _ _ hu => Or.inl hu⟩

theorem Leaves.keeps (a : Leaves r r' fresh grown) (b : Keeps r' r'') : Leaves r r'' fresh grown where
  maxUnit := b.maxUnit.trans a.maxUnit
  exceedNew := b.exceedNew.trans a.exceedNew
  exceedDel := b.exceedDel.trans a.exceedDel
  total := fun v => (b.total v).trans (a.total v)
  unit := fun id u hu => a.unit id u ((b.unit id u hu).resolve_right fun h => h)

theorem Keeps.leaves (a : Keeps r r') (fresh : Nat → Prop) : Leaves r r' fresh fun _ => 0 :=
  ⟨a.maxUnit, a.exceedNew, a.exceedDel, a.total, fun id u hu => Or.inl ((a.unit id u hu).resolve_right fun h => h)⟩

theorem keeps_heap {heap : Heap} (h : ∀ id u, unitOf heap id = some u → unitOf r.heap id = some u) :
    Keeps r { r with heap := heap } := ⟨rfl, rfl, rfl, fun _ => rfl, fun id u hu => Or.inl (h id u hu)⟩

theorem keeps_free (r : Ram MemPool) (u : Nat) (f : Mems → List Nat) :
    Keeps r (modify r u fun mems => { mems with free := f mems }) := by
  refine ⟨rfl, rfl, rfl, fun v => ?_, fun _ _ hu => Or.inl hu⟩
  by_cases hv : v = u
  · subst hv
    simp [modify]
  · simp [modify, OrdMap.modify_val_of_ne _ _ hv]

theorem keeps_addRef (r : Ram MemPool) (id : Nat) : Keeps r (r.addRef id) := by
  refine keeps_heap fun k u hk => ?_
  cases hm : r.heap id with
  | none => rwa [show r.heap.addRef id = r.heap by simp [Heap.addRef, hm]] at hk
  | some m =>
    rw [show r.heap.addRef id = Function.update r.heap id (some { m with ref := m.ref + 1 }) by
      simp [Heap.addRef, hm]] at hk
    have hsame : unitOf (Function.update r.heap id (some { m with ref := m.ref + 1 })) k = unitOf r.heap k :=
      unitOf_update hm rfl
    exact hsame.symm.trans hk

theorem keeps_ofMem (r : Ram MemPool) (mem : Option Nat) : Keeps r (Buf.ofMem r mem).2 := by
  cases mem with
  | none => exact Keeps.refl r
  | some id =>
    cases hm : r.heap id with
    | none =>
      rw [show Buf.ofMem r (some id) = (Buf.null, r) by simp only [Buf.ofMem, hm]]
      exact Keeps.refl r
    | some m =>
      rw [show Buf.ofMem r (some id) = (⟨some id, 0, m.unit⟩, r.addRef id) by simp only [Buf.ofMem, hm]]
      exact keeps_addRef r id

theorem keeps_popFree (r : Ram MemPool) (u : Nat) : Keeps r (popFree r u).2 := by
  unfold popFree
  split
  next => exact Keeps.refl r
  next id rest _ => exact keeps_free r u fun _ => rest

theorem leaves_pushNew (unit cnt : Nat) (slist : List Nat) (r : Ram MemPool) :
    Leaves r (pushNew unit cnt slist r).2 (fun v => v = unit) fun _ => 0 := by
  obtain ⟨_, _, _, _, hpool, hheap⟩ := pushNew_spec unit cnt slist r
  refine ⟨by rw [hpool], by rw [hpool], by rw [hpool], fun v => by rw [hpool]; rfl, fun id u hu => ?_⟩
  rw [unitOf, hheap id] at hu
  split at hu
  next => exact Or.inr (Option.some.inj hu).symm
  next => exact Or.inl hu

theorem leaves_incMem (r : Ram MemPool) (u : Nat) : Leaves r (incMem r u) (fun v => v = u)
    fun v => if v = u then (r.pool.map.val u).stepCnt else 0 := by
  have hnew := (leaves_pushNew u (r.pool.map.val u).stepCnt []
    (modify r u fun mems => { mems with total := mems.total + (r.pool.map.val u).stepCnt })).keeps
      (keeps_free _ u fun mems => (pushNew u (r.pool.map.val u).stepCnt []
        (modify r u fun mems => { mems with total := mems.total + (r.pool.map.val u).stepCnt })).1 ++ mems.free)
  refine ⟨hnew.maxUnit, hnew.exceedNew, hnew.exceedDel, fun v => (hnew.total v).trans ?_, hnew.unit⟩
  by_cases hv : v = u
  · subst hv
    simp [modify]
  · simp [modify, OrdMap.modify_val_of_ne _ _ hv, hv]

/-- How many blocks of a unit `get(size)` creates in stock. -/
def stock (r : Ram MemPool) (size v : Nat) : Nat :=
  if size ≤ r.pool.maxUnit ∧ r.pool.map.lowerBound size = some v ∧ freeOf r v = [] then (r.pool.map.val v).stepCnt else 0

theorem leaves_get_oversized {size : Nat} (big : r.pool.maxUnit < size) :
    Leaves r (get r size).2 (fun v => v = size) (stock r size) := by
  have hnone : stock r size = fun _ => 0 := by
    funext v
    exact if_neg fun h => by omega
  have hget : get r size = Buf.ofMem (newMem r size).2 (some r.pool.next) := by
    simp only [get, if_pos big]
    rfl
  have hnew : Leaves r (newMem r size).2 (fun v => v = size) fun _ => 0 := by
    refine ⟨rfl, rfl, rfl, fun _ => rfl, fun id u hu => ?_⟩
    by_cases he : id = r.pool.next
    · rw [he, unitOf] at hu
      change (Function.update r.heap r.pool.next (some ⟨size, 0, fun _ => 0⟩) r.pool.next).map Mem.unit = some u at hu
      rw [Function.update_self] at hu
      exact Or.inr (Option.some.inj hu).symm
    · have hold : (newMem r size).2.heap id = r.heap id := Function.update_of_ne he ..
      rw [unitOf, hold] at hu
      exact Or.inl hu
  rw [hnone, hget]
  exact hnew.keeps (keeps_ofMem _ _)

theorem leaves_get_pooled {size : Nat} (small : ¬r.pool.maxUnit < size) :
    Leaves r (get r size).2 (fun v => r.pool.map.lowerBound size = some v) (stock r size) := by
  have hle : size ≤ r.pool.maxUnit := Nat.le_of_not_lt small
  cases hu : r.pool.map.lowerBound size with
  | none =>
    have hnone : stock r size = fun _ => 0 := by
      funext v
      refine if_neg fun h => ?_
      cases hu.symm.trans h.2.1
    have hget : get r size = (Buf.null, r) := by simp only [get, if_neg small, hu]
    rw [hnone, hget]
    exact (Keeps.refl r).leaves _
  | some u =>
    cases hf : freeOf r u with
    | cons id rest =>
      have hnone : stock r size = fun _ => 0 := by
        funext v
        refine if_neg fun h => ?_
        cases Option.some.inj (hu.symm.trans h.2.1)
        cases hf.symm.trans h.2.2
      have hpop : popFree r u = (some id, (popFree r u).2) := by
        unfold popFree
        rw [show (r.pool.map.val u).free = id :: rest from hf]
      have hget : get r size = Buf.ofMem (popFree r u).2 (some id) := by
        simp only [get, if_neg small, hu]
        rw [hpop]
      rw [hnone, hget]
      exact ((keeps_popFree r u).leaves _).keeps (keeps_ofMem _ _)
    | nil =>
      have hstock : stock r size = fun v => if v = u then (r.pool.map.val u).stepCnt else 0 := by
        funext v
        by_cases hv : v = u
        · subst hv
          rw [if_pos rfl]
          exact if_pos ⟨hle, hu, hf⟩
        · rw [if_neg hv]
          refine if_neg fun h => hv ?_
          exact Option.some.inj (h.2.1.symm.trans hu)
      have hpop : popFree r u = (none, r) := by
        unfold popFree
        rw [show (r.pool.map.val u).free = [] from hf]
      have hget : get r size = Buf.ofMem (popFree (incMem r u) u).2 (popFree (incMem r u) u).1 := by
        simp only [get, if_neg small, hu, hpop]
      have hall := ((leaves_incMem r u).keeps (keeps_popFree (incMem r u) u)).keeps
        (keeps_ofMem (popFree (incMem r u) u).2 (popFree (incMem r u) u).1)
      rw [hstock, hget]
      exact ⟨hall.maxUnit, hall.exceedNew, hall.exceedDel, hall.total,
        fun id v hv => (hall.unit id v hv).imp_right fun he => by rw [he]⟩

theorem keeps_relRef (r : Ram MemPool) (id : Nat) : Keeps r (memPool.relRef r id) := by
  cases hm : r.heap id with
  | none =>
    rw [show memPool.relRef r id = r by simp only [IMemPool.relRef, hm]]
    exact Keeps.refl r
  | some m =>
    let r₁ : Ram MemPool := { r with heap := Function.update r.heap id (some { m with ref := pred32 m.ref }) }
    have hfirst : Keeps r r₁ := keeps_heap fun k u hk => by
      have hsame : unitOf (Function.update r.heap id (some { m with ref := pred32 m.ref })) k = unitOf r.heap k :=
        unitOf_update hm rfl
      exact hsame.symm.trans hk
    have hret : Keeps r₁ (ret r₁ id) := by
      unfold ret
      split
      next => exact Keeps.refl r₁
      next n hn =>
        split
        next =>
          refine keeps_heap fun k u hk => ?_
          by_cases he : k = id
          · rw [he, unitOf, Function.update_self] at hk
            cases hk
          · rwa [unitOf, Function.update_of_ne he] at hk
        next => exact keeps_free r₁ n.unit fun mems => id :: mems.free
    have hrel : memPool.relRef r id = if pred32 m.ref = 0 then ret r₁ id else r₁ := by
      simp only [IMemPool.relRef, hm]
      rfl
    rw [hrel]
    split
    next => exact hfirst.keeps hret
    next => exact hfirst

theorem keeps_destroy (r : Ram MemPool) (b : Buf) : Keeps r (Buf.destroy memPool r b) := by
  unfold Buf.destroy
  cases b.mem with
  | none => exact Keeps.refl r
  | some id => exact keeps_relRef r id

end MemPool

end Ven
