import Ven.PoolContract
import Ven.OrdMap

namespace Ven

structure MemConf where
  initCnt : Nat
  stepCnt : Nat
deriving DecidableEq

abbrev MemPoolConf := OrdMap MemConf

/-- The blocks of one unit; `free` is the list with its first node first. -/
structure Mems where
  free : List Nat
  total : Nat
  initCnt : Nat
  stepCnt : Nat
  delCnt : Nat

def Mems.zero : Mems := ⟨[], 0, 0, 0, 0⟩

/-- `next` numbers the `Mem` objects in the order of their creation, so that a deleted object
never comes back under its old name. -/
structure MemPool where
  map : OrdMap Mems
  maxUnit : Nat
  exceedNew : Nat
  exceedDel : Nat
  next : Nat

namespace MemPool

def init₀ : Ram MemPool := ⟨fun _ => none, ⟨OrdMap.empty Mems.zero, 0, 0, 0, 0⟩⟩

def newMem (r : Ram MemPool) (unit : Nat) : Nat × Ram MemPool :=
  let id := r.pool.next
  (id, ⟨Function.update r.heap id (some ⟨unit, 0, fun _ => 0⟩), { r.pool with next := id + 1 }⟩)

def delMem (r : Ram MemPool) (id : Nat) : Ram MemPool :=
  { r with heap := Function.update r.heap id none }

/-- `for (i = 0; i < cnt; ++i) slist.push(new_mem(unit));` -/
def pushNew (unit : Nat) : Nat → List Nat → Ram MemPool → List Nat × Ram MemPool
  | 0, slist, r => (slist, r)
  | cnt + 1, slist, r =>
    let (id, r') := newMem r unit
    pushNew unit cnt (id :: slist) r'

def modify (r : Ram MemPool) (unit : Nat) (f : Mems → Mems) : Ram MemPool :=
  { r with pool := { r.pool with map := r.pool.map.modify unit f } }

def initUnit (conf : MemPoolConf) (r : Ram MemPool) (unit : Nat) : Ram MemPool :=
  let mc := conf.val unit
  let r := modify r unit fun mems =>
    { mems with total := mc.initCnt, initCnt := mc.initCnt, stepCnt := mc.stepCnt,
                delCnt := u32 (mc.initCnt * 2) }
  let (free, r) := pushNew unit mc.initCnt (r.pool.map.val unit).free r
  modify r unit fun mems => { mems with free := free }

/-- The configuration used when none is given. -/
def defaultConf : MemPoolConf :=
  ⟨[1024, 2048, 4096, 8192],
    fun unit => if unit = 8192 then ⟨1000, 100⟩ else ⟨100, 100⟩, by decide⟩

def init (conf : MemPoolConf) : Ram MemPool :=
  let conf := if conf.keys = [] then defaultConf else conf
  let r : Ram MemPool := { init₀ with pool := { init₀.pool with maxUnit := conf.keys.getLastD 0 } }
  conf.keys.foldl (initUnit conf) r

def incMem (r : Ram MemPool) (unit : Nat) : Ram MemPool :=
  let cnt := (r.pool.map.val unit).stepCnt
  let r := modify r unit fun mems => { mems with total := mems.total + cnt }
  let (slist, r) := pushNew unit cnt [] r
  modify r unit fun mems => { mems with free := slist ++ mems.free }

/-- `mems.free_.pop()` -/
def popFree (r : Ram MemPool) (unit : Nat) : Option Nat × Ram MemPool :=
  match (r.pool.map.val unit).free with
  | [] => (none, r)
  | id :: rest => (some id, modify r unit fun mems => { mems with free := rest })

def get (r : Ram MemPool) (size : Nat) : Buf × Ram MemPool :=
  if r.pool.maxUnit < size then
    let (id, r) := newMem r size
    Buf.ofMem r (some id)
  else
    match r.pool.map.lowerBound size with
    -- `lower_bound` stays below `end()`, because the last key is not below `size`
    | none => (Buf.null, r)
    | some unit =>
      match popFree r unit with
      | (some id, r) => Buf.ofMem r (some id)
      | (none, r) =>
        let (mem, r) := popFree (incMem r unit) unit
        Buf.ofMem r mem

def ret (r : Ram MemPool) (id : Nat) : Ram MemPool :=
  match r.heap id with
  | none => r
  | some m =>
    if r.pool.maxUnit < m.unit then delMem r id
    else modify r m.unit fun mems => { mems with free := id :: mems.free }

end MemPool

def memPool : IMemPool MemPool := ⟨MemPool.get, MemPool.ret⟩

end Ven
