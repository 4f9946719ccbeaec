import Ven.SList
import Ven.MemPoolState
import Mathlib.Algebra.GroupWithZero.Nat

namespace Ven

namespace Tm

structure UnitMemConf where
  cnt : Nat
  popCnt : Nat
  pushCnt : Nat
deriving DecidableEq

abbrev MemConf := OrdMap UnitMemConf

/-- The lists of one unit: the one of the heap, `wait_` and `free_` of every thread, and the two local ones of
`pop_from_main` and `pop_from_new`, which are empty outside of them. -/
inductive Shelf (ι : Type)
  | heap
  | wait (t : ι)
  | free (t : ι)
  | ml
  | heapMl
deriving DecidableEq

/-- `sizeof(Mem)` -/
def sizeofMem : Nat := 40

/-- `mem_size`, where `unit * cnt` is a `uint32_t`. -/
def memSize (unit cnt : Nat) : Nat := sizeofMem * cnt + mul32 unit cnt

/-- One unit of the pool, for threads `ι`. Its blocks are numbered as they are laid out, up to `laid`; `held` are those
that callers have, and `overrun` records that blocks were laid out behind the memory allocated for them. -/
structure UnitPool (ι : Type) where
  conf : UnitMemConf
  next : Nat → Option Nat
  lists : Shelf ι → SList Nat
  laid : Nat
  total : Nat
  held : List Nat
  overrun : Bool

namespace UnitPool

variable {ι : Type} [DecidableEq ι]

/-- `list.pop()` -/
def popOne (s : UnitPool ι) (p : Shelf ι) : Option Nat × UnitPool ι :=
  let (mem, list, next) := (s.lists p).pop s.next
  (mem, { s with next := next, lists := Function.update s.lists p list })

/-- `list.push(mem)` -/
def pushOne (s : UnitPool ι) (p : Shelf ι) (mem : Nat) : UnitPool ι :=
  let (list, next) := (s.lists p).push s.next mem
  { s with next := next, lists := Function.update s.lists p list }

/-- `list.pop(cnt, to)` -/
def popSome (s : UnitPool ι) (p : Shelf ι) (cnt : Nat) (q : Shelf ι) : UnitPool ι :=
  let (list, moved, next) := (s.lists p).popSome s.next cnt (s.lists q)
  { s with next := next, lists := Function.update (Function.update s.lists p list) q moved }

/-- `list.push(from)` -/
def pushAll (s : UnitPool ι) (p q : Shelf ι) : UnitPool ι :=
  let (list, rest, next) := (s.lists p).pushAll s.next (s.lists q)
  { s with next := next, lists := Function.update (Function.update s.lists p list) q rest }

/-- `MemList list;` -/
def clear (s : UnitPool ι) (p : Shelf ι) : UnitPool ι := { s with lists := Function.update s.lists p SList.empty }

/-- The loop of `set_mem_list`. -/
def setMemList : Nat → UnitPool ι → UnitPool ι
  | 0, s => s
  | cnt + 1, s => setMemList cnt (pushOne { s with laid := s.laid + 1 } .ml s.laid)

def newMem (unit : Nat) (s : UnitPool ι) : UnitPool ι :=
  let cnt := s.conf.cnt
  let s := setMemList cnt s
  { s with
    total := add32 s.total cnt
    overrun := s.overrun || decide (memSize unit cnt < (sizeofMem + unit) * cnt) }

def popFromThread (s : UnitPool ι) (t : ι) : Option Nat × UnitPool ι :=
  match s.popOne (.wait t) with
  | (some mem, s) => (some mem, s)
  | (none, s) => s.popOne (.free t)

def popFromMain (s : UnitPool ι) (t : ι) : Option Nat × UnitPool ι :=
  let s := s.clear .ml
  let s := s.popSome .heap s.conf.popCnt .ml
  if 0 < (s.lists .ml).cnt then
    let (mem, s) := s.popOne .ml
    (mem, s.pushAll (.wait t) .ml)
  else (none, s)

/-- What is more than `pop_cnt_` of a new chunk goes to the heap. -/
def share (s : UnitPool ι) : UnitPool ι :=
  let cnt := (s.lists .ml).cnt
  if s.conf.popCnt < cnt then
    let s := s.clear .heapMl
    let s := s.popSome .ml (cnt - s.conf.popCnt) .heapMl
    s.pushAll .heap .heapMl
  else s

def popFromNew (unit : Nat) (s : UnitPool ι) (t : ι) : Option Nat × UnitPool ι :=
  let s := share (newMem unit (s.clear .ml))
  let (mem, s) := s.popOne .ml
  (mem, s.pushAll (.wait t) .ml)

def pop (unit : Nat) (s : UnitPool ι) (t : ι) : Option Nat × UnitPool ι :=
  match s.popFromThread t with
  | (some mem, s) => (some mem, s)
  | (none, s) =>
    match s.popFromMain t with
    | (some mem, s) => (some mem, s)
    | (none, s) => s.popFromNew unit t

def push (s : UnitPool ι) (t : ι) (mem : Nat) : UnitPool ι :=
  let s := s.pushOne (.free t) mem
  if s.conf.pushCnt ≤ (s.lists (.free t)).cnt then s.pushAll .heap (.free t) else s

/-- The blocks of `new_mem_for_heap`, which has one chunk for all units; the list moves to the `MemListLocker`. -/
def init (conf : UnitMemConf) : UnitPool ι :=
  let s : UnitPool ι := ⟨conf, fun _ => none, fun _ => SList.empty, 0, 0, [], false⟩
  let s := setMemList conf.cnt s
  { s with
    lists := Function.update (Function.update s.lists .heap (s.lists .ml)) .ml SList.empty
    total := add32 s.total conf.cnt }

/-- One unit in `state`, for the threads of `hlist_`. -/
def state (s : UnitPool ι) (hlist : List ι) : UnitMemState :=
  let us : UnitMemState := ⟨s.total, 0, 0, 0⟩
  let us := { us with wait := add32 us.wait (s.lists .heap).cnt }
  let us := hlist.foldl (fun us t =>
    { us with free := add32 us.free (s.lists (.free t)).cnt, wait := add32 us.wait (s.lists (.wait t)).cnt }) us
  { us with use := u32 ((us.total : Int) - us.wait - us.free) }

end UnitPool

/-- `hlist` are the threads that have a `Heapt`, `large` counts the blocks above `max_unit_` that callers have, and
`misses` records the units for which `Heapt::pop` has returned null. -/
structure TlsMemPool (ι : Type) where
  units : OrdMap (UnitPool ι)
  maxUnit : Nat
  hlist : List ι
  overrun : Bool
  exceedNew : Nat
  exceedDel : Nat
  large : Nat
  misses : List Nat

/-- A block is returned by whatever thread. -/
inductive PoolOp (ι : Type)
  | get (t : ι) (size : Nat)
  | ret (t : ι) (unit mem : Nat)
  | retLarge (t : ι)

namespace TlsMemPool

variable {ι : Type} [DecidableEq ι]

theorem defaultUnits_sorted : [1024, 2048, 4096, 8192].Pairwise (· < ·) := by decide

def defaultConf : MemConf := ⟨[1024, 2048, 4096, 8192], fun _ => ⟨100, 10, 5⟩, defaultUnits_sorted⟩

/-- The configuration that `init` uses. -/
def chosen (conf : MemConf) : MemConf := if conf.keys = [] then defaultConf else conf

def init (conf : MemConf) : TlsMemPool ι :=
  let conf := chosen conf
  let size := (conf.keys.map fun unit => memSize unit (conf.val unit).cnt).sum
  let used := (conf.keys.map fun unit => (sizeofMem + unit) * (conf.val unit).cnt).sum
  ⟨conf.map UnitPool.init, conf.keys.getLastD 0, [], decide (size < used), 0, 0, 0, []⟩

def getThreadMem (s : TlsMemPool ι) (t : ι) : TlsMemPool ι :=
  if t ∈ s.hlist then s else { s with hlist := s.hlist ++ [t] }

def newMem (s : TlsMemPool ι) : TlsMemPool ι := { s with exceedNew := add32 s.exceedNew 1, large := s.large + 1 }

def delMem (s : TlsMemPool ι) : TlsMemPool ι := { s with exceedDel := add32 s.exceedDel 1, large := s.large - 1 }

def get (s : TlsMemPool ι) (t : ι) (size : Nat) : TlsMemPool ι :=
  if s.maxUnit < size then s.newMem
  else
    let s := s.getThreadMem t
    match s.units.lowerBound size with
    -- `lower_bound` stays below `end()`, because the last key is not below `size`
    | none => s
    | some unit =>
      match (s.units.val unit).pop unit t with
      | (some mem, p) => { s with units := s.units.modify unit fun _ => { p with held := mem :: p.held } }
      | (none, p) => { s with units := s.units.modify unit fun _ => p, misses := s.misses ++ [unit] }

def ret (s : TlsMemPool ι) (t : ι) (unit mem : Nat) : TlsMemPool ι :=
  let s := s.getThreadMem t
  { s with units := s.units.modify unit fun p => { p with held := p.held.erase mem }.push t mem }

def step (s : TlsMemPool ι) : PoolOp ι → Option (TlsMemPool ι)
  | .get t size => some (s.get t size)
  | .ret t unit mem =>
    if unit ∈ s.units.keys ∧ mem ∈ (s.units.val unit).held then some (s.ret t unit mem) else none
  | .retLarge _ => if 0 < s.large then some s.delMem else none

def state (s : TlsMemPool ι) : MemState where
  units := s.units.map fun p => p.state s.hlist
  exceedNew := s.exceedNew
  exceedDel := s.exceedDel

end TlsMemPool

end Tm

end Ven
