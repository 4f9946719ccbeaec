import Ven.Threads
import Ven.Machine
import Ven.Word

namespace Ven

/-- Where a thread stands. In `MemPool::get`: before the first `pop`, before `VEN_LOCKER`, before the second `pop`, in
the two parts of `inc_mem`, before the third `pop`, before the `Buf` is made of the result, which is still in the lock
there, and before the end of the lock. Behind a `Buf`: before `--ref_`, and in `ret` before the `push`. -/
inductive MemPC
  | idle
  | popping
  | wrapping (mem : Nat)
  | locking
  | again
  | counting
  | making (made : List Nat)
  | last
  | boxing (mem : Option Nat)
  | leaving
  | releasing (mem : Nat)
  | returning (mem : Nat)
deriving DecidableEq

/-- One unit of a `MemPool` and the threads that use it, each `pop` and `push` of the `SListLocker` one step. Blocks
are numbered as they are made, `laid` of them; `bufs` has the block of every `Buf` there is, and `owner` the thread in
whose hands the lock of the list is. -/
structure PoolThreads (ι : Type) where
  free : List Nat
  owner : Option ι
  total : Nat
  laid : Nat
  ref : Nat → Nat
  bufs : List Nat
  thread : ι → MemPC

namespace PoolThreads

/-- What a thread without a call may do with the `Buf`s, and its next step in a call. -/
inductive Op (ι : Type)
  | get (t : ι)
  | copy (t : ι) (mem : Nat)
  | drop (t : ι) (mem : Nat)
  | step (t : ι)
deriving DecidableEq

variable {ι : Type} [DecidableEq ι] (stepCnt : Nat)

/-- A critical section lets its owner in again. -/
def enters (s : PoolThreads ι) (t : ι) : Bool := decide (s.owner = none ∨ s.owner = some t)

def goto (s : PoolThreads ι) (t : ι) (pc : MemPC) : PoolThreads ι := { s with thread := Function.update s.thread t pc }

/-- The blocks that some `Buf` has, or had until its last `--ref_`. -/
def used (s : PoolThreads ι) : Nat := ((Finset.range s.laid).filter fun k => 0 < s.ref k).card

/-- `free_.pop()`, behind which the thread stands at `pc` of the result. -/
def pop (s : PoolThreads ι) (t : ι) (pc : Option Nat → MemPC) : PoolThreads ι :=
  match s.free with
  | [] => s.goto t (pc none)
  | m :: free => { s with free := free }.goto t (pc (some m))

/-- `add_ref` in `Buf(Mem*)` -/
def addRef (s : PoolThreads ι) (mem : Nat) : PoolThreads ι :=
  { s with ref := Function.update s.ref mem (s.ref mem + 1), bufs := mem :: s.bufs }

def stepThread (s : PoolThreads ι) (t : ι) : Option (PoolThreads ι) :=
  match s.thread t with
  | .idle => none
  | .popping => if s.enters t then some (s.pop t fun mem => mem.elim .locking .wrapping) else none
  | .wrapping m => some ((s.addRef m).goto t .idle)
  | .locking => if s.enters t then some ({ s with owner := some t }.goto t .again) else none
  | .again =>
    if s.enters t then some (s.pop t fun mem => mem.elim .counting fun m => .boxing (some m)) else none
  | .counting => some ({ s with total := s.total + stepCnt }.goto t (.making []))
  | .making made =>
    if made.length < stepCnt then
      some ({ s with laid := s.laid + 1, ref := Function.update s.ref s.laid 0 }.goto t (.making (s.laid :: made)))
    else if s.enters t then some ({ s with free := made ++ s.free }.goto t .last)
    else none
  | .last => if s.enters t then some (s.pop t .boxing) else none
  | .boxing none => some (s.goto t .leaving)
  | .boxing (some m) => some ((s.addRef m).goto t .leaving)
  | .leaving => some ({ s with owner := none }.goto t .idle)
  | .releasing m =>
    let s := { s with ref := Function.update s.ref m (pred32 (s.ref m)) }
    some (if s.ref m = 0 then s.goto t (.returning m) else s.goto t .idle)
  | .returning m => if s.enters t then some ({ s with free := m :: s.free }.goto t .idle) else none

def step (s : PoolThreads ι) : Op ι → Option (PoolThreads ι)
  | .get t => if s.thread t = .idle then some (s.goto t .popping) else none
  | .copy t mem => if s.thread t = .idle ∧ mem ∈ s.bufs then some (s.addRef mem) else none
  | .drop t mem =>
    if s.thread t = .idle ∧ mem ∈ s.bufs then some ({ s with bufs := s.bufs.erase mem }.goto t (.releasing mem)) else none
  | .step t => s.stepThread stepCnt t

/-- `total_` and `ref_` are `uint32_t`s. -/
def stored (s : PoolThreads ι) : PoolThreads ι := { s with total := u32 s.total, ref := fun k => u32 (s.ref k) }

/-- One step, with the counters in 32 bits afterwards. -/
def storedStep : PoolThreads ι → Op ι → Option (PoolThreads ι) := Machine.stored (step stepCnt) stored

/-- What `init` makes of a unit. -/
def start (initCnt : Nat) : PoolThreads ι where
  free := (List.range initCnt).reverse
  owner := none
  total := initCnt
  laid := initCnt
  ref _ := 0
  bufs := []
  thread _ := .idle

end PoolThreads

namespace MemPC

/-- How often the block is in the hands of the thread. -/
def hand (k : Nat) : MemPC → Nat
  | wrapping m => if m = k then 1 else 0
  | making made => made.count k
  | boxing (some m) => if m = k then 1 else 0
  | returning m => if m = k then 1 else 0
  | _ => 0

/-- A `Buf` that is about to let go of the block. -/
def refs (k : Nat) : MemPC → Nat
  | releasing m => if m = k then 1 else 0
  | _ => 0

/-- The thread is behind `VEN_LOCKER` in `get`. -/
def locks : MemPC → Bool
  | again => true
  | counting => true
  | making _ => true
  | last => true
  | boxing _ => true
  | leaving => true
  | _ => false

/-- The blocks that `total_` already has and that are still to be made. -/
def owed (stepCnt : Nat) : MemPC → Nat
  | making made => stepCnt - made.length
  | _ => 0

/-- The most steps that are left to the thread until its call returns. -/
def left (stepCnt : Nat) : MemPC → Nat
  | idle => 0
  | popping => stepCnt + 9
  | wrapping _ => 1
  | locking => stepCnt + 8
  | again => stepCnt + 7
  | counting => stepCnt + 6
  | making made => stepCnt - made.length + 4
  | last => 3
  | boxing _ => 2
  | leaving => 1
  | releasing _ => 2
  | returning _ => 1

end MemPC

end Ven
