import Ven.BufArray
import Ven.Machine

namespace Ven

/-- `buf` points into the block of a `Mem`. -/
structure WSABUF where
  buf : Option Nat × Nat
  len : Nat
deriving DecidableEq

structure Ptr where
  block : Nat
  off : Nat
deriving DecidableEq

/-- A block from `malloc`. What is stored in it is found under its offset; `none` is not written yet. -/
structure Chunk where
  size : Nat
  wsabufs : Nat → Option WSABUF
  mems : Nat → Option (Option Nat)

/-- The blocks that are allocated, numbered in the order of their allocation, and every call of `free` and of
`rel_ref` so far. -/
structure Memory where
  chunks : Nat → Option Chunk
  next : Nat
  frees : List Nat
  released : List Nat

namespace Memory

-- a result of `none` is an access outside a live block, or a second `free` of one

def malloc (w : Memory) (size : Nat) : Nat × Memory :=
  (w.next, { w with
    chunks := Function.update w.chunks w.next (some ⟨size, fun _ => none, fun _ => none⟩)
    next := w.next + 1 })

def free (w : Memory) : Option Nat → Option Memory
  | none => some w
  | some id => (w.chunks id).map fun _ =>
    { w with chunks := Function.update w.chunks id none, frees := id :: w.frees }

def relRef (w : Memory) (mem : Nat) : Memory := { w with released := mem :: w.released }

/-- `p[i]` for a `WSABUF* p` -/
def storeWsabuf (w : Memory) (p : Option Ptr) (i : Nat) (wb : WSABUF) : Option Memory :=
  p.bind fun p => (w.chunks p.block).bind fun c =>
    let off := p.off + i * sizeofWSABUF
    if off + sizeofWSABUF ≤ c.size then
      some { w with chunks := Function.update w.chunks p.block (some { c with wsabufs := Function.update c.wsabufs off (some wb) }) }
    else none

/-- `p[i]` for a `Mem** p` -/
def storeMem (w : Memory) (p : Option Ptr) (i : Nat) (mem : Option Nat) : Option Memory :=
  p.bind fun p => (w.chunks p.block).bind fun c =>
    let off := p.off + i * sizeofMemPtr
    if off + sizeofMemPtr ≤ c.size then
      some { w with chunks := Function.update w.chunks p.block (some { c with mems := Function.update c.mems off (some mem) }) }
    else none

/-- `none` for a null pointer too, which is followed. -/
def loadMem (w : Memory) (p : Option Ptr) (i : Nat) : Option Nat :=
  p.bind fun p => (w.chunks p.block).bind fun c =>
    let off := p.off + i * sizeofMemPtr
    if off + sizeofMemPtr ≤ c.size then (c.mems off).join else none

end Memory

namespace Raw

/-- A `BufArray` with the pointers it has. -/
structure BufArray where
  capacity : Nat
  nextIdx : Nat
  m : Option Nat
  wbs : Option Ptr
  mems : Option Ptr
deriving DecidableEq

namespace BufArray

def null : BufArray := ⟨0, 0, none, none, none⟩

def isFull (a : BufArray) : Bool := a.capacity == a.nextIdx

def reserve (w : Memory) (a : BufArray) (size : UInt32) : BufArray × Memory :=
  match a.m with
  | some _ => (a, w)
  | none =>
    let capacity := size.toNat
    -- `malloc_size` is a `uint32_t`
    let (id, w) := w.malloc (u32 (capacity * (sizeofWSABUF + sizeofMemPtr) : Nat))
    (⟨capacity, 0, some id, some ⟨id, 0⟩, some ⟨id, capacity * sizeofWSABUF⟩⟩, w)

/-- The `Buf` keeps its reference when `out_of_range` is thrown. -/
def pushBack (w : Memory) (a : BufArray) (buf : Buf) : Option (Buf × BufArray × Memory) :=
  if a.isFull then some (buf, a, w)
  else
    (w.storeWsabuf a.wbs a.nextIdx ⟨(buf.mem, buf.buf), buf.len⟩).bind fun w =>
      let (mem, buf) := buf.dettach
      (w.storeMem a.mems a.nextIdx mem).map fun w => (buf, { a with nextIdx := a.nextIdx + 1 }, w)

/-- `for (; i < next_idx_; ++i) mems_[i]->rel_ref();` with `cnt` turns to go. -/
def relRefs (mems : Option Ptr) : Nat → Nat → Memory → Option Memory
  | _, 0, w => some w
  | i, cnt + 1, w => (w.loadMem mems i).bind fun mem => relRefs mems (i + 1) cnt (w.relRef mem)

def clear (w : Memory) (a : BufArray) : Option (BufArray × Memory) :=
  (relRefs a.mems 0 a.nextIdx w).map fun w => ({ a with nextIdx := 0 }, w)

def uninit (w : Memory) (a : BufArray) : Option (BufArray × Memory) :=
  (a.clear w).bind fun (a, w) => (w.free a.m).map fun w => ({ a with m := none, wbs := none, mems := none }, w)

def swap (a cls : BufArray) : BufArray × BufArray :=
  ({ a with capacity := cls.capacity, nextIdx := cls.nextIdx, wbs := cls.wbs, mems := cls.mems },
    { cls with capacity := a.capacity, nextIdx := a.nextIdx, wbs := a.wbs, mems := a.mems })

end BufArray

/-- Two arrays, and the references that were pushed into them. -/
structure BufArrays where
  memory : Memory
  arrays : Bool → BufArray
  pushed : List Nat

/-- A pushed `Buf` holds a reference, to `mem`. -/
inductive ArrayOp
  | reserve (x : Bool) (size : UInt32)
  | pushBack (x : Bool) (mem pos len : Nat)
  | clear (x : Bool)
  | uninit (x : Bool)
  | swap (x y : Bool)
deriving DecidableEq

namespace BufArrays

def start : BufArrays := ⟨⟨fun _ => none, 0, [], []⟩, fun _ => BufArray.null, []⟩

def set (s : BufArrays) (x : Bool) (a : BufArray) (w : Memory) : BufArrays :=
  { s with memory := w, arrays := Function.update s.arrays x a }

def step (s : BufArrays) : ArrayOp → Option BufArrays
  | .reserve x size =>
    let (a, w) := (s.arrays x).reserve s.memory size
    some (s.set x a w)
  | .pushBack x mem pos len => ((s.arrays x).pushBack s.memory ⟨some mem, pos, len⟩).map fun (buf, a, w) =>
    { s.set x a w with pushed := if buf.mem.isNone then mem :: s.pushed else s.pushed }
  | .clear x => ((s.arrays x).clear s.memory).map fun (a, w) => s.set x a w
  | .uninit x => ((s.arrays x).uninit s.memory).map fun (a, w) => s.set x a w
  | .swap x y =>
    -- swapping an array with itself changes nothing
    if x = y then some s
    else
      let (a, b) := (s.arrays x).swap (s.arrays y)
      some ((s.set x a s.memory).set y b s.memory)

/-- `~BufArray` of both, `x` first. -/
def destroy (s : BufArrays) (x : Bool) : Option BufArrays := (s.step (.uninit x)).bind fun s => s.step (.uninit !x)

end BufArrays

end Raw

end Ven
