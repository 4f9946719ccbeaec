import Ven.ByteMemory
import Ven.Word
import Mathlib.Logic.Function.Basic

namespace Ven

/-- A `Mem` object together with the block its `addr_` points to. -/
structure Mem where
  unit : Nat
  ref : Nat
  bytes : Bytes.Memory

/-- The `Mem` objects in existence: `none` is never created or already deleted. -/
abbrev Heap := Nat → Option Mem

structure Ram (σ : Type) where
  heap : Heap
  pool : σ

/-- `buf` is the offset of `buf_` from the start of the block. -/
structure Buf where
  mem : Option Nat
  buf : Nat
  len : Nat
deriving DecidableEq

def Buf.null : Buf := ⟨none, 0, 0⟩

structure IMemPool (σ : Type) where
  get : Ram σ → Nat → Buf × Ram σ
  ret : Ram σ → Nat → Ram σ

namespace Heap

def addRef (h : Heap) (id : Nat) : Heap :=
  match h id with
  | none => h
  | some m => Function.update h id (some { m with ref := m.ref + 1 })

/-- The counters as `uint32_t`s: `addRef` itself counts on. -/
def stored (h : Heap) : Heap := fun id => (h id).map fun m => { m with ref := u32 m.ref }

def store (h : Heap) (id : Nat) (pos : Nat) (data : List UInt8) : Heap :=
  match h id with
  | none => h
  | some m => Function.update h id (some { m with bytes := Bytes.writeAt m.bytes pos data })

/-- The bytes `[pos, pos + len)` of a block. -/
def load (h : Heap) (id : Nat) (pos len : Nat) : List UInt8 :=
  match h id with
  | none => []
  | some m => Bytes.readAt m.bytes pos len

end Heap

variable {σ : Type}

def Ram.addRef (r : Ram σ) (id : Nat) : Ram σ := { r with heap := r.heap.addRef id }

def Ram.store (r : Ram σ) (id : Nat) (pos : Nat) (data : List UInt8) : Ram σ :=
  { r with heap := r.heap.store id pos data }

def IMemPool.relRef (P : IMemPool σ) (r : Ram σ) (id : Nat) : Ram σ :=
  match r.heap id with
  | none => r
  | some m =>
    let r' : Ram σ := { r with heap := Function.update r.heap id (some { m with ref := pred32 m.ref }) }
    if pred32 m.ref = 0 then P.ret r' id else r'

namespace Buf

/-- `Buf(Mem* mem)` -/
def ofMem (r : Ram σ) : Option Nat → Buf × Ram σ
  | none => (null, r)
  | some id =>
    match r.heap id with
    | none => (null, r)
    | some m => (⟨some id, 0, m.unit⟩, r.addRef id)

/-- `Buf(const Buf& cls)` -/
def copy (r : Ram σ) (cls : Buf) : Buf × Ram σ :=
  match cls.mem with
  | none => (null, r)
  | some id => (cls, r.addRef id)

/-- `~Buf()` -/
def destroy (P : IMemPool σ) (r : Ram σ) (b : Buf) : Ram σ :=
  match b.mem with
  | none => r
  | some id => P.relRef r id

/-- `operator=` between two different objects: the old block is released before the new one
is acquired. -/
def assign (P : IMemPool σ) (r : Ram σ) (b cls : Buf) : Buf × Ram σ :=
  let r' := destroy P r b
  match cls.mem with
  | none => (cls, r')
  | some id => (cls, r'.addRef id)

def dettach (b : Buf) : Option Nat × Buf := (b.mem, null)

end Buf

theorem Heap.addRef_self {h : Heap} {id : Nat} {m : Mem} (hm : h id = some m) :
    h.addRef id id = some { m with ref := m.ref + 1 } := by simp [Heap.addRef, hm]

theorem Heap.addRef_of_ne (h : Heap) {id k : Nat} (hk : k ≠ id) : h.addRef id k = h k := by
  cases hm : h id <;> simp [Heap.addRef, hm, hk]

theorem Heap.stored_eq {h : Heap} (bound : ∀ id m, h id = some m → m.ref < 4294967296) : h.stored = h := by
  funext id
  cases hm : h id with
  | none => simp [Heap.stored, hm]
  | some m => simp [Heap.stored, hm, u32_of_lt (bound id m hm)]

theorem Heap.store_self {h : Heap} {id : Nat} {m : Mem} (hm : h id = some m) (pos : Nat)
    (data : List UInt8) :
    h.store id pos data id = some { m with bytes := Bytes.writeAt m.bytes pos data } := by
  simp [Heap.store, hm]

theorem Heap.store_of_ne (h : Heap) {id k : Nat} (hk : k ≠ id) (pos : Nat) (data : List UInt8) :
    h.store id pos data k = h k := by
  cases hm : h id <;> simp [Heap.store, hm, hk]

/-- Both heaps hold the block, with the same size and the same contents. -/
def SameBlock (h h' : Heap) (id : Nat) : Prop :=
  ∃ m m', h id = some m ∧ h' id = some m' ∧ m'.unit = m.unit ∧ m'.bytes = m.bytes

theorem SameBlock.of_eq {h h' : Heap} {id : Nat} {m : Mem} (hm : h id = some m)
    (he : h' id = h id) : SameBlock h h' id := ⟨m, m, hm, he.trans hm, rfl, rfl⟩

theorem SameBlock.trans {h h' h'' : Heap} {id : Nat} (a : SameBlock h h' id)
    (b : SameBlock h' h'' id) : SameBlock h h'' id := by
  obtain ⟨m, m', hm, hm', hu, hb⟩ := a
  obtain ⟨n, n', hn, hn', hu', hb'⟩ := b
  cases Option.some.inj (hm'.symm.trans hn)
  exact ⟨m, n', hm, hn', hu'.trans hu, hb'.trans hb⟩

theorem SameBlock.unit {h h' : Heap} {id : Nat} {m : Mem} (a : SameBlock h h' id) (hm : h id = some m) :
    ∃ m', h' id = some m' ∧ m'.unit = m.unit := by
  obtain ⟨n, n', hn, hn', hu, _⟩ := a
  cases Option.some.inj (hm.symm.trans hn)
  exact ⟨n', hn', hu⟩

theorem SameBlock.load {h h' : Heap} {id : Nat} (a : SameBlock h h' id) (pos len : Nat) :
    h'.load id pos len = h.load id pos len := by
  obtain ⟨m, m', hm, hm', _, hb⟩ := a
  simp [Heap.load, hm, hm', hb]

theorem SameBlock.addRef {h : Heap} {id k : Nat} {m : Mem} (hm : h k = some m) :
    SameBlock h (h.addRef id) k := by
  by_cases hk : k = id
  · subst hk
    exact ⟨m, _, hm, Heap.addRef_self hm, rfl, rfl⟩
  · exact SameBlock.of_eq hm (Heap.addRef_of_ne h hk)

end Ven
