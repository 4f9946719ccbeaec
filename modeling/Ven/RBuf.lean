import Ven.PoolContract

namespace Ven

/-- A stretch of a block that is written to. -/
structure Span where
  mem : Nat
  pos : Nat
  len : Nat
deriving DecidableEq

/-- `head` and `tail` are offsets from `buf_->addr_`, and 0 for a null pointer. -/
structure RBuf where
  defaultSize : Nat
  remainingSizeToExchange : Nat
  buf : Buf
  head : Nat
  tail : Nat
deriving DecidableEq

variable {σ : Type}

/-- `unit_` of the block a `Buf` refers to. -/
def Ram.unitAt (r : Ram σ) (b : Buf) : Nat := ((b.mem.bind r.heap).map Mem.unit).getD 0

/-- The bytes `[pos, pos + len)` of the block a `Buf` refers to. -/
def Ram.loadAt (r : Ram σ) (b : Buf) (pos len : Nat) : List UInt8 :=
  match b.mem with
  | none => []
  | some id => r.heap.load id pos len

namespace RBuf

def null : RBuf := ⟨0, 0, Buf.null, 0, 0⟩

def dataLen (b : RBuf) : Nat := u32 ((b.tail : Int) - b.head)

def remainLen (r : Ram σ) (b : RBuf) : Nat := u32 ((r.unitAt b.buf : Int) - b.tail)

def moveTail (b : RBuf) (dist : Nat) : RBuf := { b with tail := b.tail + dist }

def moveHead (b : RBuf) (dist : Nat) : RBuf := { b with head := b.head + dist }

def copyBuf (r : Ram σ) (b : RBuf) : Buf × Ram σ := Buf.copy r b.buf

/-- `memcpy(buf->addr_, head_, len)`, with the span it has written. -/
def copyData (r : Ram σ) (b : RBuf) (buf : Buf) (len : Nat) : Ram σ × List Span :=
  match buf.mem with
  | none => (r, [])
  | some id => (r.store id 0 (r.loadAt b.buf b.head len), [⟨id, 0, len⟩])

def change (P : IMemPool σ) (r : Ram σ) (b : RBuf) (size : Nat) : RBuf × Ram σ × List Span :=
  let (buf, r₁) := P.get r size
  let len := b.dataLen
  let (r₂, wrote) := if 0 < len then copyData r₁ b buf len else (r₁, [])
  let (buf', r₃) := Buf.assign P r₂ b.buf buf
  ({ b with buf := buf', head := 0, tail := len }, Buf.destroy P r₃ buf, wrote)

def checkSize (P : IMemPool σ) (r : Ram σ) (b : RBuf) (packetSize : Nat) : RBuf × Ram σ × List Span :=
  if r.unitAt b.buf < packetSize then change P r b (u32 (packetSize * 2)) else (b, r, [])

def checkArrange (P : IMemPool σ) (r : Ram σ) (b : RBuf) : RBuf × Ram σ × List Span :=
  if b.defaultSize < r.unitAt b.buf ∧ b.dataLen < b.defaultSize then change P r b b.defaultSize
  else if b.remainLen r ≤ b.remainingSizeToExchange then change P r b (r.unitAt b.buf)
  else (b, r, [])

def init (P : IMemPool σ) (r : Ram σ) (b : RBuf) (bufferSize remaining : Nat) : RBuf × Ram σ :=
  let (buf, r₁) := P.get r bufferSize
  let (buf', r₂) := Buf.assign P r₁ b.buf buf
  (⟨bufferSize, remaining, buf', 0, 0⟩, Buf.destroy P r₂ buf)

def uninit (P : IMemPool σ) (r : Ram σ) (b : RBuf) : RBuf × Ram σ :=
  let (buf', r₁) := Buf.assign P r b.buf Buf.null
  ({ b with buf := buf', head := 0, tail := 0 }, r₁)

end RBuf

end Ven
