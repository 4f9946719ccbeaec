import Ven.BufGet
import Ven.BufSet

namespace Ven

/-- The fields of a packet, in the order in which `serialize` names them. -/
def Packet : List Ty → Type
  | [] => Unit
  | t :: ts => t.Obj × Packet ts

inductive Archive.Mode
  | size
  | write
  | read
deriving DecidableEq

/-- `mem` are the bytes from `buf_.buf_` on and `len` is `buf_.len_`; `trail` are the positions
after each field so far. -/
structure Archive where
  mode : Archive.Mode
  mem : Bytes.Memory
  len : Nat
  pos : Nat
  reads : List (Nat × Nat)
  writes : List (Nat × Nat)
  trail : List Nat

namespace Archive

def new (mode : Mode) (m : Bytes.Memory) (len : Nat) : Archive := ⟨mode, m, len, 0, [], [], []⟩

/-- `operator<<`, with what the field is afterwards. -/
def shl (I : Impl) (ar : Archive) (t : Ty) (v : t.Obj) : Archive × t.Obj :=
  match ar.mode with
  | .size =>
    let pos := add32 ar.pos (Sizer.size t v)
    ({ ar with pos := pos, trail := ar.trail ++ [pos] }, v)
  | .write =>
    let p := Buf.set ar.len t v ar.mem ar.pos
    let pos := add32 ar.pos p.ret
    ({ ar with mem := p.mem, pos := pos, writes := ar.writes ++ p.writes, trail := ar.trail ++ [pos] }, v)
  | .read =>
    let g := Buf.get I ar.mem ar.len t v ar.pos
    let pos := add32 ar.pos g.ret
    ({ ar with pos := pos, reads := ar.reads ++ g.reads, trail := ar.trail ++ [pos] }, g.val)

theorem shl_size (I : Impl) {ar : Archive} (h : ar.mode = .size) (t : Ty) (v : t.Obj) :
    ar.shl I t v = ({ ar with
      pos := add32 ar.pos (Sizer.size t v)
      trail := ar.trail ++ [add32 ar.pos (Sizer.size t v)] }, v) := by
  cases ar
  cases h
  rfl

theorem shl_write (I : Impl) {ar : Archive} (h : ar.mode = .write) (t : Ty) (v : t.Obj) :
    ar.shl I t v = ({ ar with
      mem := (Buf.set ar.len t v ar.mem ar.pos).mem
      pos := add32 ar.pos (Buf.set ar.len t v ar.mem ar.pos).ret
      writes := ar.writes ++ (Buf.set ar.len t v ar.mem ar.pos).writes
      trail := ar.trail ++ [add32 ar.pos (Buf.set ar.len t v ar.mem ar.pos).ret] }, v) := by
  cases ar
  cases h
  rfl

theorem shl_read (I : Impl) {ar : Archive} (h : ar.mode = .read) (t : Ty) (v : t.Obj) :
    ar.shl I t v = ({ ar with
      pos := add32 ar.pos (Buf.get I ar.mem ar.len t v ar.pos).ret
      reads := ar.reads ++ (Buf.get I ar.mem ar.len t v ar.pos).reads
      trail := ar.trail ++ [add32 ar.pos (Buf.get I ar.mem ar.len t v ar.pos).ret] },
      (Buf.get I ar.mem ar.len t v ar.pos).val) := by
  cases ar
  cases h
  rfl

/-- `serialize` of a packet with these fields. -/
def serialize (I : Impl) : (ts : List Ty) → Archive → Packet ts → Archive × Packet ts
  | [], ar, _ => (ar, ())
  | t :: ts, ar, p =>
    let (ar, v) := ar.shl I t p.1
    let (ar, rest) := serialize I ts ar p.2
    (ar, (v, rest))

end Archive

namespace BufConv

variable {σ : Type}

/-- The bytes from `buf_` on. -/
def view (r : Ram σ) (b : Buf) : Bytes.Memory :=
  match b.mem.bind r.heap with
  | none => fun _ => 0
  | some m => fun i => m.bytes (b.buf + i)

/-- The block of a `Buf` after the bytes from `buf_` on have become `m`. -/
def setView (r : Ram σ) (b : Buf) (m : Bytes.Memory) : Ram σ :=
  match b.mem with
  | none => r
  | some id =>
    match r.heap id with
    | none => r
    | some x =>
      let x' := { x with bytes := fun i => if i < b.buf then x.bytes i else m (i - b.buf) }
      { r with heap := Function.update r.heap id (some x') }

/-- `make_buf`, with the packet after `set_size` and the archive of the write pass. -/
def makeBuf (I : Impl) (P : IMemPool σ) (ts : List Ty) (setSize : Nat → Packet ts → Packet ts)
    (r : Ram σ) (p : Packet ts) : Buf × Ram σ × Packet ts × Archive :=
  let size := (Archive.serialize I ts (.new .size (fun _ => 0) 0) p).1.pos
  let p := setSize size p
  if size = 0 then (Buf.null, r, p, .new .write (fun _ => 0) 0)
  else
    let (buf, r₁) := P.get r size
    if buf.mem = none then (buf, r₁, p, .new .write (fun _ => 0) 0)
    else
      let buf := { buf with len := size }
      let (arBuf, r₂) := Buf.assign P r₁ Buf.null buf
      let ar := (Archive.serialize I ts (.new .write (view r₂ arBuf) arBuf.len) p).1
      let r₃ := setView r₂ arBuf ar.mem
      let (res, r₄) := Buf.copy r₃ arBuf
      (res, Buf.destroy P (Buf.destroy P r₄ buf) arBuf, p, ar)

/-- `make_from`, with the archive at its end. -/
def makeFrom (I : Impl) (P : IMemPool σ) (ts : List Ty) (r : Ram σ) (buf : Buf) (p : Packet ts) :
    Ram σ × Archive × Packet ts :=
  let (arBuf, r₁) := Buf.assign P r Buf.null buf
  let (ar, p) := Archive.serialize I ts (.new .read (view r₁ arBuf) arBuf.len) p
  (Buf.destroy P r₁ arBuf, ar, p)

end BufConv

end Ven
