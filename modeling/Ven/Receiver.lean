import Ven.RBuf
import Ven.BufArray

namespace Ven

/-- The virtual functions of a session that receiving depends on. `getPacketSize` sees the bytes
`[buf, buf + len)` and is `none` where the C++ function returns false. -/
structure ISessionTCP where
  getPacketSize : List UInt8 → Option Nat
  isValidPacketSize : Nat → Bool
  headerSize : Nat
  receiveBufferSize : Nat

namespace SessionTCP

def headerSize : Nat := 4

def getPacketSize (buf : List UInt8) : Option Nat :=
  if buf.length < headerSize then none else some (Bytes.leNat (buf.take 4))

def isValidPacketSize (size : Nat) : Bool := size != 0 && decide (size ≤ 1024 * 128)

/-- The functions as `SessionTCP` defines them, with some receive buffer size. -/
def defaults (receiveBufferSize : Nat) : ISessionTCP :=
  ⟨getPacketSize, isValidPacketSize, headerSize, receiveBufferSize⟩

end SessionTCP

/-- What was passed to one call of `on_recv`. It is live while its block has been held without
interruption, and `written` records a write to its bytes in that time. -/
structure Frame where
  mem : Nat
  off : Nat
  len : Nat
  data : List UInt8
  live : Bool
  written : Bool
deriving DecidableEq

/-- A session's receiving side, the `Buf` objects its user has made from what it delivered
(`kept`, and the entries of `sends`), and everybody else who uses the pool. -/
structure Receiver (σ : Type) where
  ram : Ram σ
  rbuf : RBuf
  isConnected : Bool
  isReceiving : Bool
  dovErr : Nat
  cur : Buf
  kept : List Buf
  sends : List (BufArray Buf)
  others : List Buf
  dettached : List Nat
  frames : List Frame

inductive UserOp
  | copy
  | send (a : Nat)
  | copyKept (i : Nat)
  | sendKept (i a : Nat)
  | dropKept (i : Nat)
  | clear (a : Nat)
  | other (op : BufOp)
  | write (i pos : Nat) (data : List UInt8)
  | disconnect
deriving DecidableEq

/-- A write past the end of its block may hit any other block. -/
def Span.touches (h : Heap) (s : Span) (f : Frame) : Bool :=
  decide (0 < s.len) && (decide (s.mem = f.mem ∧ s.pos < f.off + f.len ∧ f.off < s.pos + s.len) ||
    decide (((h s.mem).map Mem.unit).getD 0 < s.pos + s.len))

namespace Receiver

variable {σ : Type}

def userBufs (s : Receiver σ) : List Buf := s.cur :: (s.kept ++ s.sends.flatMap BufArray.items)

def othersHeld (s : Receiver σ) : Multiset Nat := heldBy s.others + (s.dettached : Multiset Nat)

def mine (s : Receiver σ) : Multiset Nat := s.rbuf.buf.held + heldBy s.userBufs

def holders (s : Receiver σ) : Multiset Nat := s.othersHeld + s.mine

/-- The bytes between `head_` and `tail_`. -/
def window (s : Receiver σ) : List UInt8 := s.ram.loadAt s.rbuf.buf s.rbuf.head s.rbuf.dataLen

def expire (s : Receiver σ) : Receiver σ :=
  { s with frames := s.frames.map fun f => { f with live := f.live && decide (f.mem ∈ s.holders) } }

def mark (s : Receiver σ) (wrote : List Span) : Receiver σ :=
  { s with frames := s.frames.map fun f =>
      { f with written := f.written || (f.live && wrote.any fun w => w.touches s.ram.heap f) } }

/-- `_disconnect` up to its test whether anything is still outstanding. -/
def disconnect (s : Receiver σ) (err : Nat) : Receiver σ :=
  if s.isConnected then { s with dovErr := err, isConnected := false } else s

def user (P : IMemPool σ) (s : Receiver σ) : UserOp → Receiver σ
  | .copy =>
    let (b, r) := Buf.copy s.ram s.cur
    { s with ram := r, kept := b :: s.kept }
  | .send a =>
    if ¬s.isConnected ∨ s.cur.mem = none then s else
      match s.sends[a]? with
      | none => s
      | some slist =>
        match slist.pushBack s.cur with
        | none => s
        | some slist' => { s with sends := s.sends.set a slist', cur := s.cur.dettach.2 }
  | .copyKept i =>
    match s.kept[i]? with
    | none => s
    | some cls =>
      let (b, r) := Buf.copy s.ram cls
      { s with ram := r, kept := b :: s.kept }
  | .sendKept i a =>
    match s.kept[i]?, s.sends[a]? with
    | some b, some slist =>
      if ¬s.isConnected ∨ b.mem = none then s else
        match slist.pushBack b with
        | none => s
        | some slist' => { s with sends := s.sends.set a slist', kept := s.kept.set i b.dettach.2 }
    | _, _ => s
  | .dropKept i =>
    match s.kept[i]? with
    | none => s
    | some b => expire { s with ram := Buf.destroy P s.ram b, kept := s.kept.eraseIdx i }
  | .clear a =>
    match s.sends[a]? with
    | none => s
    | some slist =>
      let (slist', r) := slist.clear P s.ram
      expire { s with ram := r, sends := s.sends.set a slist' }
  | .other op =>
    match BufVars.step P ⟨s.ram, s.others, s.dettached⟩ op with
    | none => s
    | some t => expire { s with ram := t.ram, others := t.bufs, dettached := t.dettached }
  | .write i pos data =>
    match s.others[i]?.bind Buf.mem with
    | none => s
    | some id =>
      if ((s.ram.heap id).map Mem.unit).getD 0 < pos + data.length then s else
        mark { s with ram := s.ram.store id pos data } [⟨id, pos, data.length⟩]
  | .disconnect => s.disconnect 0

def users (P : IMemPool σ) (s : Receiver σ) (ops : List UserOp) : Receiver σ := ops.foldl (user P) s

/-- The state in which `on_recv` is called. -/
def call (s : Receiver σ) (psize : Nat) : Receiver σ :=
  let (buf, ram) := s.rbuf.copyBuf s.ram
  let frame := buf.mem.toList.map fun id =>
    ⟨id, s.rbuf.head, psize, s.ram.loadAt s.rbuf.buf s.rbuf.head psize, true, false⟩
  { s with ram := ram, cur := { buf with buf := s.rbuf.head, len := psize }, frames := s.frames ++ frame }

/-- `move_head`, and the end of the local `buf`. -/
def afterCall (P : IMemPool σ) (s : Receiver σ) (psize : Nat) : Receiver σ :=
  expire { s with rbuf := s.rbuf.moveHead psize, ram := Buf.destroy P s.ram s.cur, cur := Buf.null }

def deliver (P : IMemPool σ) (s : Receiver σ) (psize : Nat) (ops : List UserOp) : Receiver σ :=
  ((s.call psize).users P ops).afterCall P psize

def rearrange (s : Receiver σ) (res : RBuf × Ram σ × List Span) : Receiver σ :=
  expire (mark { s with rbuf := res.1, ram := res.2.1 } res.2.2)

def checkSize (P : IMemPool σ) (s : Receiver σ) (psize : Nat) : Receiver σ :=
  s.rearrange (s.rbuf.checkSize P s.ram psize)

def checkArrange (P : IMemPool σ) (s : Receiver σ) : Receiver σ :=
  s.rearrange (s.rbuf.checkArrange P s.ram)

/-- The window is posted to the kernel. -/
def recv (s : Receiver σ) : Receiver σ :=
  if s.isConnected then { s with isReceiving := true } else s

/-- The end of `_on_recv` once no further frame is complete. -/
def finish (P : IMemPool σ) (s : Receiver σ) : Receiver σ :=
  let s' := { s.checkArrange P with isReceiving := false }
  if s'.isConnected then s'.recv else s'.disconnect 0

/-- The loop of `_on_recv`. The `k`-th list of `calls` is what happens during its `k`-th call of
`on_recv`; `none` when the fuel runs out. -/
def loop (V : ISessionTCP) (P : IMemPool σ) : Nat → List (List UserOp) → Receiver σ → Option (Receiver σ)
  | 0, _, _ => none
  | fuel + 1, calls, s =>
    match V.getPacketSize s.window with
    | none => some (s.finish P)
    | some psize =>
      if ¬V.isValidPacketSize psize then some ({ s with isReceiving := false }.disconnect 16000)
      else if psize ≤ s.rbuf.dataLen then loop V P fuel calls.tail (s.deliver P psize (calls.headD []))
      else some ((s.checkSize P psize).finish P)

def onRecv (V : ISessionTCP) (P : IMemPool σ) (s : Receiver σ) (err bytes : Nat)
    (calls : List (List UserOp)) : Option (Receiver σ) :=
  if err ≠ 0 ∨ bytes = 0 then some ({ s with isReceiving := false }.disconnect err)
  else
    let s' := { s with rbuf := s.rbuf.moveTail bytes }
    s'.loop V P (s'.rbuf.dataLen + 1) calls

/-- `WSARecv` fills the posted window. -/
def fill (s : Receiver σ) (data : List UInt8) : Receiver σ :=
  match s.rbuf.buf.mem with
  | none => s
  | some id => mark { s with ram := s.ram.store id s.rbuf.tail data } [⟨id, s.rbuf.tail, data.length⟩]

/-- `_on_conn_init`, as far as receiving is concerned. -/
def onConnInit (V : ISessionTCP) (P : IMemPool σ) (s : Receiver σ) (ops : List UserOp) : Receiver σ :=
  let (rbuf, ram) := s.rbuf.init P s.ram V.receiveBufferSize V.headerSize
  (users P { s with ram := ram, rbuf := rbuf, isConnected := true, isReceiving := false } ops).recv

/-- `_on_disc`, as far as receiving is concerned. -/
def onDisc (P : IMemPool σ) (s : Receiver σ) : Receiver σ :=
  let (rbuf, ram) := s.rbuf.uninit P s.ram
  expire { s with ram := ram, rbuf := rbuf }

end Receiver

inductive RecvOp
  | conn (ops : List UserOp)
  | complete (err : Nat) (data : List UInt8) (calls : List (List UserOp))
  | disc
  | user (op : UserOp)
deriving DecidableEq

/-- A step of a session's life as far as receiving is concerned; `none` where it cannot happen. -/
def Receiver.step {σ : Type} (V : ISessionTCP) (P : IMemPool σ) (s : Receiver σ) :
    RecvOp → Option (Receiver σ)
  | .conn ops =>
    if s.rbuf.buf.mem ≠ none ∨ s.isReceiving then none else some (s.onConnInit V P ops)
  | .complete err data calls =>
    if ¬s.isReceiving ∨ s.rbuf.remainLen s.ram < data.length then none
    else (s.fill data).onRecv V P err data.length calls
  | .disc => if s.isConnected ∨ s.isReceiving then none else some (s.onDisc P)
  | .user op => some (s.user P op)

end Ven
