import Ven.RBuf
import Ven.BufVars
import Ven.Addr

namespace Ven

/-- A window as it is posted: `len` bytes behind `tail` in a block of `unit` bytes. -/
structure Window where
  head : Nat
  tail : Nat
  len : Nat
  unit : Nat
deriving DecidableEq

/-- The receiving side of an open `SessionUDP`; `S` is `sockaddr_in`, and `cur` the local `Buf` of `_on_recv`.
`bufs` and `dettached` belong to its user and to everybody else who uses the pool. `errors`, `calls` and `posts`
record what was reported, what `on_recv` was called with, and every window posted. -/
structure ReceiverUDP (σ S : Type) where
  ram : Ram σ
  rbuf : RBuf
  clientAddr : S
  isReceiving : Bool
  cur : Buf
  bufs : List Buf
  dettached : List Nat
  errors : List Nat
  calls : List (List UInt8 × Addr)
  posts : List Window

/-- What a user may do with the `Buf` that `on_recv` gets, and with the others. -/
inductive UdpUse
  | keep
  | swap (i : Nat)
  | vars (op : BufOp)
  | write (i pos : Nat) (data : List UInt8)

/-- The `Buf` that `on_recv` gets is there only during the call. -/
def UdpUse.ofCall : UdpUse → Bool
  | .keep => true
  | .swap _ => true
  | .vars _ => false
  | .write _ _ _ => false

/-- What `WSARecvFrom` completes with. A failed one may still have filled the window in part, and may or may not
have stored a sender. -/
inductive Completion (S : Type)
  | datagram (data : List UInt8) (sender : S)
  | failed (err : Nat) (data : List UInt8) (sender : Option S)

inductive ReceiveOp (S : Type)
  | use (u : UdpUse)
  | complete (c : Completion S) (uses : List UdpUse) (fail : Option Nat)

namespace Completion

variable {S : Type}

def err : Completion S → Nat
  | .datagram _ _ => 0
  | .failed err _ _ => err

def data : Completion S → List UInt8
  | .datagram data _ => data
  | .failed _ data _ => data

def sender : Completion S → Option S
  | .datagram _ sender => some sender
  | .failed _ _ sender => sender

def isFailed : Completion S → Bool
  | .datagram _ _ => false
  | .failed _ _ _ => true

end Completion

namespace ReceiverUDP

variable {σ S : Type}

def use (P : IMemPool σ) (s : ReceiverUDP σ S) : UdpUse → ReceiverUDP σ S
  | .keep =>
    let (b, ram) := Buf.copy s.ram s.cur
    { s with ram := ram, bufs := b :: s.bufs }
  | .swap i =>
    match s.bufs[i]? with
    | none => s
    | some b => { s with cur := b, bufs := s.bufs.set i s.cur }
  | .vars op =>
    match BufVars.step P ⟨s.ram, s.bufs, s.dettached⟩ op with
    | none => s
    | some t => { s with ram := t.ram, bufs := t.bufs, dettached := t.dettached }
  | .write i pos data =>
    match s.bufs[i]?.bind Buf.mem with
    | none => s
    | some id =>
      if ((s.ram.heap id).map Mem.unit).getD 0 < pos + data.length then s else { s with ram := s.ram.store id pos data }

def uses (P : IMemPool σ) (s : ReceiverUDP σ S) (us : List UdpUse) : ReceiverUDP σ S := us.foldl (use P) s

/-- `fail` is the error with which `WSARecvFrom` fails at once. -/
def recv (s : ReceiverUDP σ S) (fail : Option Nat) : ReceiverUDP σ S :=
  let s := { s with
    isReceiving := true
    posts := s.posts ++ [⟨s.rbuf.head, s.rbuf.tail, s.rbuf.remainLen s.ram, s.ram.unitAt s.rbuf.buf⟩] }
  match fail with
  | none => s
  | some err => { s with isReceiving := false, errors := s.errors ++ [err] }

/-- The kernel fills the window that was posted. -/
def fill (s : ReceiverUDP σ S) (c : Completion S) : ReceiverUDP σ S :=
  match s.rbuf.buf.mem with
  | none => s
  | some id => { s with ram := s.ram.store id s.rbuf.tail c.data, clientAddr := c.sender.getD s.clientAddr }

/-- `_on_recv` up to and with the call of `on_recv`, in which `us` happen; `addr` makes an `Addr` of a `sockaddr_in`. -/
def called (P : IMemPool σ) (addr : S → Addr) (s : ReceiverUDP σ S) (err bytes : Nat) (us : List UdpUse) :
    ReceiverUDP σ S :=
  let s := { s with isReceiving := false }
  let s := if err ≠ 0 then { s with errors := s.errors ++ [err] } else s
  let clientAddr := addr s.clientAddr
  let s := { s with rbuf := s.rbuf.moveTail bytes }
  let rbuf := s.rbuf.head
  let rlen := s.rbuf.dataLen
  let (buf, ram) := s.rbuf.copyBuf s.ram
  let buf := { buf with buf := rbuf, len := rlen }
  { s with ram := ram, cur := buf, calls := s.calls ++ [(ram.loadAt buf buf.buf buf.len, clientAddr)] }.uses P us

/-- The rest of `_on_recv`; the local `Buf` ends with it. -/
def afterCall (P : IMemPool σ) (s : ReceiverUDP σ S) (rlen : Nat) (fail : Option Nat) : ReceiverUDP σ S :=
  let s := { s with rbuf := s.rbuf.moveHead rlen }
  let (rbuf, ram, _) := s.rbuf.checkArrange P s.ram
  let s := { s with rbuf := rbuf, ram := ram, isReceiving := false }
  let s := s.recv fail
  { s with ram := Buf.destroy P s.ram s.cur, cur := Buf.null }

def _on_recv (P : IMemPool σ) (addr : S → Addr) (s : ReceiverUDP σ S) (err bytes : Nat) (us : List UdpUse)
    (fail : Option Nat) : ReceiverUDP σ S :=
  (s.called P addr err bytes us).afterCall P (s.rbuf.moveTail bytes).dataLen fail

/-- The end of `init`, with `bufs` and `dettached` in use by others. -/
def init (P : IMemPool σ) (ram : Ram σ) (bufs : List Buf) (dettached : List Nat) (client : S)
    (receiveBufferSize recvBufRemainingSizeToExchange : Nat) (fail : Option Nat) : ReceiverUDP σ S :=
  let (rbuf, ram) := RBuf.null.init P ram receiveBufferSize recvBufRemainingSizeToExchange
  recv ⟨ram, rbuf, client, false, Buf.null, bufs, dettached, [], [], []⟩ fail

/-- A completion is for a posted window and no longer than it, and a failed one has an error. -/
def step (P : IMemPool σ) (addr : S → Addr) (s : ReceiverUDP σ S) : ReceiveOp S → Option (ReceiverUDP σ S)
  | .use u => if u.ofCall then none else some (s.use P u)
  | .complete c us fail =>
    if ¬s.isReceiving ∨ s.rbuf.remainLen s.ram < c.data.length ∨ (c.isFailed ∧ c.err = 0) then none
    else some ((s.fill c)._on_recv P addr c.err c.data.length us fail)

end ReceiverUDP

end Ven
