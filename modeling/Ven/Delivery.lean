import Ven.Receiver
import Ven.Machine

namespace Ven

/-- Where the IO thread of a session stands: outside, in `on_conn`, at the head of the loop of `_on_recv`, or in
`on_recv` with a packet of this size. -/
inductive RecvAt
  | rest
  | inConn
  | inLoop
  | inCall (psize : Nat)
deriving DecidableEq

/-- A session's receiving side between any two turns of the loop, calls of the user and acts of other threads. -/
structure Delivering (σ : Type) where
  pos : RecvAt
  session : Receiver σ

inductive DeliverOp
  | conn
  | connected
  | complete (err : Nat) (data : List UInt8)
  | turn
  | returned
  | disc
  | user (op : UserOp)
deriving DecidableEq

namespace Receiver

variable {σ : Type}

/-- `_on_conn_init` up to `on_conn`. -/
def initRBuf (V : ISessionTCP) (P : IMemPool σ) (s : Receiver σ) : Receiver σ :=
  let (rbuf, ram) := s.rbuf.init P s.ram V.receiveBufferSize V.headerSize
  { s with ram := ram, rbuf := rbuf, isConnected := true, isReceiving := false }

/-- Whether an operation is a `push_back` that writes behind the block of its send array. -/
def overruns (s : Receiver σ) : UserOp → Bool
  | .send a => s.isConnected && s.cur.mem.isSome && s.sends[a]?.any fun slist => !slist.isFull && slist.overruns
  | .sendKept i a => s.isConnected && s.kept[i]?.any (fun b => b.mem.isSome) &&
      s.sends[a]?.any fun slist => !slist.isFull && slist.overruns
  | _ => false

/-- Such a write may hit any byte. -/
def smash (s : Receiver σ) : Receiver σ :=
  { s with frames := s.frames.map fun f => { f with written := f.written || f.live } }

end Receiver

namespace Delivering

variable {σ : Type}

/-- `_on_recv` up to its loop. -/
def complete (d : Delivering σ) (err : Nat) (data : List UInt8) : Delivering σ :=
  let s := d.session.fill data
  if err ≠ 0 ∨ data = [] then ⟨.rest, { s with isReceiving := false }.disconnect err⟩
  else ⟨.inLoop, { s with rbuf := s.rbuf.moveTail data.length }⟩

/-- One turn of the loop, up to `on_recv` where a packet is complete. -/
def turn (V : ISessionTCP) (P : IMemPool σ) (d : Delivering σ) : Delivering σ :=
  match V.getPacketSize d.session.window with
  | none => ⟨.rest, d.session.finish P⟩
  | some psize =>
    if ¬V.isValidPacketSize psize then ⟨.rest, { d.session with isReceiving := false }.disconnect 16000⟩
    else if psize ≤ d.session.rbuf.dataLen then ⟨.inCall psize, d.session.call psize⟩
    else ⟨.rest, (d.session.checkSize P psize).finish P⟩

def user (P : IMemPool σ) (d : Delivering σ) (op : UserOp) : Delivering σ :=
  let s := d.session.user P op
  ⟨d.pos, if d.session.overruns op then s.smash else s⟩

def step (V : ISessionTCP) (P : IMemPool σ) (d : Delivering σ) : DeliverOp → Option (Delivering σ)
  | .conn =>
    if d.pos = .rest ∧ d.session.rbuf.buf.mem = none ∧ d.session.isReceiving = false then
      some ⟨.inConn, d.session.initRBuf V P⟩
    else none
  | .connected => if d.pos = .inConn then some ⟨.rest, d.session.recv⟩ else none
  | .complete err data =>
    if d.pos = .rest ∧ d.session.isReceiving = true ∧ data.length ≤ d.session.rbuf.remainLen d.session.ram then
      some (d.complete err data)
    else none
  | .turn => if d.pos = .inLoop then some (d.turn V P) else none
  | .returned =>
    match d.pos with
    | .inCall psize => some ⟨.inLoop, d.session.afterCall P psize⟩
    | _ => none
  | .disc =>
    if d.session.isConnected ∨ d.session.isReceiving then none else some ⟨d.pos, d.session.onDisc P⟩
  | .user op => some (d.user P op)

def stored (d : Delivering σ) : Delivering σ :=
  { d with session := { d.session with ram := { d.session.ram with heap := d.session.ram.heap.stored } } }

end Delivering

/-- A step, with the counters in 32 bits afterwards. -/
def deliverStep {σ : Type} (V : ISessionTCP) (P : IMemPool σ) : Delivering σ → DeliverOp → Option (Delivering σ) :=
  Machine.stored (Delivering.step V P) Delivering.stored

end Ven
