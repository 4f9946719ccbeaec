import Ven.ReceiveWindow
import Ven.Segmentation
import Ven.SendDrain
import Ven.SendSizes
import Ven.Stream

namespace Ven

/-- One direction of a connection: the sending side of one session, the bytes that were submitted and not received
yet, and the receiving side of the session at the other end. Nothing can be submitted after a `WSASend` has failed. -/
structure Link (σ : Type) where
  sender : Sender (List UInt8)
  wire : List UInt8
  broken : Bool
  receiver : Receiver σ

inductive LinkOp
  | send (op : SendOp (List UInt8))
  | conn (ops : List UserOp)
  | recv (data : List UInt8) (calls : List (List UserOp))
  | lost (err : Nat)
  | user (op : UserOp)
  | drop (err : Nat)
deriving DecidableEq

/-- What is passed to `send` is one packet. -/
def LinkOp.Packet : LinkOp → Prop
  | .send (.call _ (some buf)) => Whole buf
  | _ => True

namespace Link

variable {σ : Type}

/-- What the `WSASend` of a thread is given. -/
def handing (l : Link σ) (t : Nat) : List UInt8 :=
  (((l.sender.thread t).sov.map l.sender.pool.items).getD []).flatten

def send (l : Link σ) (op : SendOp (List UInt8)) : Option (Link σ) :=
  (l.sender.sizedStep op).bind fun s =>
    match op with
    | .wsaSend t none => if l.broken then none else some { l with sender := s, wire := l.wire ++ l.handing t }
    | .wsaSend _ (some _) => some { l with sender := s, broken := true }
    | _ => some { l with sender := s }

/-- The bytes come out in the order in which they went in, in pieces of any size. -/
def step (rbs : Nat) (P : IMemPool σ) (l : Link σ) : LinkOp → Option (Link σ)
  | .send op => l.send op
  | .conn ops => (l.receiver.step (SessionTCP.defaults rbs) P (.conn ops)).map fun r => { l with receiver := r }
  | .recv data calls =>
    if data ≠ [] ∧ data <+: l.wire then
      (l.receiver.step (SessionTCP.defaults rbs) P (.complete 0 data calls)).map fun r =>
        { l with wire := l.wire.drop data.length, receiver := r }
    else none
  | .lost err =>
    (l.receiver.step (SessionTCP.defaults rbs) P (.complete err [] [])).map fun r => { l with receiver := r }
  | .user op => (l.receiver.step (SessionTCP.defaults rbs) P (.user op)).map fun r => { l with receiver := r }
  | .drop err => some { l with receiver := l.receiver.disconnect err }

/-- Before the connection. -/
def start (initCnt stepCnt arrCnt : Nat) (r : Ram σ) (others : List Buf) (dettached : List Nat)
    (sends : List (BufArray Buf)) : Link σ where
  sender := .start initCnt stepCnt arrCnt
  wire := []
  broken := false
  receiver := .start r others dettached sends

/-- The packets that the receiving session has passed to `on_recv`. -/
def delivered (l : Link σ) : List (List UInt8) := l.receiver.frames.map Frame.data

/-- No more `SOV`s of the sending session are out than its `pop_cnt_` can count. -/
def Countable (l : Link σ) : Prop := l.sender.Countable

instance (l : Link σ) : Decidable l.Countable := inferInstanceAs (Decidable l.sender.Countable)

/-- Every submission is made in turn. -/
def InTurn (l : Link σ) : LinkOp → Prop
  | .send op => l.sender.InTurn op
  | _ => True

end Link

end Ven
