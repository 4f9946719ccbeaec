import Ven.TcpLinkRuns
import Ven.Overwrite

namespace Ven

/-- The echo client and the echo server, and the connection between them: `up` leads to the server and `down` back to
the client. `todo` are the packets that the server's `_on_recv` has found and `on_recv` has not passed to `send` yet. -/
structure Echo (σ τ : Type) where
  up : Link σ
  down : Link τ
  todo : List (List UInt8)

/-- On the server only `on_recv` calls `send`, and `_on_recv` runs in thread 0. -/
inductive EchoOp
  | connClient (actor : Nat) (ops : List UserOp)
  | connServer (actor : Nat) (ops : List UserOp)
  | client (op : SendOp (List UInt8))
  | server (op : SendOp (List UInt8))
  | onRecv
  | recvClient (data : List UInt8) (calls : List (List UserOp))
  | recvServer (data : List UInt8) (calls : List (List UserOp))
  | lostClient (err : Nat)
  | lostServer (err : Nat)
  | userClient (op : UserOp)
  | userServer (op : UserOp)
deriving DecidableEq

namespace SendOp

variable {α : Type}

def IsConn : SendOp α → Bool
  | .conn _ => true
  | _ => false

def IsCall : SendOp α → Bool
  | .call _ _ => true
  | _ => false

end SendOp

namespace Link

variable {σ : Type}

/-- `is_connected_` is one flag of a session: its sending side follows its receiving side, -/
def cutOff (l : Link σ) (connected : Bool) : Link σ :=
  if connected then l else { l with sender := { l.sender with isConnected := false } }

/-- and the other way round. -/
def hangUp (l : Link σ) (connected : Bool) (err : Nat) : Link σ :=
  if connected then l else { l with receiver := l.receiver.disconnect err }

end Link

/-- What `_disconnect` is called with on the way out of `_on_send`. -/
def Sender.leavingErr {α : Type} (s : Sender α) : SendOp α → Nat
  | .leave t =>
    match s.thread t with
    | .leaving err => err
    | _ => 0
  | _ => 0

namespace Echo

variable {σ τ : Type} (rbs rbc : Nat) (P : IMemPool σ) (Q : IMemPool τ)

def step (e : Echo σ τ) : EchoOp → Option (Echo σ τ)
  | .connClient actor ops =>
    (e.up.step rbs P (.send (.conn actor))).bind fun up =>
      (e.down.step rbc Q (.conn ops)).map fun down =>
        { e with up := up.cutOff down.receiver.isConnected, down := down }
  | .connServer actor ops =>
    (e.down.step rbc Q (.send (.conn actor))).bind fun down =>
      (e.up.step rbs P (.conn ops)).map fun up =>
        { e with up := up, down := down.cutOff up.receiver.isConnected }
  | .client op =>
    if op.IsConn then none
    else
      (e.up.step rbs P (.send op)).map fun up =>
        { e with up := up, down := e.down.hangUp up.sender.isConnected (e.up.sender.leavingErr op) }
  | .server op =>
    if op.IsConn || op.IsCall then none
    else
      (e.down.step rbc Q (.send op)).map fun down =>
        { e with up := e.up.hangUp down.sender.isConnected (e.down.sender.leavingErr op), down := down }
  | .onRecv =>
    match e.todo with
    | [] => none
    | buf :: todo => (e.down.step rbc Q (.send (.call 0 (some buf)))).map fun down => { e with down := down, todo := todo }
  | .recvClient data calls =>
    (e.down.step rbc Q (.recv data calls)).map fun down =>
      { e with up := e.up.cutOff down.receiver.isConnected, down := down }
  | .recvServer data calls =>
    if e.todo = [] ∧ e.down.sender.thread 0 = .idle then
      (e.up.step rbs P (.recv data calls)).map fun up =>
        { up := up
          down := e.down.cutOff up.receiver.isConnected
          todo := up.delivered.drop e.up.delivered.length }
    else none
  | .lostClient err =>
    (e.down.step rbc Q (.lost err)).map fun down =>
      { e with up := e.up.cutOff down.receiver.isConnected, down := down }
  | .lostServer err =>
    (e.up.step rbs P (.lost err)).map fun up =>
      { e with up := up, down := e.down.cutOff up.receiver.isConnected }
  | .userClient op =>
    (e.down.step rbc Q (.user op)).map fun down =>
      { e with up := e.up.cutOff down.receiver.isConnected, down := down }
  | .userServer op =>
    (e.up.step rbs P (.user op)).map fun up =>
      { e with up := up, down := e.down.cutOff up.receiver.isConnected }

/-- Before the two are connected. -/
def start (up : Link σ) (down : Link τ) : Echo σ τ := ⟨up, down, []⟩

/-- Every `SOV` is submitted in turn, at both ends. -/
def InTurn (e : Echo σ τ) : EchoOp → Prop
  | .client op => e.up.sender.InTurn op
  | .server op => e.down.sender.InTurn op
  | _ => True

def Countable (e : Echo σ τ) : Prop := e.up.Countable ∧ e.down.Countable

instance (e : Echo σ τ) : Decidable e.Countable := inferInstanceAs (Decidable (_ ∧ _))

end Echo

/-- The client sends packets. -/
def EchoOp.Packet : EchoOp → Prop
  | .client (.call _ (some buf)) => Whole buf
  | _ => True

/-- What goes on without the users. -/
def EchoOp.Internal : EchoOp → Prop
  | .client op => op.Internal
  | .server op => op.Internal
  | .onRecv => True
  | .recvClient _ calls => calls = []
  | .recvServer _ calls => calls = []
  | _ => False

end Ven
