import Ven.SendPath

namespace Ven

/-- The sending side of one connection: its `SBuf`, and the `SOV`s that the kernel holds of its socket. The last four
fields are history, as in `Sender`. -/
structure Connection (α : Type) where
  isConnected : Bool
  sbuf : SBuf
  inflight : List Nat
  crashed : Bool
  accepted : List α
  handed : List (List α)
  hand : List Nat
  out : List Nat

/-- The connections of a `Net` over its one `SOVPool`, and its threads, each with the connection it works for. A session
that connects once more counts as another one. -/
structure SendNet (α : Type) where
  pool : SOVPool α
  conn : Nat → Connection α
  thread : Nat → Nat × SendPC α

/-- The thread that goes on inside `send` or `_on_send`. -/
def SendOp.inside {α : Type} : SendOp α → Option Nat
  | .lock t | .wsaSend t _ | .clear t | .pushBack t | .check t | .resume t | .leave t => some t
  | _ => none

namespace SendNet

variable {α : Type}

/-- The `t`s are threads, the `i`s connections. -/
inductive Op (α : Type)
  | connect (i : Nat)
  | disconnect (i : Nat)
  | call (t i : Nat) (buf : Option α)
  | run (op : SendOp α)
  | complete (t i sov err : Nat)
deriving DecidableEq

/-- Where a thread stands, as seen from one connection. -/
def standing (n : SendNet α) (i t : Nat) : SendPC α :=
  if (n.thread t).1 = i then (n.thread t).2 else .idle

/-- What there is of a connection, where `away` are the `SOV`s of the others. -/
def view (n : SendNet α) (i : Nat) (away : List Nat) : Sender α where
  isConnected := (n.conn i).isConnected
  pool := n.pool
  sbuf := (n.conn i).sbuf
  thread := n.standing i
  inflight := (n.conn i).inflight
  away := away
  crashed := (n.conn i).crashed
  accepted := (n.conn i).accepted
  handed := (n.conn i).handed
  hand := (n.conn i).hand
  out := (n.conn i).out

def put (n : SendNet α) (i : Nat) (s : Sender α) : SendNet α :=
  { n with
    pool := s.pool
    conn := Function.update n.conn i
      ⟨s.isConnected, s.sbuf, s.inflight, s.crashed, s.accepted, s.handed, s.hand, s.out⟩ }

def goto (n : SendNet α) (t i : Nat) (pc : SendPC α) : SendNet α :=
  { n with thread := Function.update n.thread t (i, pc) }

/-- A completed send goes to the session that `actor_` of the `SOV` names. -/
def step (n : SendNet α) : Op α → Option (SendNet α)
  | .connect i => ((n.view i []).sizedStep (.conn i)).map (n.put i)
  | .disconnect i => ((n.view i []).sizedStep .disconnect).map (n.put i)
  | .call t i buf =>
    match (n.thread t).2 with
    | .idle => ((n.view i []).sizedStep (.call t buf)).map fun s => (n.put i s).goto t i (s.thread t)
    | _ => none
  | .run op =>
    op.inside.bind fun t =>
      ((n.view (n.thread t).1 []).sizedStep op).map fun s => (n.put (n.thread t).1 s).goto t (n.thread t).1 (s.thread t)
  | .complete t i sov err =>
    match (n.thread t).2 with
    | .idle =>
      if sov ∈ (n.conn i).inflight then
        (n.pool.sovs sov).actor.map fun actor =>
          { n with
            conn := Function.update n.conn i { n.conn i with inflight := (n.conn i).inflight.erase sov }
            thread := Function.update n.thread t (actor, .ended sov err) }
      else none
    | _ => none

/-- `total_cnt_` of the pool is a `uint32_t`. -/
def Countable (n : SendNet α) : Prop := n.pool.totalCnt < 4294967296

instance (n : SendNet α) : Decidable n.Countable := inferInstanceAs (Decidable (_ < _))

/-- Before the first connection. -/
def start (initCnt stepCnt arrCnt : Nat) : SendNet α where
  pool := SOVPool.init initCnt stepCnt arrCnt
  conn := fun _ => ⟨false, SBuf.null, [], false, [], [], [], []⟩
  thread := fun _ => (0, .idle)

end SendNet

end Ven
