import Ven.SBuf
import Ven.Machine
import Ven.LifeTrace

namespace Ven

/-- What a user callback calls, with what Winsock and further callbacks do meanwhile: `answers` are the errors
with which the `WSASend`s fail at once (`none` when one succeeds or pends), `ok` tells that `DisconnectEx`
succeeds or pends, and `onDisc` is what `on_disc` calls. -/
inductive Call (α : Type)
  | send (buf : Option α) (answers : List (Option Nat)) (ok : Bool) (onDisc : List (Call α))
  | disconnect (isRelease : Bool) (onDisc : List (Call α))

/-- The calls of `on_conn`, and what happens in the `recv` after it. -/
structure Opening (α : Type) where
  onConn : List (Call α)
  fail : Option Nat
  ok : Bool
  onDisc : List (Call α)

/-- A session whose handlers run one at a time. `recvs` and `sends` are the outstanding `WSARecv`s and
`WSASend`s with the number of their connection, `discs` and `conns` count the outstanding `DisconnectEx` and
`ConnectEx`, and `pooled` how often the session is in the session pool. -/
structure SessionTCP (α : Type) where
  isServer : Bool
  isConnected : Bool
  isReceiving : Bool
  isConnecting : Bool
  isDisconnecting : Bool
  isForceDisconnecting : Bool
  isRelease : Bool
  dovErr : Nat
  sbuf : SBuf
  pool : SOVPool α
  rbuf : Bool
  recvs : List Nat
  sends : List (Nat × Nat)
  discs : Nat
  conns : Nat
  pooled : Nat
  deleted : Bool
  crashed : Bool
  trace : List Event

namespace SessionTCP

variable {α : Type}

/-- A session before its first connection: in the session pool, or the client's. -/
def start (isServer : Bool) (initCnt stepCnt arrCnt : Nat) : SessionTCP α where
  isServer := isServer
  isConnected := false
  isReceiving := false
  isConnecting := false
  isDisconnecting := false
  isForceDisconnecting := false
  isRelease := false
  dovErr := 0
  sbuf := SBuf.null
  pool := SOVPool.init initCnt stepCnt arrCnt
  rbuf := false
  recvs := []
  sends := []
  discs := 0
  conns := 0
  pooled := if isServer then 1 else 0
  deleted := false
  crashed := false
  trace := []

/-- The number of the connection. -/
def gen (s : SessionTCP α) : Nat := s.trace.count .conn

def record (s : SessionTCP α) (e : Event) : SessionTCP α := { s with trace := s.trace ++ [e] }

def crash (s : SessionTCP α) : SessionTCP α := { s with crashed := true }

def connect (s : SessionTCP α) (fail : Option Nat) : SessionTCP α × Bool :=
  if s.isServer then (s, false)
  else if s.isConnected then (s, true)
  else if s.isConnecting then (s, true)
  else
    let s := { s with isConnecting := true }
    match fail with
    | none => ({ s with conns := s.conns + 1 }, true)
    | some _ => (s, false)

/-- `on_disc` is called. -/
def raised (s : SessionTCP α) : SessionTCP α :=
  s.record (.disc s.dovErr (s.recvs.count s.gen) (s.sends.countP fun p => p.2 = s.gen))

def _on_disc (s : SessionTCP α) (onDisc : SessionTCP α → SessionTCP α) : SessionTCP α :=
  let (sbuf, pool) := s.sbuf.uninit s.pool
  let s := { s with sbuf := sbuf, pool := pool, rbuf := false }
  let s := onDisc s.raised
  if s.isRelease then { s with deleted := true }
  else if s.isServer then { s with pooled := s.pooled + 1 }
  else s

def _disconnect (s : SessionTCP α) (err : Nat) (ok : Bool) (onDisc : SessionTCP α → SessionTCP α) : SessionTCP α :=
  let s := s.record (.disconnect err)
  let s := { s with dovErr := if s.isConnected then err else s.dovErr, isConnected := false }
  if s.sbuf.isSending || s.isReceiving then s
  else if s.isDisconnecting then s
  else
    let s := { s with isDisconnecting := true }
    if s.isForceDisconnecting then s._on_disc onDisc
    else if ok then { s with discs := s.discs + 1 }
    else s

def disconnect (s : SessionTCP α) (isRelease : Bool) (onDisc : SessionTCP α → SessionTCP α) : SessionTCP α :=
  let s := { s with isRelease := isRelease }
  if !s.isConnected then s
  else if s.isForceDisconnecting then s
  else { s with isForceDisconnecting := true }._disconnect 0 true onDisc

/-- `send(Buf&)`, where `post` is `send(SOV*)`. -/
def sendBuf (s : SessionTCP α) (buf : Option α) (post : SessionTCP α → Nat → SessionTCP α × Bool) :
    SessionTCP α × Bool :=
  if !s.isConnected then (s, false)
  else
    match s.sbuf.push s.pool buf with
    | none => (s.crash, false)
    | some pool =>
      let s := { s with pool := pool }
      match s.sbuf.pop s.pool with
      | none => (s.crash, false)
      | some (none, sbuf, pool) => ({ s with sbuf := sbuf, pool := pool }, true)
      | some (some sov, sbuf, pool) => post { s with sbuf := sbuf, pool := pool } sov

/-- `resend` is the `send(Buf())` at the end. -/
def _on_send (s : SessionTCP α) (err sov : Nat) (ok : Bool) (onDisc : SessionTCP α → SessionTCP α)
    (resend : SessionTCP α → SessionTCP α) : SessionTCP α :=
  let s := { s with pool := s.pool.clear sov }
  match s.sbuf.pushSov s.pool sov with
  | none => s.crash
  | some (sbuf, pool) =>
    let s := { s with sbuf := sbuf, pool := pool }
    match s.sbuf.hasToSend s.pool with
    | none => s.crash
    | some hasToSend =>
      if err ≠ 0 ∨ s.isConnected = false then s._disconnect err ok onDisc
      else if hasToSend then resend s
      else s

/-- `send(SOV*)`: the first of `answers` is that of its `WSASend`. -/
def sendSov (ok : Bool) (onDisc : SessionTCP α → SessionTCP α) :
    List (Option Nat) → SessionTCP α → Nat → SessionTCP α × Bool
  | some err :: answers, s, sov =>
    (s._on_send err sov ok onDisc fun s => (s.sendBuf none (sendSov ok onDisc answers)).1, false)
  | _, s, sov => ({ s with sends := (sov, s.gen) :: s.sends }, true)

def send (s : SessionTCP α) (buf : Option α) (answers : List (Option Nat)) (ok : Bool)
    (onDisc : SessionTCP α → SessionTCP α) : SessionTCP α × Bool :=
  s.sendBuf buf (sendSov ok onDisc answers)

mutual

def call (s : SessionTCP α) : Call α → SessionTCP α
  | .send buf answers ok onDisc => (s.send buf answers ok fun s => s.calls onDisc).1
  | .disconnect isRelease onDisc => s.disconnect isRelease fun s => s.calls onDisc

/-- What a callback does. -/
def calls (s : SessionTCP α) : List (Call α) → SessionTCP α
  | [] => s
  | c :: cs => (s.call c).calls cs

end

/-- `fail` is the error with which `WSARecv` fails at once. -/
def recv (s : SessionTCP α) (fail : Option Nat) (ok : Bool) (onDisc : SessionTCP α → SessionTCP α) : SessionTCP α :=
  if !s.isConnected then s
  else
    let s := { s with isReceiving := true }
    match fail with
    | none => { s with recvs := s.gen :: s.recvs }
    | some err => { s with isReceiving := false }._disconnect err ok onDisc

def _on_conn_init (s : SessionTCP α) (o : Opening α) : SessionTCP α :=
  let s := { s with
    isConnected := true
    isReceiving := false
    isConnecting := false
    isForceDisconnecting := false
    isDisconnecting := false }
  let s :=
    match SBuf.init 0 s.pool with
    | none => s.crash
    | some (sbuf, pool) => { s with sbuf := sbuf, pool := pool }
  let s := { s with rbuf := true }
  ((s.record .conn).calls o.onConn).recv o.fail o.ok fun s => s.calls o.onDisc

/-- `updated` tells that the accept context could be updated. -/
def _on_accept (s : SessionTCP α) (updated : Bool) (o : Opening α) : SessionTCP α :=
  if !updated then s.disconnect false fun s => s.calls o.onDisc
  else s._on_conn_init o

def _on_conn (s : SessionTCP α) (err : Nat) (o : Opening α) : SessionTCP α :=
  let s := { s with isConnecting := false }
  if err ≠ 0 then (s.record (.refused err)).calls o.onDisc
  else s._on_conn_init o

/-- The packets of `_on_recv`, each with the calls of its `on_recv`. -/
def deliver (g : Nat) : List (List (Call α)) → SessionTCP α → SessionTCP α
  | [], s => s
  | cs :: packets, s => deliver g packets ((s.record (.recv g)).calls cs)

/-- `bad` tells that the bytes behind the packets announce an invalid size. -/
def _on_recv (s : SessionTCP α) (g err bytes : Nat) (packets : List (List (Call α))) (bad : Bool) (fail : Option Nat)
    (ok : Bool) (onDisc : SessionTCP α → SessionTCP α) : SessionTCP α :=
  if err ≠ 0 ∨ bytes = 0 then { s with isReceiving := false }._disconnect err ok onDisc
  else
    let s := deliver g packets s
    if bad then { s with isReceiving := false }._disconnect 16000 ok onDisc
    else
      let s := { s with isReceiving := false }
      if !s.isConnected then s._disconnect 0 ok onDisc
      else s.recv fail ok onDisc

end SessionTCP

/-- Public calls and completions. -/
inductive LifeOp (α : Type)
  | connect (fail : Option Nat)
  | call (c : Call α)
  | accept (updated : Bool) (o : Opening α)
  | conn (err : Nat) (o : Opening α)
  | disc (onDisc : List (Call α))
  | recv (g err bytes : Nat) (packets : List (List (Call α))) (bad : Bool) (fail : Option Nat) (ok : Bool)
      (onDisc : List (Call α))
  | send (sov g err : Nat) (answers : List (Option Nat)) (ok : Bool) (onDisc : List (Call α))

namespace SessionTCP

variable {α : Type}

/-- The atomic steps. -/
def handle (s : SessionTCP α) : LifeOp α → Option (SessionTCP α)
  | .connect fail => some (s.connect fail).1
  | .call c => some (s.call c)
  | .accept updated o => if 0 < s.pooled then some ({ s with pooled := s.pooled - 1 }._on_accept updated o) else none
  | .conn err o => if 0 < s.conns then some ({ s with conns := s.conns - 1 }._on_conn err o) else none
  | .disc onDisc =>
    if 0 < s.discs then some ({ s with discs := s.discs - 1 }._on_disc fun s => s.calls onDisc) else none
  | .recv g err bytes packets bad fail ok onDisc =>
    if g ∈ s.recvs then
      some ({ s with recvs := s.recvs.erase g }._on_recv g err bytes packets bad fail ok fun s => s.calls onDisc)
    else none
  | .send sov g err answers ok onDisc =>
    if (sov, g) ∈ s.sends then
      some ({ s with sends := s.sends.erase (sov, g) }._on_send err sov ok (fun s => s.calls onDisc)
        fun s => (s.send none answers ok fun s => s.calls onDisc).1)
    else none

/-- A session that was deleted, or followed a null pointer, makes no more steps. -/
def step (s : SessionTCP α) (op : LifeOp α) : Option (SessionTCP α) :=
  if s.deleted || s.crashed then none else s.handle op

end SessionTCP

end Ven
