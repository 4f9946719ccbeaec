import Ven.SendPath

namespace Ven

/-- Where a thread stands in `_on_accept`, `_on_recv` and `recv`: each of these stands before the
statement it is named after, and works for the connection numbered `gen`. -/
inductive RecvPC
  | idle
  | setConnected (gen : Nat)
  | resetReceiving (gen : Nat)
  | resetFlags (gen : Nat)
  | initSBuf (gen : Nat)
  | initRBuf (gen : Nat)
  | received (gen : Nat) (bad : Option Nat)
  | testConnected (gen : Nat)
  | enterRecv (gen : Nat)
  | setReceiving (gen : Nat)
  | postRecv (gen : Nat)
  | failed (gen err : Nat)
  | leaving (err : Nat)
deriving DecidableEq

/-- A server session, the threads that use it and what the kernel does for it. `rbuf` is false while
`rbuf_` is not initialised, `recvs` are the connections whose `WSARecv` is outstanding, `discs` counts the
outstanding `DisconnectEx` and `pooled` how often the session is in the session pool. `crashed` tells that
`recv` has followed the null `Mem*` of an `rbuf_` that is not initialised. `uninits` is history: the `SOV`s
popped and not pushed back at each `sbuf_.uninit()`. -/
structure Session (α : Type) where
  send : Sender α
  isReceiving : Bool
  isConnecting : Bool
  isDisconnecting : Bool
  isForceDisconnecting : Bool
  isRelease : Bool
  dovErr : Nat
  rbuf : Bool
  io : Nat → RecvPC
  recvs : List Nat
  discs : Nat
  pooled : Nat
  gen : Nat
  deleted : Bool
  crashed : Bool
  uninits : List (List Nat)

/-- The `u`s are threads; `ok` tells that `DisconnectEx` succeeds or pends, or that the accept context
could be updated. -/
inductive SessionOp (α : Type)
  | send (op : SendOp α)
  | leaveSend (t : Nat) (ok : Bool)
  | accept (u : Nat) (ok : Bool)
  | init (u : Nat)
  | recvDone (u gen : Nat) (bad : Option Nat)
  | clearReceiving (u : Nat)
  | testConnected (u : Nat)
  | enterRecv (u : Nat)
  | setReceiving (u : Nat)
  | postRecv (u : Nat) (fail : Option Nat)
  | clearFailed (u : Nat)
  | leaveRecv (u : Nat) (ok : Bool)
  | disconnect (isRelease : Bool)
  | discDone
deriving DecidableEq

namespace Session

variable {α : Type}

/-- `AcceptEx` has completed for the first time, on thread 0. -/
def start (initCnt stepCnt arrCnt : Nat) : Session α where
  send := Sender.start initCnt stepCnt arrCnt
  isReceiving := false
  isConnecting := false
  isDisconnecting := false
  isForceDisconnecting := false
  isRelease := false
  dovErr := 0
  rbuf := false
  io := fun u => if u = 0 then .setConnected 1 else .idle
  recvs := []
  discs := 0
  pooled := 0
  gen := 1
  deleted := false
  crashed := false
  uninits := []

def goto (s : Session α) (u : Nat) (pc : RecvPC) : Session α := { s with io := Function.update s.io u pc }

def onDisc (s : Session α) : Session α :=
  let (sbuf, pool) := s.send.sbuf.uninit s.send.pool
  { s with
    send := { s.send with sbuf := sbuf, pool := pool }
    rbuf := false
    deleted := s.deleted || s.isRelease
    pooled := if s.isRelease then s.pooled else s.pooled + 1
    uninits := s.uninits ++ [s.send.out] }

/-- What `_disconnect` tests before it tears the session down. -/
def tearsDown (s : Session α) : Bool := !(s.send.sbuf.isSending || s.isReceiving) && !s.isDisconnecting

def _disconnect (s : Session α) (err : Nat) (ok : Bool) : Session α :=
  let s' := { s with
    dovErr := if s.send.isConnected then err else s.dovErr
    send := { s.send with isConnected := false } }
  if s.tearsDown then
    let s' := { s' with isDisconnecting := true }
    if s.isForceDisconnecting then s'.onDisc
    else if ok then { s' with discs := s.discs + 1 }
    else s'
  else s'

def disconnect (s : Session α) (isRelease : Bool) : Session α :=
  let s := { s with isRelease := isRelease }
  if !s.send.isConnected then s
  else if s.isForceDisconnecting then s
  else { s with isForceDisconnecting := true }._disconnect 0 true

/-- The next statement of `_on_conn_init`; `on_conn` comes before `recv`. -/
def initStep (s : Session α) (u : Nat) : Option (Session α) :=
  match s.io u with
  | .setConnected g => some { s.goto u (.resetReceiving g) with send := { s.send with isConnected := true } }
  | .resetReceiving g => some { s.goto u (.resetFlags g) with isReceiving := false }
  | .resetFlags g =>
    some { s.goto u (.initSBuf g) with
      isConnecting := false
      isForceDisconnecting := false
      isDisconnecting := false }
  | .initSBuf g =>
    match SBuf.init 0 s.send.pool with
    | none => some { s.goto u (.initRBuf g) with send := { s.send with crashed := true } }
    | some (sbuf, pool) => some { s.goto u (.initRBuf g) with send := { s.send with sbuf := sbuf, pool := pool } }
  | .initRBuf g => some { s.goto u (.enterRecv g) with rbuf := true }
  | _ => none

/-- The steps of sending threads other than `_disconnect`, and those of other sessions. -/
def sendStep (s : Session α) : SendOp α → Option (Session α)
  | .leave _ => none
  | .conn _ => none
  | .disconnect => none
  | op => (s.send.step op).map fun send => { s with send := send }

def step (s : Session α) : SessionOp α → Option (Session α)
  | .send op => s.sendStep op
  | .leaveSend t ok =>
    match s.send.thread t with
    | .leaving err => some ({ s with send := s.send.goto t .idle }._disconnect err ok)
    | _ => none
  | .accept u ok =>
    if s.io u = .idle ∧ 0 < s.pooled then
      let s := { s with gen := s.gen + 1, pooled := s.pooled - 1 }
      some (if ok then s.goto u (.setConnected s.gen) else s.disconnect false)
    else none
  | .init u => s.initStep u
  | .recvDone u gen bad =>
    if s.io u = .idle ∧ gen ∈ s.recvs then
      some { s.goto u (.received gen bad) with recvs := s.recvs.erase gen }
    else none
  | .clearReceiving u =>
    match s.io u with
    | .received g none => some { s.goto u (.testConnected g) with isReceiving := false }
    | .received _ (some err) => some { s.goto u (.leaving err) with isReceiving := false }
    | _ => none
  | .testConnected u =>
    match s.io u with
    | .testConnected g => some (if s.send.isConnected then s.goto u (.enterRecv g) else s.goto u (.leaving 0))
    | _ => none
  | .enterRecv u =>
    match s.io u with
    | .enterRecv g => some (if s.send.isConnected then s.goto u (.setReceiving g) else s.goto u .idle)
    | _ => none
  | .setReceiving u =>
    match s.io u with
    | .setReceiving g => some { s.goto u (.postRecv g) with isReceiving := true }
    | _ => none
  | .postRecv u fail =>
    match s.io u with
    | .postRecv g =>
      -- `tail` and `remain_len` come before `WSARecv`
      if s.rbuf = false then some { s.goto u .idle with crashed := true }
      else
        match fail with
        | none => some { s.goto u .idle with recvs := g :: s.recvs }
        | some err => some (s.goto u (.failed g err))
    | _ => none
  | .clearFailed u =>
    match s.io u with
    | .failed _ err => some { s.goto u (.leaving err) with isReceiving := false }
    | _ => none
  | .leaveRecv u ok =>
    match s.io u with
    | .leaving err => some ((s.goto u .idle)._disconnect err ok)
    | _ => none
  | .disconnect isRelease => some (s.disconnect isRelease)
  | .discDone => if 0 < s.discs then some { s with discs := s.discs - 1 }.onDisc else none

end Session

end Ven
