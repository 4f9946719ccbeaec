import Ven.LifeRuns
import Ven.SessionPool
import Ven.Locks
import Ven.Word

namespace Ven

open Locks

/-- The locks of session `i`, and `lock_` of the session pool. -/
inductive SessionLock
  | cd (i : Nat)
  | s (i : Nat)
  | pool
deriving DecidableEq

/-- What user code calls, on any session: as in `Call`, with the outcomes of the `AcceptEx`s that follow when a
session goes back to the pool. -/
inductive ServerCall (α : Type)
  | send (i : Nat) (buf : Option α) (answers : List (Option Nat)) (ok : Bool) (onDisc : List (ServerCall α)) (accepts : List Bool)
  | disconnect (i : Nat) (isRelease : Bool) (onDisc : List (ServerCall α)) (accepts : List Bool)

namespace SessionTCP

variable {α : Type}

/-- `_on_disc` as far as `on_disc` is called. -/
def closed (s : SessionTCP α) : SessionTCP α :=
  let (sbuf, pool) := s.sbuf.uninit s.pool
  SessionTCP.raised { s with sbuf := sbuf, pool := pool, rbuf := false }

/-- The `s_lock_` section of `send`. -/
def queue (s : SessionTCP α) (buf : Option α) : SessionTCP α × Option Nat :=
  match s.sbuf.push s.pool buf with
  | none => (s.crash, none)
  | some pool =>
    let s := { s with pool := pool }
    match s.sbuf.pop s.pool with
    | none => (s.crash, none)
    | some (sov, sbuf, pool) => ({ s with sbuf := sbuf, pool := pool }, sov)

/-- The `s_lock_` section of `_on_send`. -/
def unqueue (s : SessionTCP α) (sov : Nat) : SessionTCP α × Option Bool :=
  match s.sbuf.pushSov s.pool sov with
  | none => (s.crash, none)
  | some (sbuf, pool) =>
    let s := { s with sbuf := sbuf, pool := pool }
    match s.sbuf.hasToSend s.pool with
    | none => (s.crash, none)
    | some hasToSend => (s, some hasToSend)

end SessionTCP

/-- A server: its sessions, session pool and acceptor. `flying` are the outstanding `AcceptEx`s with their sessions,
`accepted` the sessions that `disconnected` has not given back yet. -/
structure Server (α : Type) where
  session : Nat → SessionTCP α
  spool : SessionPool
  apool : List Nat
  acceptingCnt : Nat
  connectedCnt : Nat
  isRelease : Bool
  flying : List (Nat × Nat)
  accepted : List Nat
  crashed : Bool

abbrev ServerProg (α : Type) := Prog SessionLock (Server α)

namespace Server

variable {α : Type}

def init (acceptCnt preCnt incCnt maxCnt initCnt stepCnt arrCnt : Nat) : Server α where
  session := fun _ => SessionTCP.start true initCnt stepCnt arrCnt
  spool := SessionPool.init preCnt incCnt maxCnt
  apool := (List.range acceptCnt).reverse
  acceptingCnt := 0
  connectedCnt := 0
  isRelease := false
  flying := []
  accepted := []
  crashed := false

def change (i : Nat) (f : SessionTCP α → SessionTCP α) (v : Server α) : Server α :=
  { v with
    session := Function.update v.session i (f (v.session i))
    crashed := v.crashed || (f (v.session i)).crashed }

/-- `accept`, then `yes` when it returns true and `no` else; `pends` tells whether its `AcceptEx` succeeds or pends. -/
def accept (pends : Bool) (yes no : ServerProg α) : ServerProg α :=
  .test fun v =>
    if v.isRelease then no
    else
      .act (fun v => { v with apool := v.apool.tail }) fun v =>
        match v.apool with
        | [] => no
        | aov :: _ =>
          .lock .pool <| .act (fun v => { v with spool := v.spool.pop.2 }) fun v => .unlock .pool <|
            match v.spool.pop.1 with
            | none => .update (fun v => { v with apool := aov :: v.apool }) no
            | some i =>
              if pends then
                .update (fun v => { v with flying := (aov, i) :: v.flying }) <|
                  .update (fun v => { v with acceptingCnt := add32 v.acceptingCnt 1 }) yes
              else no

/-- The loop of `accept_all`, with one outcome for each round. -/
def acceptLoop : List Bool → ServerProg α → ServerProg α
  | [], k => k
  | pends :: accepts, k => .test fun v => if v.apool = [] then k else accept pends (acceptLoop accepts k) k

def accept_all (accepts : List Bool) (k : ServerProg α) : ServerProg α :=
  .test fun v => if v.isRelease then k else acceptLoop accepts k

/-- `disconnected`; `push` of the session pool takes the session back. -/
def disconnected (i : Nat) (accepts : List Bool) (k : ServerProg α) : ServerProg α :=
  .update (fun v => { v with connectedCnt := pred32 v.connectedCnt }) <|
    .locked .pool (.update fun v =>
      { change i (fun s => { s with pooled := s.pooled + 1 }) v with
        spool := v.spool.push i
        accepted := v.accepted.erase i }) <|
    accept_all accepts k

def _on_disc (i : Nat) (accepts : List Bool) (onDisc : ServerProg α → ServerProg α) : ServerProg α → ServerProg α :=
  .locked (.cd i) fun ret =>
    .update (change i SessionTCP.closed) <| onDisc <| .test fun v =>
      if (v.session i).isRelease then .update (change i fun s => { s with deleted := true }) ret
      else disconnected i accepts ret

def _disconnect (i err : Nat) (ok : Bool) (accepts : List Bool) (onDisc : ServerProg α → ServerProg α) :
    ServerProg α → ServerProg α :=
  .locked (.cd i) fun ret =>
    .update (change i fun s =>
      { s.record (.disconnect err) with dovErr := if s.isConnected then err else s.dovErr, isConnected := false }) <|
    .lock (.s i) <| .test fun v => .unlock (.s i) <|
      let isSending := (v.session i).sbuf.isSending
      .test fun v =>
        if isSending || (v.session i).isReceiving then ret
        else if (v.session i).isDisconnecting then ret
        else
          .act (change i fun s => { s with isDisconnecting := true }) fun v =>
            if (v.session i).isForceDisconnecting then _on_disc i accepts onDisc ret
            else if ok then .update (change i fun s => { s with discs := s.discs + 1 }) ret
            else ret

def disconnect (i : Nat) (isRelease : Bool) (accepts : List Bool) (onDisc : ServerProg α → ServerProg α) :
    ServerProg α → ServerProg α :=
  .locked (.cd i) fun ret =>
    .act (change i fun s => { s with isRelease := isRelease }) fun v =>
      if !(v.session i).isConnected then ret
      else if (v.session i).isForceDisconnecting then ret
      else
        .update (change i fun s => { s with isForceDisconnecting := true }) <| _disconnect i 0 true accepts onDisc ret

/-- `send(Buf&)`, where `post` is `send(SOV*)`. -/
def sendBuf (i : Nat) (buf : Option α) (post : Nat → ServerProg α → ServerProg α) (k : ServerProg α) : ServerProg α :=
  .test fun v =>
    if !(v.session i).isConnected then k
    else
      .lock (.s i) <| .act (change i fun s => (s.queue buf).1) fun v => .unlock (.s i) <|
        match ((v.session i).queue buf).2 with
        | none => k
        | some sov => post sov k

def _on_send (i err sov : Nat) (ok : Bool) (accepts : List Bool) (onDisc resend : ServerProg α → ServerProg α)
    (k : ServerProg α) : ServerProg α :=
  .update (change i fun s => { s with pool := s.pool.clear sov }) <|
    .lock (.s i) <| .act (change i fun s => (s.unqueue sov).1) fun v => .unlock (.s i) <|
      match ((v.session i).unqueue sov).2 with
      | none => k
      | some hasToSend =>
        .test fun v =>
          if err ≠ 0 ∨ (v.session i).isConnected = false then _disconnect i err ok accepts onDisc k
          else if hasToSend then resend k
          else k

def sendSov (i : Nat) (ok : Bool) (accepts : List Bool) (onDisc : ServerProg α → ServerProg α) :
    List (Option Nat) → Nat → ServerProg α → ServerProg α
  | some err :: answers, sov, k =>
    _on_send i err sov ok accepts onDisc (sendBuf i none (sendSov i ok accepts onDisc answers)) k
  | _, sov, k => .update (change i fun s => { s with sends := (sov, s.gen) :: s.sends }) k

def send (i : Nat) (buf : Option α) (answers : List (Option Nat)) (ok : Bool) (accepts : List Bool)
    (onDisc : ServerProg α → ServerProg α) : ServerProg α → ServerProg α :=
  sendBuf i buf (sendSov i ok accepts onDisc answers)

mutual

def call : ServerCall α → ServerProg α → ServerProg α
  | .send i buf answers ok onDisc accepts => send i buf answers ok accepts (calls onDisc)
  | .disconnect i isRelease onDisc accepts => disconnect i isRelease accepts (calls onDisc)

/-- What a callback does. -/
def calls : List (ServerCall α) → ServerProg α → ServerProg α
  | [], k => k
  | c :: cs, k => call c (calls cs k)

end

def recv (i : Nat) (fail : Option Nat) (ok : Bool) (accepts : List Bool) (onDisc : ServerProg α → ServerProg α)
    (k : ServerProg α) : ServerProg α :=
  .test fun v =>
    if !(v.session i).isConnected then k
    else
      .update (change i fun s => { s with isReceiving := true }) <|
        match fail with
        | none => .update (change i fun s => { s with recvs := s.gen :: s.recvs }) k
        | some err =>
          .update (change i fun s => { s with isReceiving := false }) <| _disconnect i err ok accepts onDisc k

/-- The calls of `on_conn`, and what happens in the `recv` after it. -/
structure ServerOpening (α : Type) where
  onConn : List (ServerCall α)
  fail : Option Nat
  ok : Bool
  onDisc : List (ServerCall α)
  accepts : List Bool

def _on_conn_init (i : Nat) (o : ServerOpening α) (k : ServerProg α) : ServerProg α :=
  .update (change i SessionTCP.opened) <| calls o.onConn <| recv i o.fail o.ok o.accepts (calls o.onDisc) k

def _on_accept (i : Nat) (updated : Bool) (o : ServerOpening α) (k : ServerProg α) : ServerProg α :=
  if !updated then disconnect i false o.accepts (calls o.onDisc) k else _on_conn_init i o k

/-- The packets of `_on_recv`, each with the calls of its `on_recv`. -/
def deliver (i g : Nat) : List (List (ServerCall α)) → ServerProg α → ServerProg α
  | [], k => k
  | cs :: packets, k => .update (change i fun s => s.record (.recv g)) <| calls cs <| deliver i g packets k

def _on_recv (i g err bytes : Nat) (packets : List (List (ServerCall α))) (bad : Bool) (fail : Option Nat) (ok : Bool)
    (accepts : List Bool) (onDisc : ServerProg α → ServerProg α) (k : ServerProg α) : ServerProg α :=
  if err ≠ 0 ∨ bytes = 0 then
    .update (change i fun s => { s with isReceiving := false }) <| _disconnect i err ok accepts onDisc k
  else
    deliver i g packets <|
      if bad then .update (change i fun s => { s with isReceiving := false }) <| _disconnect i 16000 ok accepts onDisc k
      else
        .act (change i fun s => { s with isReceiving := false }) fun v =>
          if !(v.session i).isConnected then _disconnect i 0 ok accepts onDisc k
          else recv i fail ok accepts onDisc k

/-- `on_event` of the acceptor for a failed accept; `onError` is what the error receiver calls. -/
def refused (i : Nat) (onError : List (ServerCall α)) (k : ServerProg α) : ServerProg α :=
  .locked .pool (.update fun v => { v with spool := v.spool.push i }) <|
    .test fun v => if v.isRelease then k else calls onError k

/-- The end of `on_event` of the acceptor. -/
def acceptNext (aov : Nat) (pends : Bool) (k : ServerProg α) : ServerProg α :=
  .update (fun v => { v with acceptingCnt := pred32 v.acceptingCnt }) <|
    .update (fun v => { v with apool := aov :: v.apool }) <| accept pends k k

def on_accept_event (aov i err : Nat) (updated : Bool) (o : ServerOpening α) (onError : List (ServerCall α)) (pends : Bool)
    (k : ServerProg α) : ServerProg α :=
  if err ≠ 0 then refused i onError (acceptNext aov pends k)
  else
    .update (fun v =>
      { change i (fun s => { s with pooled := s.pooled - 1 }) v with
        connectedCnt := add32 v.connectedCnt 1
        accepted := i :: v.accepted }) <|
      _on_accept i updated o (acceptNext aov pends k)

end Server

/-- Public calls, and completions with what happens while they are handled. -/
inductive ServerEvent (α : Type)
  | call (c : ServerCall α)
  | accept (aov i err : Nat) (updated : Bool) (o : Server.ServerOpening α) (onError : List (ServerCall α)) (pends : Bool)
  | disc (i : Nat) (onDisc : List (ServerCall α)) (accepts : List Bool)
  | recv (i g err bytes : Nat) (packets : List (List (ServerCall α))) (bad : Bool) (fail : Option Nat) (ok : Bool)
      (onDisc : List (ServerCall α)) (accepts : List Bool)
  | send (i sov g err : Nat) (answers : List (Option Nat)) (ok : Bool) (onDisc : List (ServerCall α)) (accepts : List Bool)

namespace Server

variable {α : Type}

/-- What the thread that dequeues the completion runs. -/
def handler : ServerEvent α → ServerProg α
  | .call c => call c .done
  | .accept aov i err updated o onError pends => on_accept_event aov i err updated o onError pends .done
  | .disc i onDisc accepts => _on_disc i accepts (calls onDisc) .done
  | .recv i g err bytes packets bad fail ok onDisc accepts =>
    _on_recv i g err bytes packets bad fail ok accepts (calls onDisc) .done
  | .send i sov _ err answers ok onDisc accepts =>
    _on_send i err sov ok accepts (calls onDisc) (send i none answers ok accepts (calls onDisc)) .done

/-- The completion is dequeued. -/
def dequeue (v : Server α) : ServerEvent α → Option (Server α)
  | .call _ => some v
  | .accept aov i _ _ _ _ _ => if v.flying.contains (aov, i) then some { v with flying := v.flying.erase (aov, i) } else none
  | .disc i _ _ =>
    if 0 < (v.session i).discs then some (v.change i fun s => { s with discs := s.discs - 1 }) else none
  | .recv i g _ _ _ _ _ _ _ _ =>
    if g ∈ (v.session i).recvs then some (v.change i fun s => { s with recvs := s.recvs.erase g }) else none
  | .send i sov g _ _ _ _ _ =>
    if (v.session i).sends.contains (sov, g) then
      some (v.change i fun s => { s with sends := s.sends.erase (sov, g) })
    else none

end Server

end Ven
