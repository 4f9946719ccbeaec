import Ven.Addr
import Ven.SessionUDP
import Ven.SessionLife

namespace Ven

/-- A server with its outstanding `AcceptEx`s. -/
structure TcpServer (α : Type) where
  accepts : Nat
  sessions : List (SessionTCP α)

/-- Nothing is left of a server that was stopped. -/
def TcpServer.stopped {α : Type} : TcpServer α where
  accepts := 0
  sessions := []

inductive Endpoint
  | server (svr : Nat)
  | client (cli : Nat)
  | udp (u : Nat)
deriving DecidableEq

/-- The overlapped operations of a TCP session. -/
inductive SessionOV
  | conn
  | disc
  | recv (g : Nat)
  | send (sov g : Nat)
deriving DecidableEq

inductive Overlapped
  | accept (svr : Nat)
  | session (svr k : Nat) (ov : SessionOV)
  | client (cli : Nat) (ov : SessionOV)
  | udp (u : Nat)
deriving DecidableEq

namespace Overlapped

/-- The endpoint whose actor the operation carries. -/
def endpoint : Overlapped → Endpoint
  | .accept svr => .server svr
  | .session svr _ _ => .server svr
  | .client cli _ => .client cli
  | .udp u => .udp u

end Overlapped

def SessionTCP.outstanding {α : Type} (s : SessionTCP α) : SessionOV → Bool
  | .conn => decide (0 < s.conns)
  | .disc => decide (0 < s.discs)
  | .recv g => decide (g ∈ s.recvs)
  | .send sov g => s.sends.contains (sov, g)

/-- A `Net` with what its endpoints are. `udp_sessions` are the UDP sessions in the hands of the users: no
member of `Net` keeps them. -/
structure Net (α : Type) where
  tcp_svrs : UnorderedMap AddrObj Nat
  tcp_clis : List Nat
  udp_sessions : List Nat
  iocp : Bool
  servers : Nat → TcpServer α
  clients : Nat → SessionTCP α
  udps : Nat → SessionUDP

namespace Net

variable {α : Type} (std : StdHash)

def outstanding (net : Net α) : Overlapped → Bool
  | .accept svr => decide (0 < (net.servers svr).accepts)
  | .session svr k ov => ((net.servers svr).sessions[k]?).any fun s => s.outstanding ov
  | .client cli ov => (net.clients cli).outstanding ov
  | .udp u => decide (0 < (net.udps u).recvs)

/-- `IOThread::run` calls `on_event` of the operation's actor. Once the handle is closed,
`GetQueuedCompletionStatus` fails and the thread leaves its loop. -/
def on_event (net : Net α) (ov : Overlapped) : Option Endpoint :=
  if net.iocp && net.outstanding ov then some ov.endpoint else none

/-- `server` is the new server behind a successful `run`, `svr` its pointer, and `node` where the map's node puts
the address. -/
def run_tcp_server (net : Net α) (conf : AddrObj) (server : Option (TcpServer α)) (svr : Nat) (node : UInt64) :
    Net α × Bool :=
  if (net.tcp_svrs.find (addrHashing std) conf).isSome then (net, false)
  else
    match server with
    | none => (net, false)
    | some server =>
      ({ net with
        servers := Function.update net.servers svr server
        tcp_svrs := net.tcp_svrs.insert (addrHashing std) (⟨node, conf.addr⟩, svr) }, true)

/-- `stop` returns when every completion of the server was handled, and the server is deleted then. -/
def stop_tcp_server (net : Net α) (addr : AddrObj) : Net α × Bool :=
  match net.tcp_svrs.find (addrHashing std) addr with
  | none => (net, false)
  | some it =>
    ({ net with
      tcp_svrs := net.tcp_svrs.erase (addrHashing std) addr
      servers := Function.update net.servers it.2 .stopped }, true)

def stop_tcp_client (net : Net α) (s : Option Nat) (onDisc : List (Call α)) : Net α :=
  match s with
  | none => net
  | some cli =>
    { net with
      tcp_clis := net.tcp_clis.erase cli
      clients := Function.update net.clients cli ((net.clients cli).disconnect true fun s => s.calls onDisc) }

def stop_udp (net : Net α) (s : Option Nat) : Net α :=
  match s with
  | none => net
  | some u =>
    let net := { net with iocp := false }
    { net with
      udp_sessions := net.udp_sessions.erase u
      udps := Function.update net.udps u ((net.udps u).force_close net.iocp) }

end Net

end Ven
