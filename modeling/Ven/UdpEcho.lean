import Ven.SockAddr
import Ven.UdpDelivery

namespace Ven

/-- Addresses as the network has them. -/
def SockaddrIn.Inet (sa : SockaddrIn) : Prop := sa.sinFamily = afInet ∧ sa.sinZero = 0

instance (sa : SockaddrIn) : Decidable sa.Inet := inferInstanceAs (Decidable (_ ∧ _))

theorem SockaddrIn.Inet.eq {L : Ipv4.Codec} {sa : SockaddrIn} (h : sa.Inet) : (Addr.ofSockaddr L sa).sockaddr L = sa := by
  obtain ⟨hfamily, hzero⟩ := h
  rw [Addr.sockaddr_ofSockaddr, ← hfamily, ← hzero]

theorem Addr.inet_sockaddr (L : Ipv4.Codec) (a : Addr) : (a.sockaddr L).Inet := by
  rw [Addr.sockaddr_eq]
  exact ⟨rfl, rfl⟩

structure Datagram where
  source : SockaddrIn
  dest : SockaddrIn
  data : List UInt8
deriving DecidableEq

/-- The `SessionUDP`s of an echo server and of its clients by address, with the network between them. `sent`, `lost`
and `doubled` record what the clients sent, and what the network lost or delivers once more; `spurious` what
receives that failed made `on_recv` take for datagrams. -/
structure UdpEcho (σ : Type) where
  endpoints : SockaddrIn → ReceiverUDP σ SockaddrIn
  wire : List Datagram
  sent : List Datagram
  lost : List Datagram
  doubled : List Datagram
  spurious : List Datagram

/-- What a process has when its session starts, with the bytes in the uninitialised `client_addr_`. -/
structure UdpProcess (σ : Type) where
  ram : Ram σ
  bufs : List Buf
  dettached : List Nat
  clientAddr : SockaddrIn

namespace UdpEcho

/-- `uses` are what the user does in `on_recv`, `fail` the answer to the next `WSARecvFrom`, and `taken` tells
whether `sendto` takes the datagram. -/
inductive Op
  | send (client : SockaddrIn) (data : List UInt8)
  | deliver (i : Nat) (uses : List UdpUse) (fail : Option Nat) (taken : Bool)
  | truncate (i : Nat) (uses : List UdpUse) (fail : Option Nat) (taken : Bool)
  | failed (who : SockaddrIn) (err : Nat) (data : List UInt8) (sender : Option SockaddrIn) (uses : List UdpUse)
    (fail : Option Nat) (taken : Bool)
  | use (who : SockaddrIn) (u : UdpUse)
  | lose (i : Nat)
  | double (i : Nat)

variable {σ : Type} (P : IMemPool σ) (L : Ipv4.Codec) (here : SockaddrIn)

/-- `receive_buffer_size` and `recv_buf_remaining_size_to_exchange`. -/
def receiveBufferSize : Nat := 1024 * 8

def recvBufRemainingSizeToExchange : Nat := 600

/-- `ERROR_MORE_DATA` -/
def errorMoreData : Nat := 234

/-- What `SessionUDP::send` of the server puts on its way. -/
def reply (call : List UInt8 × Addr) : Datagram := ⟨here, call.2.sockaddr L, call.1⟩

/-- `on_recv` of the server sends what it gets to the one it comes from; the clients only look at it. -/
def onRecv (s : UdpEcho σ) (who : SockaddrIn) (call : List UInt8 × Addr) (taken : Bool) : UdpEcho σ :=
  if who ≠ here then s
  else if taken then { s with wire := s.wire ++ [reply L here call] }
  else { s with lost := s.lost ++ [reply L here call] }

/-- A completion at `who`, with what `on_recv` was called with. -/
def complete (s : UdpEcho σ) (who : SockaddrIn) (c : Completion SockaddrIn) (uses : List UdpUse) (fail : Option Nat)
    (taken : Bool) : Option (UdpEcho σ × (List UInt8 × Addr)) :=
  match (s.endpoints who).step P (Addr.ofSockaddr L) (.complete c (if who = here then [] else uses) fail) with
  | none => none
  | some r =>
    match r.calls.getLast? with
    | none => none
    | some call => some (onRecv L here { s with endpoints := Function.update s.endpoints who r } who call taken, call)

/-- The datagram as which a failed receive passes: from the server to the client it would belong to. -/
def passedAs (who : SockaddrIn) (call : List UInt8 × Addr) : Datagram :=
  if who = here then reply L here call else ⟨here, who, call.1⟩

def step (s : UdpEcho σ) : Op → Option (UdpEcho σ)
  | .send client data =>
    if client = here ∨ ¬client.Inet then none
    else some { s with
      wire := s.wire ++ [⟨client, here, data⟩]
      sent := s.sent ++ [⟨client, here, data⟩] }
  | .deliver i uses fail taken =>
    match s.wire[i]? with
    | none => none
    | some d =>
      (complete P L here { s with wire := s.wire.eraseIdx i } d.dest (.datagram d.data d.source) uses fail taken).map
        Prod.fst
  | .truncate i uses fail taken =>
    match s.wire[i]? with
    | none => none
    | some d =>
      let room := (s.endpoints d.dest).rbuf.remainLen (s.endpoints d.dest).ram
      if d.data.length ≤ room then none
      else
        (complete P L here { s with wire := s.wire.eraseIdx i, lost := s.lost ++ [d] } d.dest
          (.failed errorMoreData (d.data.take room) (some d.source)) uses fail taken).map fun r =>
            { r.1 with spurious := r.1.spurious ++ [passedAs L here d.dest r.2] }
  | .failed who err data sender uses fail taken =>
    (complete P L here s who (.failed err data sender) uses fail taken).map fun r =>
      { r.1 with spurious := r.1.spurious ++ [passedAs L here who r.2] }
  | .use who u =>
    match (s.endpoints who).step P (Addr.ofSockaddr L) (.use u) with
    | none => none
    | some r => some { s with endpoints := Function.update s.endpoints who r }
  | .lose i =>
    match s.wire[i]? with
    | none => none
    | some d => some { s with wire := s.wire.eraseIdx i, lost := s.lost ++ [d] }
  | .double i =>
    match s.wire[i]? with
    | none => none
    | some d => some { s with wire := s.wire ++ [d], doubled := s.doubled ++ [d] }

/-- Every session has its first receive posted. -/
def start (process : SockaddrIn → UdpProcess σ) : UdpEcho σ where
  endpoints who :=
    let p := process who
    ReceiverUDP.init P p.ram p.bufs p.dettached p.clientAddr receiveBufferSize recvBufRemainingSizeToExchange none
  wire := []
  sent := []
  lost := []
  doubled := []
  spurious := []

end UdpEcho

/-- The client a datagram belongs to, on its way to the server or back, with its data. -/
def Datagram.round (here : SockaddrIn) (d : Datagram) : SockaddrIn × List UInt8 :=
  if d.source = here then (d.dest, d.data) else (d.source, d.data)

namespace UdpEcho

variable {σ : Type} {P : IMemPool σ} {C : PoolContract P} {here : SockaddrIn} {s s' : UdpEcho σ}

/-- How many of the datagrams belong to the client and have these data. -/
def tally (here : SockaddrIn) (ds : List Datagram) (r : SockaddrIn × List UInt8) : Nat :=
  ds.countP fun d => d.round here = r

/-- How often `on_recv` of the client was called with these data. -/
def received (s : UdpEcho σ) (r : SockaddrIn × List UInt8) : Nat := (s.endpoints r.1).calls.countP fun call => call.1 = r.2

@[simp] theorem tally_append (ds ds' : List Datagram) (r : SockaddrIn × List UInt8) :
    tally here (ds ++ ds') r = tally here ds r + tally here ds' r := List.countP_append

theorem tally_singleton (d : Datagram) (r : SockaddrIn × List UInt8) :
    tally here [d] r = if d.round here = r then 1 else 0 := by
  simp [tally, List.countP_singleton]

theorem tally_eraseIdx (here : SockaddrIn) {ds : List Datagram} {i : Nat} {d : Datagram} (hd : ds[i]? = some d)
    (r : SockaddrIn × List UInt8) : tally here (ds.eraseIdx i) r + tally here [d] r = tally here ds r := by
  have hperm : (d :: ds.eraseIdx i).Perm ds := by
    obtain ⟨hi, rfl⟩ := List.getElem?_eq_some_iff.mp hd
    exact List.getElem_cons_eraseIdx_perm hi
  rw [Nat.add_comm, ← tally_append]
  exact hperm.countP_eq _

end UdpEcho

end Ven
