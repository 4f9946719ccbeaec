import Ven.Net

namespace Ven

inductive StopOp (α : Type)
  | tcpServer (addr : AddrObj)
  | tcpClient (s : Option Nat) (onDisc : List (Call α))
  | udp (s : Option Nat)

namespace Net

variable {α : Type} (std : StdHash)

/-- The endpoint is registered with the `Net`, or is a UDP session in the hands of a user. -/
def Has (net : Net α) : Endpoint → Prop
  | .server svr => ∃ n ∈ net.tcp_svrs.nodes, n.2 = svr
  | .client cli => cli ∈ net.tcp_clis
  | .udp u => u ∈ net.udp_sessions

def stop (net : Net α) : StopOp α → Net α
  | .tcpServer addr => (net.stop_tcp_server std addr).1
  | .tcpClient s onDisc => net.stop_tcp_client s onDisc
  | .udp s => net.stop_udp s

/-- The endpoint the call is applied to. -/
def target (net : Net α) : StopOp α → Option Endpoint
  | .tcpServer addr => (net.tcp_svrs.find (addrHashing std) addr).map fun it => .server it.2
  | .tcpClient s _ => s.map .client
  | .udp s => s.map .udp

/-- Every other endpoint stays registered, the port stays open, and what is outstanding on the endpoint is still
dispatched to it. -/
def LeavesOthers (net : Net α) (op : StopOp α) : Prop :=
  ∀ e, net.Has e → net.target std op ≠ some e →
    (net.stop std op).Has e ∧ (net.iocp = true → (net.stop std op).iocp = true) ∧
      ∀ ov, ov.endpoint = e → net.on_event ov = some e → (net.stop std op).on_event ov = some e

variable {std} {net : Net α}

theorem on_event_of_outstanding {net' : Net α} {ov : Overlapped} {e : Endpoint} (hport : net'.iocp = net.iocp)
    (hsame : net'.outstanding ov = net.outstanding ov) (h : net.on_event ov = some e) : net'.on_event ov = some e := by
  unfold on_event at h ⊢
  rw [hport, hsame]
  exact h

theorem stop_tcp_server_leaves (net : Net α) (addr : AddrObj) : net.LeavesOthers std (.tcpServer addr) := by
  intro e hhas hne
  cases hfound : net.tcp_svrs.find (addrHashing std) addr with
  | none =>
    have hsame : net.stop std (.tcpServer addr) = net := by
      simp only [stop, stop_tcp_server, hfound]
    rw [hsame]
    exact ⟨hhas, fun hport => hport, fun _ _ h => h⟩
  | some it =>
    have hstop : net.stop std (.tcpServer addr) = { net with
        tcp_svrs := net.tcp_svrs.erase (addrHashing std) addr
        servers := Function.update net.servers it.2 .stopped } := by
      simp only [stop, stop_tcp_server, hfound]
    have hother : e ≠ .server it.2 := by
      intro heq
      apply hne
      simp only [target, hfound, Option.map_some, heq]
    rw [hstop]
    refine ⟨?_, fun hport => hport, fun ov hov => on_event_of_outstanding rfl ?_⟩
    · cases e with
      | server svr =>
        obtain ⟨n, hin, hsvr⟩ := hhas
        refine ⟨n, ?_, hsvr⟩
        have hperm := UnorderedMap.erase_perm hfound
        rcases List.mem_cons.mp (hperm.symm.subset hin) with heq | hin
        · rw [heq] at hsvr
          exact absurd (congrArg Endpoint.server hsvr).symm hother
        · exact hin
      | client cli => exact hhas
      | udp u => exact hhas
    · have hserver : ∀ svr, ov.endpoint = .server svr → Function.update net.servers it.2 .stopped svr = net.servers svr := by
        intro svr hsvr
        refine Function.update_of_ne (fun heq => hother ?_) _ _
        rw [← hov, hsvr, heq]
      cases ov with
      | accept svr => simp only [outstanding, hserver svr rfl]
      | session svr k sov => simp only [outstanding, hserver svr rfl]
      | client cli sov => rfl
      | udp u => rfl

theorem stop_tcp_client_leaves (net : Net α) (s : Option Nat) (onDisc : List (Call α)) :
    net.LeavesOthers std (.tcpClient s onDisc) := by
  intro e hhas hne
  cases s with
  | none => exact ⟨hhas, fun hport => hport, fun _ _ h => h⟩
  | some cli =>
    have hother : e ≠ .client cli := fun heq => hne (congrArg some heq).symm
    refine ⟨?_, fun hport => hport, fun ov hov => on_event_of_outstanding rfl ?_⟩
    · cases e with
      | server svr => exact hhas
      | client c =>
        have hcli : c ≠ cli := fun heq => hother (congrArg Endpoint.client heq)
        exact (List.mem_erase_of_ne hcli).mpr hhas
      | udp u => exact hhas
    · cases ov with
      | accept svr => rfl
      | session svr k sov => rfl
      | client c sov =>
        have hcli : c ≠ cli := by
          intro heq
          apply hother
          rw [← hov, heq]
          rfl
        simp only [outstanding, stop, stop_tcp_client, Function.update_of_ne hcli]
      | udp u => rfl

/-- With the port closed before, nothing was dispatched that `stop_udp` could keep from its endpoint. -/
theorem stop_udp_closed_leaves (hport : net.iocp = false) (u : Nat) : net.LeavesOthers std (.udp (some u)) := by
  intro e hhas hne
  have hother : e ≠ .udp u := fun heq => hne (congrArg some heq).symm
  refine ⟨?_, fun hopen => ?_, fun ov _ hon => ?_⟩
  · cases e with
    | server svr => exact hhas
    | client cli => exact hhas
    | udp v =>
      have hu : v ≠ u := fun heq => hother (congrArg Endpoint.udp heq)
      exact (List.mem_erase_of_ne hu).mpr hhas
  · rw [hport] at hopen
    cases hopen
  · unfold on_event at hon
    rw [hport] at hon
    cases hon

/-- Stopping an endpoint leaves every other endpoint running, except that `stop_udp` closes the port they share. -/
theorem stop_leaves_others_iff (std : StdHash) (net : Net α) (op : StopOp α) : net.LeavesOthers std op ↔
    ∀ u, op = .udp (some u) → net.iocp = false ∨ ∀ e, net.Has e → e = .udp u := by
  constructor
  · intro leaves u hop
    cases hport : net.iocp with
    | false => exact Or.inl rfl
    | true =>
      refine Or.inr fun e hhas => ?_
      by_contra hother
      have hne : net.target std op ≠ some e := by
        intro heq
        rw [hop] at heq
        exact hother (Option.some.inj heq).symm
      have hopen := (leaves e hhas hne).2.1 hport
      rw [hop] at hopen
      cases hopen
  · intro h
    cases op with
    | tcpServer addr => exact stop_tcp_server_leaves net addr
    | tcpClient s onDisc => exact stop_tcp_client_leaves net s onDisc
    | udp s =>
      cases s with
      | none => exact fun e hhas _ => ⟨hhas, fun hport => hport, fun _ _ h => h⟩
      | some u =>
        rcases h u rfl with hport | honly
        · exact stop_udp_closed_leaves hport u
        · intro e hhas hne
          exact absurd (congrArg some (honly e hhas)).symm hne

/-- A client waits for its `ConnectEx` when a UDP session is stopped. -/
theorem stop_udp_closes_port : ∃ (std : StdHash) (net : Net Nat),
    net.Has (.client 1) ∧ net.on_event (.client 1 .conn) = some (.client 1) ∧
      (net.stop std (.udp (some 2))).on_event (.client 1 .conn) = none ∧ ¬net.LeavesOthers std (.udp (some 2)) := by
  let std : StdHash := ⟨id, id, fun _ _ => 0, 1, fun n _ => n⟩
  refine ⟨std, {
    tcp_svrs := UnorderedMap.empty (addrHashing std)
    tcp_clis := [1]
    udp_sessions := [2]
    iocp := true
    servers := fun _ => .stopped
    clients := fun _ => ((SessionTCP.start false 1 1 1).connect none).1
    udps := fun _ => (SessionUDP.init none).1 }, List.mem_singleton.mpr rfl, rfl, rfl, fun leaves => ?_⟩
  have hopen := (leaves (.client 1) (List.mem_singleton.mpr rfl) nofun).2.1 rfl
  cases hopen

end Net

end Ven
