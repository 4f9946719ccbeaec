import Ven.SessionTeardown

namespace Ven

variable {α : Type}

/-- The connection a thread works for on the receiving side. -/
def RecvPC.gen : RecvPC → Option Nat
  | .idle => none
  | .leaving _ => none
  | .setConnected g => some g
  | .resetReceiving g => some g
  | .resetFlags g => some g
  | .initSBuf g => some g
  | .initRBuf g => some g
  | .received g _ => some g
  | .testConnected g => some g
  | .enterRecv g => some g
  | .setReceiving g => some g
  | .postRecv g => some g
  | .failed g _ => some g

/-- Inside `_on_conn_init` before `on_conn`, or between the `is_connected_` test of `recv` and
`is_receiving_ = true`. -/
def RecvPC.exposed : RecvPC → Bool
  | .setReceiving _ => true
  | pc => pc.initialising

/-- Before an `is_connected_` test, with `is_receiving_` cleared. -/
def RecvPC.stale : RecvPC → Bool
  | .testConnected _ => true
  | .enterRecv _ => true
  | _ => false

namespace Session

/-- The step runs a `_disconnect` that goes on to tear the session down. -/
def decides (s : Session α) : SessionOp α → Bool
  | .leaveSend _ _ => s.tearsDown
  | .leaveRecv _ _ => s.tearsDown
  | .disconnect _ => s.send.isConnected && !s.isForceDisconnecting && s.tearsDown
  | _ => false

/-- No teardown is decided on while a thread is exposed, and the session is not accepted again while a
thread has yet to see that it was disconnected. -/
def NotBetween (s : Session α) : SessionOp α → Prop
  | .accept _ _ => ∀ u, (s.io u).stale = false
  | op => s.decides op = true → ∀ u, (s.io u).exposed = false

/-- `WSARecv` is posted into a live buffer, alone, and for the current connection. -/
def PostOk (s : Session α) : SessionOp α → Prop
  | .postRecv u _ => ∀ g, s.io u = .postRecv g → s.rbuf = true ∧ s.recvs = [] ∧ g = s.gen
  | _ => True

/-- The connection has not been torn down. -/
def Alive (s : Session α) : Prop := s.pooled + s.discs = 0 ∧ s.isDisconnecting = false ∧ s.rbuf = true

/-- Nothing is posted, and nothing will be for a connection that is torn down. -/
def Settled (s : Session α) : Prop := s.recvs = [] ∧ (s.send.isConnected = true → s.Alive)

/-- What holds while the only thread that works on the receiving side stands at `pc`. -/
def PhaseOk (s : Session α) : RecvPC → Prop
  | .idle => (s.recvs = [s.gen] ∧ s.isReceiving = true ∧ s.Alive) ∨ s.Settled
  | .leaving _ => (s.recvs = [s.gen] ∧ s.isReceiving = true ∧ s.Alive) ∨ s.Settled
  | .setConnected g => g = s.gen ∧ s.recvs = [] ∧ s.pooled + s.discs = 0
  | .resetReceiving g => g = s.gen ∧ s.recvs = [] ∧ s.pooled + s.discs = 0
  | .resetFlags g => g = s.gen ∧ s.recvs = [] ∧ s.pooled + s.discs = 0
  | .initSBuf g => g = s.gen ∧ s.recvs = [] ∧ s.pooled + s.discs = 0 ∧ s.isDisconnecting = false
  | .initRBuf g => g = s.gen ∧ s.recvs = [] ∧ s.pooled + s.discs = 0 ∧ s.isDisconnecting = false
  | .received g _ => g = s.gen ∧ s.recvs = [] ∧ s.isReceiving = true ∧ s.Alive
  | .testConnected g => g = s.gen ∧ s.Settled
  | .enterRecv g => g = s.gen ∧ s.Settled
  | .setReceiving g => g = s.gen ∧ s.recvs = [] ∧ s.Alive
  | .postRecv g => g = s.gen ∧ s.recvs = [] ∧ s.isReceiving = true ∧ s.Alive
  | .failed g _ => g = s.gen ∧ s.recvs = [] ∧ s.isReceiving = true ∧ s.Alive

/-- One thread at most works on the receiving side, and the session is handed back at most once. -/
structure Single (s : Session α) (w : Nat) : Prop where
  others : ∀ u, u ≠ w → (s.io u).gen = none
  once : s.pooled + s.discs ≤ 1
  down : 0 < s.pooled + s.discs → s.isDisconnecting = true
  phase : s.PhaseOk (s.io w)

variable {s s' : Session α} {w : Nat}

theorem Single.worker (h : Single s w) {u g : Nat} (hg : (s.io u).gen = some g) : u = w := by
  by_contra hne
  rw [h.others u hne] at hg
  cases hg

/-- A thread that works alone moves on. -/
theorem Single.move (h : Single s w) {u g : Nat} (hg : (s.io u).gen = some g) {pc : RecvPC}
    (hio : s'.io = Function.update s.io u pc) (honce : s'.pooled + s'.discs ≤ 1)
    (hdown : 0 < s'.pooled + s'.discs → s'.isDisconnecting = true) (hphase : s'.PhaseOk pc) : Single s' u := by
  have huw := h.worker hg
  subst huw
  refine ⟨fun v hv => ?_, honce, hdown, ?_⟩
  · rw [hio, Function.update_of_ne hv]
    exact h.others v hv
  · rw [hio, Function.update_self]
    exact hphase

/-- Where nobody works on the receiving side, any thread may begin to. -/
theorem Single.begin (h : Single s w) (hw : (s.io w).gen = none) {u : Nat} {pc : RecvPC}
    (hio : s'.io = Function.update s.io u pc) (honce : s'.pooled + s'.discs ≤ 1)
    (hdown : 0 < s'.pooled + s'.discs → s'.isDisconnecting = true) (hphase : s'.PhaseOk pc) : Single s' u := by
  refine ⟨fun v hv => ?_, honce, hdown, ?_⟩
  · rw [hio, Function.update_of_ne hv]
    by_cases hvw : v = w
    · rw [hvw]
      exact hw
    · exact h.others v hvw
  · rw [hio, Function.update_self]
    exact hphase

theorem phase_idle {pc : RecvPC} (hpc : pc.gen = none) :
    s.PhaseOk pc ↔ (s.recvs = [s.gen] ∧ s.isReceiving = true ∧ s.Alive) ∨ s.Settled := by
  cases pc with
  | idle => exact Iff.rfl
  | leaving err => exact Iff.rfl
  | _ => cases hpc

/-- The thread does nothing, or is about to see whether its connection is still there. -/
def Parked (s : Session α) (pc : RecvPC) : Prop := pc.gen = none ∨ pc.stale = true ∧ pc.gen = some s.gen

theorem phase_parked {pc : RecvPC} (hpc : s.Parked pc) (hset : s.Settled) : s.PhaseOk pc := by
  rcases hpc with hpc | ⟨hpc, hg⟩
  · exact (phase_idle hpc).mpr (Or.inr hset)
  · cases pc with
    | testConnected g => exact ⟨Option.some.inj hg, hset⟩
    | enterRecv g => exact ⟨Option.some.inj hg, hset⟩
    | _ => cases hpc

/-- A receive is outstanding, or the thread is parked, exposed, or protected by `is_receiving_`. -/
theorem phase_cases {pc : RecvPC} (h : s.PhaseOk pc) :
    (pc.gen = none ∧ s.recvs = [s.gen] ∧ s.isReceiving = true ∧ s.Alive) ∨ (s.Parked pc ∧ s.Settled) ∨
      (pc.exposed = true ∧ s.recvs = [] ∧ s.pooled + s.discs = 0) ∨
      (s.recvs = [] ∧ s.isReceiving = true ∧ s.Alive) := by
  have idle : ∀ pc : RecvPC, pc.gen = none → s.PhaseOk pc →
      (pc.gen = none ∧ s.recvs = [s.gen] ∧ s.isReceiving = true ∧ s.Alive) ∨ (s.Parked pc ∧ s.Settled) := by
    intro pc hpc h
    rcases (phase_idle hpc).mp h with hwait | hset
    · exact Or.inl ⟨hpc, hwait⟩
    · exact Or.inr ⟨Or.inl hpc, hset⟩
  cases pc with
  | idle => exact (idle .idle rfl h).imp_right Or.inl
  | leaving err => exact (idle (.leaving err) rfl h).imp_right Or.inl
  | testConnected g => exact Or.inr (Or.inl ⟨Or.inr ⟨rfl, congrArg some h.1⟩, h.2⟩)
  | enterRecv g => exact Or.inr (Or.inl ⟨Or.inr ⟨rfl, congrArg some h.1⟩, h.2⟩)
  | setConnected g => exact Or.inr (Or.inr (Or.inl ⟨rfl, h.2⟩))
  | resetReceiving g => exact Or.inr (Or.inr (Or.inl ⟨rfl, h.2⟩))
  | resetFlags g => exact Or.inr (Or.inr (Or.inl ⟨rfl, h.2⟩))
  | initSBuf g => exact Or.inr (Or.inr (Or.inl ⟨rfl, h.2.1, h.2.2.1⟩))
  | initRBuf g => exact Or.inr (Or.inr (Or.inl ⟨rfl, h.2.1, h.2.2.1⟩))
  | setReceiving g => exact Or.inr (Or.inr (Or.inl ⟨rfl, h.2.1, h.2.2.1⟩))
  | received g bad => exact Or.inr (Or.inr (Or.inr h.2))
  | postRecv g => exact Or.inr (Or.inr (Or.inr h.2))
  | failed g err => exact Or.inr (Or.inr (Or.inr h.2))

/-- Where a receive is outstanding nobody works on the receiving side. -/
theorem Single.posted (h : Single s w) {g : Nat} (hg : g ∈ s.recvs) :
    (s.io w).gen = none ∧ s.recvs = [s.gen] ∧ s.isReceiving = true ∧ s.Alive := by
  have hne : s.recvs ≠ [] := List.ne_nil_of_mem hg
  rcases phase_cases h.phase with hwait | ⟨_, hset⟩ | ⟨_, hnone, _⟩ | ⟨hnone, _⟩
  · exact hwait
  · exact absurd hset.1 hne
  · exact absurd hnone hne
  · exact absurd hnone hne

/-- While nothing is posted or about to be, the thread is parked. -/
theorem Single.parked (h : Single s w) (hrecv : s.isReceiving = false) (hexp : (s.io w).exposed = false) :
    s.Settled ∧ s.Parked (s.io w) := by
  have hnot : ¬s.isReceiving = true := by
    rw [hrecv]
    exact Bool.false_ne_true
  rcases phase_cases h.phase with ⟨_, _, hr, _⟩ | ⟨hpark, hset⟩ | ⟨he, _⟩ | ⟨_, hr, _⟩
  · exact absurd hr hnot
  · exact ⟨hset, hpark⟩
  · rw [hexp] at he
    cases he
  · exact absurd hr hnot

/-- A session that is handed back, or about to be, is off, and nobody is about to post. -/
theorem Single.off (h : Single s w) (hpos : 0 < s.pooled + s.discs) :
    s.Settled ∧ s.send.isConnected = false ∧ s.Parked (s.io w) := by
  have hnot : ¬s.Alive := by
    intro halive
    have hz := halive.1
    omega
  rcases phase_cases h.phase with ⟨_, _, _, halive⟩ | ⟨hpark, hset⟩ | ⟨_, _, hz⟩ | ⟨_, _, halive⟩
  · exact absurd halive hnot
  · refine ⟨hset, ?_, hpark⟩
    cases hc : s.send.isConnected with
    | false => rfl
    | true => exact absurd (hset.2 hc) hnot
  · omega
  · exact absurd halive hnot

end Session

end Ven
