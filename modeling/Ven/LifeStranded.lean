import Ven.LifeClosing

namespace Ven

variable {α : Type}

namespace SessionTCP

/-- Disconnected and with nothing outstanding, but `on_disc` was not raised and the session is not in its pool. -/
def Stranded (s : SessionTCP α) : Prop :=
  s.crashed = false ∧ 0 < s.gen ∧ s.isConnected = false ∧ s.recvs = [] ∧ s.sends = [] ∧ s.discs = 0 ∧ s.Quiet ∧ s.pooled = 0

/-- A disconnected session waits for a completion that tries the teardown again, or for `DisconnectEx`, or it is
back in its pool. -/
def Awaited (s : SessionTCP α) : Prop :=
  s.crashed = false → 0 < s.gen → s.isConnected = false → s.recvs ≠ [] ∨ s.sends ≠ [] ∨ 0 < s.discs ∨ 0 < s.pooled

variable {lost : Prop} {s s' : SessionTCP α}

/-- No `ConnectEx` completes on a server session. -/
theorem server_settled (sound : Sound 0 s) (server : s.isServer = true) {op : LifeOp α} (hs : s.step op = some s') :
    s.Settled op := by
  cases op with
  | conn err o =>
    unfold SessionTCP.step at hs
    split at hs
    next => cases hs
    next =>
      simp only [SessionTCP.handle] at hs
      split at hs
      next hpos =>
        rcases sound.side with hc | hc
        · omega
        · rw [server] at hc
          cases hc.1
      next => cases hs
  | _ => exact trivial

/-- What every server session keeps whose users only call `disconnect(false)`. -/
theorem server_closing {initCnt stepCnt arrCnt : Nat} {ops : List (LifeOp α)}
    (plain : ∀ op ∈ ops, op.within (· == false) = true) (ends : ∀ op ∈ ops, op.ends = true)
    (updates : ∀ op ∈ ops, op.updates = true ∨ lost)
    (run : Machine.exec step (start true initCnt stepCnt arrCnt) ops = some s) :
    Sound 0 s ∧ Posted s ∧ Closing true false lost s := by
  refine Machine.exec_invariant_along (I := fun t : SessionTCP α => Sound 0 t ∧ Posted t ∧ Closing true false lost t)
    (G := fun _ op => op.within (· == false) = true ∧ op.ends = true ∧ (op.updates = true ∨ lost)) ?_ ?_ ?_ run
  · intro s op s' h good hs
    obtain ⟨sound, posted, closing⟩ := h
    have settled := server_settled sound closing.ending.server hs
    exact ⟨sound.step settled hs, posted.step sound settled hs,
      closing.step sound (fun _ => rfl) settled good.1 good.2.1 good.2.2 hs⟩
  · refine ⟨sound_start true initCnt stepCnt arrCnt, ⟨nofun, nofun⟩, ⟨rfl, rfl, nofun⟩, fun _ _ hpos => ?_⟩
    exact absurd hpos (lt_irrefl 0)
  · exact Machine.along_of_forall (fun op hop _ => ⟨plain op hop, ends op hop, updates op hop⟩) _

/-- When no `DisconnectEx` fails at once, no server session is stranded; when every accept context can be updated
too, each disconnected session is awaited. -/
theorem no_session_stranded {initCnt stepCnt arrCnt : Nat} {ops : List (LifeOp α)}
    (plain : ∀ op ∈ ops, op.within (· == false) = true) (ends : ∀ op ∈ ops, op.ends = true)
    (run : Machine.exec step (start true initCnt stepCnt arrCnt) ops = some s) :
    ¬Stranded s ∧ ((∀ op ∈ ops, op.updates = true) → Awaited s) := by
  constructor
  · intro stranded
    obtain ⟨alive, hgen, hoff, hrecvs, hsends, hdiscs, hquiet, _⟩ := stranded
    obtain ⟨sound, posted, closing⟩ : Sound 0 s ∧ Posted s ∧ Closing true false True s :=
      server_closing plain ends (fun _ _ => Or.inr trivial) run
    rcases closing.waits sound posted alive hgen hoff with hw | hw | hw | ⟨hloud, _⟩
    · exact hw hrecvs
    · exact hw hsends
    · omega
    · exact hloud hquiet
  · intro updates alive hgen hoff
    obtain ⟨sound, posted, closing⟩ : Sound 0 s ∧ Posted s ∧ Closing true false False s :=
      server_closing plain ends (fun op hop => Or.inl (updates op hop)) run
    rcases closing.waits sound posted alive hgen hoff with hw | hw | hw | ⟨_, hparted⟩
    · exact Or.inl hw
    · exact Or.inr (Or.inl hw)
    · exact Or.inr (Or.inr (Or.inl hw))
    · refine Or.inr (Or.inr (Or.inr ?_))
      rcases hparted with hback | hlost
      · have hone : s.pooled = 1 := hback rfl
        omega
      · exact absurd hlost id

/-- A `WSARecv` fails at once while a send is outstanding, and the session is torn down after the send; its next
connection is closed from `on_conn`. -/
def served : List (LifeOp Nat) :=
  [.accept true ⟨[.send (some 7) [] true []], none, true, []⟩, .recv 1 0 4 [[.send (some 9) [] true []]] false (some 5) true [],
    .send 0 1 0 [some 3] true [], .disc [.disconnect false []],
    .accept true ⟨[.disconnect false [.send none [] true []]], none, true, []⟩]

theorem session_not_stranded_sample :
    ∃ s, Machine.exec step (start true 1 1 3) served = some s ∧ s.pooled = 1 ∧
      ¬Stranded s ∧ ((∀ op ∈ served, op.updates = true) → Awaited s) := by
  have run : (Machine.exec step (start true 1 1 3) served).map (fun s => s.pooled) = some 1 := by decide +kernel
  obtain ⟨s, run, hpooled⟩ := Option.map_eq_some_iff.mp run
  have plain : ∀ op ∈ served, op.within (· == false) = true := by decide +kernel
  have ends : ∀ op ∈ served, op.ends = true := by decide +kernel
  exact ⟨s, run, hpooled, no_session_stranded plain ends run⟩

/-- The peer closes and `DisconnectEx` fails at once; an accept context that cannot be updated keeps a session
from its pool as well. -/
theorem failed_teardown_strands :
    (∃ s : SessionTCP Nat, Machine.exec step (start true 1 1 1)
      [.accept true ⟨[], none, true, []⟩, .recv 1 0 0 [] false none false []] = some s ∧ Stranded s) ∧
    ∃ s : SessionTCP Nat, Machine.exec step (start true 1 1 1)
      [.accept true ⟨[], none, true, []⟩, .recv 1 0 0 [] false none true [], .disc [],
        .accept false ⟨[], none, true, []⟩] = some s ∧ ¬Awaited s := by
  refine ⟨⟨_, rfl, rfl, Nat.one_pos, rfl, rfl, rfl, rfl, rfl, rfl⟩, ⟨_, rfl, fun awaited => ?_⟩⟩
  rcases awaited rfl Nat.one_pos rfl with h | h | h | h
  · exact h rfl
  · exact h rfl
  · cases h
  · cases h

end SessionTCP

end Ven
