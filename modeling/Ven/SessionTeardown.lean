import Ven.Session
import Ven.SendBatches

namespace Ven

variable {α : Type}

def RecvPC.initialising : RecvPC → Bool
  | .setConnected _ => true
  | .resetReceiving _ => true
  | .resetFlags _ => true
  | .initSBuf _ => true
  | .initRBuf _ => true
  | _ => false

open Sender

namespace Session

/-- A section of `send` does not run once the session is being torn down, and the session is not
accepted again. -/
def SendsBefore (s : Session α) : SessionOp α → Prop
  | .send (.lock _) => s.isDisconnecting = false
  | .accept _ _ => False
  | _ => True

/-- The sections that push to `sbuf_` or pop from it find it initialised, and the counter above zero
where they decrement it. -/
def SectionOk (s : Session α) : SessionOp α → Prop
  | .send (.lock _) => s.send.sbuf.sov.isSome = true ∧ s.send.sbuf.pool = true
  | .send (.pushBack _) => (s.send.sbuf.sov.isSome = true ∧ s.send.sbuf.pool = true) ∧ 0 < s.send.sbuf.popCnt
  | _ => True

/-- A connection in use, or one that is torn down with nothing left in flight. -/
structure Guarded (s : Session α) : Prop where
  owned : Owned s.send
  sound : s.send.crashed = false
  begun : ∀ u, (s.io u).initialising = false
  alive : s.isDisconnecting = false → s.discs = 0 ∧ ∃ cur, s.send.sbuf.sov = some cur
  torn : s.isDisconnecting = true → s.send.out = []
  clean : ∀ out ∈ s.uninits, out = []

variable {s s' : Session α}

/-- Steps of the receiving side do not concern what is being sent. -/
theorem Guarded.frame (h : Guarded s) (hsend : s'.send = s.send) (hdisc : s'.isDisconnecting = s.isDisconnecting)
    (hdiscs : s'.discs = s.discs) (huninits : s'.uninits = s.uninits) (hio : ∀ u, (s'.io u).initialising = false) :
    Guarded s' := by
  refine ⟨hsend ▸ h.owned, hsend ▸ h.sound, hio, ?_, ?_, huninits ▸ h.clean⟩
  · rw [hdisc, hdiscs, hsend]
    exact h.alive
  · rw [hdisc, hsend]
    exact h.torn

theorem Guarded.goto_begun (h : Guarded s) {u : Nat} {pc : RecvPC} (hpc : pc.initialising = false) (v : Nat) :
    ((Function.update s.io u pc) v).initialising = false := by
  by_cases hv : v = u
  · subst hv
    rw [Function.update_self]
    exact hpc
  · rw [Function.update_of_ne hv]
    exact h.begun v

theorem Guarded.goto (h : Guarded s) (u : Nat) {pc : RecvPC} (hpc : pc.initialising = false) : Guarded (s.goto u pc) :=
  h.frame rfl rfl rfl rfl (h.goto_begun hpc)

theorem Guarded.onDisc (h : Guarded s) (hdisc : s.isDisconnecting = true) : Guarded s.onDisc := by
  have hout := h.torn hdisc
  have hok : s.send.pool.Ok ((s.send.sbuf.sov.toList : Multiset Nat) + (s.send.out + s.send.away)) := by
    rw [← add_assoc]
    exact h.owned.pool
  obtain ⟨hnull, hpool, _⟩ := SBuf.uninit_spec hok
  have hown : Owned { s.send with sbuf := SBuf.null, pool := (s.send.sbuf.uninit s.send.pool).2 } := by
    refine ⟨?_, h.owned.holders, fun _ => nofun, ?_, rfl, fun _ => hout, fun id hid => ?_, fun u id err hu => ?_⟩
    · have hbusy : busy { s.send with sbuf := SBuf.null, pool := (s.send.sbuf.uninit s.send.pool).2 } =
          (s.send.out : Multiset Nat) + (s.send.away : Multiset Nat) := by
        simp [busy, SBuf.null]
      rw [hbusy]
      exact hpool
    · change 0 = s.send.out.length
      rw [hout]
      rfl
    · have hin := h.owned.hand_out hid
      rw [hout] at hin
      cases hin
    · have hin := h.owned.cleared_out hu
      rw [hout] at hin
      cases hin
  have hsend : s.onDisc.send = { s.send with sbuf := SBuf.null, pool := (s.send.sbuf.uninit s.send.pool).2 } := by
    rw [← hnull]
    rfl
  refine ⟨hsend ▸ hown, hsend ▸ h.sound, h.begun, fun hd => ?_, fun _ => hsend ▸ hout, fun out hin => ?_⟩
  · change s.isDisconnecting = false at hd
    rw [hdisc] at hd
    cases hd
  · rcases List.mem_append.mp hin with hin | hin
    · exact h.clean out hin
    · cases List.mem_singleton.mp hin
      exact hout

/-- `_disconnect` tears the session down only when nothing is being sent. -/
theorem Guarded.disconnectWith (h : Guarded s) (err : Nat) (ok : Bool) : Guarded (s._disconnect err ok) := by
  have hoff : Guarded { s with
      dovErr := if s.send.isConnected then err else s.dovErr
      send := { s.send with isConnected := false } } := ⟨h.owned.off, h.sound, h.begun, h.alive, h.torn, h.clean⟩
  unfold _disconnect
  dsimp only
  split
  next htears =>
    have hsending : s.send.sbuf.isSending = false := by
      unfold tearsDown at htears
      simp only [Bool.and_eq_true, Bool.not_eq_true', Bool.or_eq_false_iff] at htears
      exact htears.1.1
    have hcnt : s.send.sbuf.popCnt = 0 := by
      simpa [SBuf.isSending] using hsending
    have hout : s.send.out = [] := by
      apply List.eq_nil_of_length_eq_zero
      rw [← h.owned.popCnt]
      exact hcnt
    have hdown : ∀ discs, Guarded { s with
        dovErr := if s.send.isConnected then err else s.dovErr
        send := { s.send with isConnected := false }
        isDisconnecting := true
        discs := discs } := by
      intro discs
      exact ⟨hoff.owned, hoff.sound, h.begun, fun hd => absurd hd.symm Bool.false_ne_true, fun _ => hout, h.clean⟩
    split
    next => exact (hdown s.discs).onDisc rfl
    next =>
      split
      next => exact hdown (s.discs + 1)
      next => exact hdown s.discs
  next => exact hoff

theorem Guarded.disconnect (h : Guarded s) (isRelease : Bool) : Guarded (s.disconnect isRelease) := by
  have hrel : Guarded { s with isRelease := isRelease } := h.frame rfl rfl rfl rfl h.begun
  unfold Session.disconnect
  dsimp only
  split
  next => exact hrel
  next =>
    split
    next => exact hrel
    next =>
      have hforce : Guarded { s with isRelease := isRelease, isForceDisconnecting := true } :=
        h.frame rfl rfl rfl rfl h.begun
      exact hforce.disconnectWith 0 true

theorem Guarded.send (h : Guarded s) {op : SendOp α} (before : s.SendsBefore (.send op))
    (hs : s.sendStep op = some s') : Guarded s' ∧ s.SectionOk (.send op) := by
  have live : ∀ t, op = .lock t → ∃ cur, s.send.sbuf.sov = some cur := by
    intro t hop
    subst hop
    exact (h.alive before).2
  have usable : ∀ cur, s.send.sbuf.sov = some cur → s.send.sbuf.sov.isSome = true ∧ s.send.sbuf.pool = true := by
    intro cur hcur
    have hu := h.owned.usable
    rw [hcur] at hu ⊢
    exact ⟨rfl, hu⟩
  have stepped : (∀ actor, op ≠ .conn actor) → (s.send.step op).map (fun send => { s with send := send }) = some s' →
      Guarded s' ∧ s.SectionOk (.send op) := by
    intro hop hs
    obtain ⟨send, hsend, rfl⟩ := Option.map_eq_some_iff.mp hs
    have st := h.owned.step live hsend
    refine ⟨⟨st.owned, st.sound.trans h.sound, h.begun, fun hd => ?_, fun hd => ?_, h.clean⟩, ?_⟩
    · obtain ⟨hz, cur, hcur⟩ := h.alive hd
      have hsome := st.sov hop
      rw [hcur] at hsome
      exact ⟨hz, Option.isSome_iff_exists.mp hsome⟩
    · have hlock : ∀ t, op ≠ .lock t := by
        intro t hl
        subst hl
        have hf : s.isDisconnecting = false := before
        rw [hf] at hd
        cases hd
      apply List.eq_nil_iff_forall_not_mem.mpr
      intro id hid
      have hin := st.out hlock id hid
      rw [h.torn hd] at hin
      cases hin
    · cases op with
      | lock t =>
        obtain ⟨cur, hcur⟩ := live t rfl
        exact usable cur hcur
      | pushBack t =>
        simp only [Sender.step] at hsend
        split at hsend
        next id err hpc =>
          obtain ⟨_, cur, _, hcur, hpos, _⟩ := h.owned.pushBack_cases hpc
          exact ⟨usable cur hcur, hpos⟩
        next => cases hsend
      | _ => exact trivial
  cases op with
  | leave t => cases hs
  | conn actor => cases hs
  | disconnect => cases hs
  | _ =>
    refine stepped (fun actor hop => ?_) hs
    cases hop

theorem Guarded.leaveSend (h : Guarded s) {t : Nat} {ok : Bool} (hs : s.step (.leaveSend t ok) = some s') : Guarded s' := by
  simp only [Session.step] at hs
  split at hs
  next err hpc =>
    cases Option.some.inj hs
    have hg : Guarded { s with send := s.send.goto t .idle } :=
      ⟨h.owned.goto (by rw [hpc]; rfl) rfl, h.sound, h.begun, h.alive, h.torn, h.clean⟩
    exact hg.disconnectWith err ok
  next => cases hs

/-- Nobody is inside `_on_conn_init`. -/
theorem Guarded.no_init (h : Guarded s) (u : Nat) : s.step (.init u) = none := by
  have hu := h.begun u
  simp only [Session.step, initStep]
  split
  next hpc => rw [hpc] at hu; cases hu
  next hpc => rw [hpc] at hu; cases hu
  next hpc => rw [hpc] at hu; cases hu
  next hpc => rw [hpc] at hu; cases hu
  next hpc => rw [hpc] at hu; cases hu
  next => rfl

theorem Guarded.recvDone (h : Guarded s) {u gen : Nat} {bad : Option Nat} (hs : s.step (.recvDone u gen bad) = some s') :
    Guarded s' := by
  simp only [Session.step] at hs
  split at hs
  next =>
    cases Option.some.inj hs
    exact h.frame rfl rfl rfl rfl (h.goto_begun rfl)
  next => cases hs

theorem Guarded.clearReceiving (h : Guarded s) {u : Nat} (hs : s.step (.clearReceiving u) = some s') : Guarded s' := by
  simp only [Session.step] at hs
  split at hs
  next =>
    cases Option.some.inj hs
    exact h.frame rfl rfl rfl rfl (h.goto_begun rfl)
  next =>
    cases Option.some.inj hs
    exact h.frame rfl rfl rfl rfl (h.goto_begun rfl)
  next => cases hs

/-- The two tests of `is_connected_`, behind the loop and in `recv`. -/
theorem Guarded.tests (h : Guarded s) {u : Nat} {op : SessionOp α} (hop : op = .testConnected u ∨ op = .enterRecv u)
    (hs : s.step op = some s') : Guarded s' := by
  rcases hop with rfl | rfl
  · simp only [Session.step] at hs
    split at hs
    next =>
      cases Option.some.inj hs
      split
      next => exact h.goto u rfl
      next => exact h.goto u rfl
    next => cases hs
  · simp only [Session.step] at hs
    split at hs
    next =>
      cases Option.some.inj hs
      split
      next => exact h.goto u rfl
      next => exact h.goto u rfl
    next => cases hs

theorem Guarded.setReceiving (h : Guarded s) {u : Nat} (hs : s.step (.setReceiving u) = some s') : Guarded s' := by
  simp only [Session.step] at hs
  split at hs
  next =>
    cases Option.some.inj hs
    exact h.frame rfl rfl rfl rfl (h.goto_begun rfl)
  next => cases hs

theorem Guarded.postRecv (h : Guarded s) {u : Nat} {fail : Option Nat} (hs : s.step (.postRecv u fail) = some s') :
    Guarded s' := by
  simp only [Session.step] at hs
  split at hs
  next =>
    split at hs
    next =>
      cases Option.some.inj hs
      exact h.frame rfl rfl rfl rfl (h.goto_begun rfl)
    next =>
      split at hs
      next =>
        cases Option.some.inj hs
        exact h.frame rfl rfl rfl rfl (h.goto_begun rfl)
      next =>
        cases Option.some.inj hs
        exact h.goto u rfl
  next => cases hs

theorem Guarded.clearFailed (h : Guarded s) {u : Nat} (hs : s.step (.clearFailed u) = some s') : Guarded s' := by
  simp only [Session.step] at hs
  split at hs
  next =>
    cases Option.some.inj hs
    exact h.frame rfl rfl rfl rfl (h.goto_begun rfl)
  next => cases hs

theorem Guarded.leaveRecv (h : Guarded s) {u : Nat} {ok : Bool} (hs : s.step (.leaveRecv u ok) = some s') : Guarded s' := by
  simp only [Session.step] at hs
  split at hs
  next err hpc =>
    cases Option.some.inj hs
    exact (h.goto u rfl).disconnectWith err ok
  next => cases hs

/-- The completion of `DisconnectEx`, which `is_disconnecting_` has been set for. -/
theorem Guarded.discDone (h : Guarded s) (hs : s.step .discDone = some s') : Guarded s' := by
  simp only [Session.step] at hs
  split at hs
  next hpos =>
    cases Option.some.inj hs
    have hdisc : s.isDisconnecting = true := by
      cases hd : s.isDisconnecting with
      | true => rfl
      | false =>
        have hz := (h.alive hd).1
        omega
    have hg : Guarded { s with discs := s.discs - 1 } := by
      refine ⟨h.owned, h.sound, h.begun, fun hd => ?_, h.torn, h.clean⟩
      change s.isDisconnecting = false at hd
      rw [hdisc] at hd
      cases hd
    exact hg.onDisc hdisc
  next => cases hs

theorem Guarded.step (h : Guarded s) {op : SessionOp α} (before : s.SendsBefore op) (hs : s.step op = some s') :
    Guarded s' ∧ s.SectionOk op := by
  cases op with
  | send op => exact h.send before hs
  | leaveSend t ok => exact ⟨h.leaveSend hs, trivial⟩
  | accept u ok => exact before.elim
  | init u =>
    rw [h.no_init u] at hs
    cases hs
  | recvDone u gen bad => exact ⟨h.recvDone hs, trivial⟩
  | clearReceiving u => exact ⟨h.clearReceiving hs, trivial⟩
  | testConnected u => exact ⟨h.tests (Or.inl rfl) hs, trivial⟩
  | enterRecv u => exact ⟨h.tests (Or.inr rfl) hs, trivial⟩
  | setReceiving u => exact ⟨h.setReceiving hs, trivial⟩
  | postRecv u fail => exact ⟨h.postRecv hs, trivial⟩
  | clearFailed u => exact ⟨h.clearFailed hs, trivial⟩
  | leaveRecv u ok => exact ⟨h.leaveRecv hs, trivial⟩
  | disconnect isRelease =>
    cases Option.some.inj hs
    exact ⟨h.disconnect isRelease, trivial⟩
  | discDone => exact ⟨h.discDone hs, trivial⟩

/-- `_on_conn_init` of the first connection. -/
def opening : List (SessionOp α) := List.replicate 5 (.init 0)

end Session

end Ven
