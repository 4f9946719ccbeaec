import Ven.SessionReceiveMoves

namespace Ven

variable {α : Type}

namespace Session

variable {s s' : Session α} {w : Nat}

theorem Single.leaveSend (h : Single s w) {t : Nat} {ok : Bool} (between : s.NotBetween (.leaveSend t ok))
    (hs : s.step (.leaveSend t ok) = some s') : Single s' w := by
  simp only [Session.step] at hs
  split at hs
  next err hpc =>
    cases Option.some.inj hs
    have hg : Single { s with send := s.send.goto t .idle } w := h.frame id
    exact hg.disconnectWith err ok between
  next => cases hs

theorem Single.recvDone (h : Single s w) {u gen : Nat} {bad : Option Nat} (hs : s.step (.recvDone u gen bad) = some s') :
    Single s' u := by
  simp only [Session.step] at hs
  split at hs
  next hin =>
    cases Option.some.inj hs
    obtain ⟨hidle, hrecvs, hrecv, halive⟩ := h.posted hin.2
    have hgen : gen = s.gen := by
      have hmem := hin.2
      rw [hrecvs] at hmem
      exact List.mem_singleton.mp hmem
    have hnone : s.recvs.erase gen = [] := by
      rw [hrecvs, hgen]
      exact List.erase_cons_head s.gen []
    exact h.begin hidle rfl h.once h.down ⟨hgen, hnone, hrecv, halive⟩
  next => cases hs

theorem Single.clearReceiving (h : Single s w) {u : Nat} (hs : s.step (.clearReceiving u) = some s') : Single s' u := by
  simp only [Session.step] at hs
  split at hs
  next g hpc =>
    cases Option.some.inj hs
    obtain ⟨hg, hgen, hrecvs, _, halive⟩ := h.working hpc rfl
    exact h.move hg rfl h.once h.down ⟨hgen, hrecvs, fun _ => halive⟩
  next g err hpc =>
    cases Option.some.inj hs
    obtain ⟨hg, _, hrecvs, _, halive⟩ := h.working hpc rfl
    exact h.move hg rfl h.once h.down (Or.inr ⟨hrecvs, fun _ => halive⟩)
  next => cases hs

/-- The two tests of `is_connected_`, behind the loop and in `recv`. -/
theorem Single.tests (h : Single s w) {u : Nat} {op : SessionOp α} (hop : op = .testConnected u ∨ op = .enterRecv u)
    (hs : s.step op = some s') : Single s' u := by
  rcases hop with rfl | rfl
  · simp only [Session.step] at hs
    split at hs
    next g hpc =>
      cases Option.some.inj hs
      exact h.test hpc rfl id (fun hp => ⟨hp.1, hp.2.1, fun _ => hp.2.2⟩) Or.inr
    next => cases hs
  · simp only [Session.step] at hs
    split at hs
    next g hpc =>
      cases Option.some.inj hs
      exact h.test hpc rfl id id Or.inr
    next => cases hs

theorem Single.setReceiving (h : Single s w) {u : Nat} (hs : s.step (.setReceiving u) = some s') : Single s' u := by
  simp only [Session.step] at hs
  split at hs
  next g hpc =>
    cases Option.some.inj hs
    obtain ⟨hg, hgen, hrecvs, halive⟩ := h.working hpc rfl
    exact h.move hg rfl h.once h.down ⟨hgen, hrecvs, rfl, halive⟩
  next => cases hs

/-- The only thread on the receiving side posts into a live buffer, with no receive outstanding. -/
theorem Single.postRecv (h : Single s w) {u : Nat} {fail : Option Nat} (hs : s.step (.postRecv u fail) = some s') :
    Single s' u ∧ s.PostOk (.postRecv u fail) := by
  simp only [Session.step] at hs
  split at hs
  next g hpc =>
    obtain ⟨hg, hgen, hrecvs, hrecv, halive⟩ := h.working hpc rfl
    have hok : s.PostOk (.postRecv u fail) := fun g' hpc' => by
      cases hpc.symm.trans hpc'
      exact ⟨halive.2.2, hrecvs, hgen⟩
    rw [if_neg (by rw [halive.2.2]; decide)] at hs
    cases fail with
    | none =>
      cases Option.some.inj hs
      have hone : g :: s.recvs = [s.gen] := by rw [hrecvs, hgen]
      exact ⟨h.move hg rfl h.once h.down (Or.inl ⟨hone, hrecv, halive⟩), hok⟩
    | some err =>
      cases Option.some.inj hs
      exact ⟨h.move hg rfl h.once h.down ⟨hgen, hrecvs, hrecv, halive⟩, hok⟩
  next => cases hs

theorem Single.clearFailed (h : Single s w) {u : Nat} (hs : s.step (.clearFailed u) = some s') : Single s' u := by
  simp only [Session.step] at hs
  split at hs
  next g err hpc =>
    cases Option.some.inj hs
    obtain ⟨hg, _, hrecvs, _, halive⟩ := h.working hpc rfl
    exact h.move hg rfl h.once h.down (Or.inr ⟨hrecvs, fun _ => halive⟩)
  next => cases hs

theorem Single.leaveRecv (h : Single s w) {u : Nat} {ok : Bool} (between : s.NotBetween (.leaveRecv u ok))
    (hs : s.step (.leaveRecv u ok) = some s') : Single s' w := by
  simp only [Session.step] at hs
  split at hs
  next err hpc =>
    cases Option.some.inj hs
    refine (h.leave hpc).disconnectWith err ok fun htears v => ?_
    by_cases hv : v = u
    · subst hv
      simp only [goto, Function.update_self]
      rfl
    · simp only [goto, Function.update_of_ne hv]
      exact between htears v
  next => cases hs

theorem Single.discDone (h : Single s w) (hs : s.step .discDone = some s') : Single s' w := by
  simp only [Session.step] at hs
  split at hs
  next hpos =>
    cases Option.some.inj hs
    obtain ⟨hset, hconn, hpark⟩ := h.off (Nat.add_pos_right s.pooled hpos)
    have honce := h.once
    have hdown := h.down (Nat.add_pos_right s.pooled hpos)
    have hg : Single { s with discs := s.discs - 1 } w :=
      h.torn hset hpark rfl rfl rfl hconn (by change s.pooled + (s.discs - 1) ≤ 1; omega) hdown
    refine hg.onDisc ⟨hset.1, fun hc => ?_⟩ hpark hconn hdown ?_
    · change s.send.isConnected = true at hc
      rw [hconn] at hc
      cases hc
    · change s.pooled + (s.discs - 1) = 0
      omega
  next => cases hs

theorem Single.step (h : Single s w) {op : SessionOp α} (between : s.NotBetween op) (hs : s.step op = some s') :
    (∃ w', Single s' w') ∧ s.PostOk op := by
  cases op with
  | send op => exact ⟨⟨w, h.send hs⟩, trivial⟩
  | leaveSend t ok => exact ⟨⟨w, h.leaveSend between hs⟩, trivial⟩
  | accept u ok =>
    simp only [Session.step] at hs
    split at hs
    next hpos =>
      cases Option.some.inj hs
      exact ⟨h.accept between hpos.2 ok, trivial⟩
    next => cases hs
  | init u => exact ⟨⟨u, h.init hs⟩, trivial⟩
  | recvDone u gen bad => exact ⟨⟨u, h.recvDone hs⟩, trivial⟩
  | clearReceiving u => exact ⟨⟨u, h.clearReceiving hs⟩, trivial⟩
  | testConnected u => exact ⟨⟨u, h.tests (Or.inl rfl) hs⟩, trivial⟩
  | enterRecv u => exact ⟨⟨u, h.tests (Or.inr rfl) hs⟩, trivial⟩
  | setReceiving u => exact ⟨⟨u, h.setReceiving hs⟩, trivial⟩
  | postRecv u fail => exact ⟨⟨u, (h.postRecv hs).1⟩, (h.postRecv hs).2⟩
  | clearFailed u => exact ⟨⟨u, h.clearFailed hs⟩, trivial⟩
  | leaveRecv u ok => exact ⟨⟨w, h.leaveRecv between hs⟩, trivial⟩
  | disconnect isRelease =>
    cases Option.some.inj hs
    exact ⟨⟨w, h.disconnect isRelease between⟩, trivial⟩
  | discDone => exact ⟨⟨w, h.discDone hs⟩, trivial⟩

theorem single_start {initCnt stepCnt arrCnt : Nat} : Single (start initCnt stepCnt arrCnt : Session α) 0 := by
  refine ⟨fun u hu => ?_, Nat.zero_le 1, fun hpos => absurd hpos (lt_irrefl 0), ⟨rfl, rfl, rfl⟩⟩
  simp only [start, if_neg hu]
  rfl

/-- `WSARecv` is posted alone, into a live buffer and for the current connection in every run in which
no teardown is decided on while a thread is exposed, and the session is accepted again only when no
thread has yet to see that it was disconnected. -/
theorem recv_posted_alone {initCnt stepCnt arrCnt : Nat} {s : Session α} {ops : List (SessionOp α)}
    (between : Machine.Along Session.step NotBetween (start initCnt stepCnt arrCnt) ops)
    (run : Machine.exec Session.step (start initCnt stepCnt arrCnt) ops = some s) :
    Machine.Along Session.step PostOk (start initCnt stepCnt arrCnt) ops := by
  have keep : ∀ (s : Session α) op s', (∃ w, Single s w) → s.NotBetween op → s.step op = some s' →
      (∃ w, Single s' w) ∧ s.PostOk op := by
    intro s op s' ⟨w, h⟩ between hs
    exact h.step between hs
  exact (Machine.along_of_invariant keep ⟨0, single_start⟩ between run).2

/-- Thread 1 has passed the `is_connected_` test of `recv` when the session is torn down. It goes on after the session
has been accepted again: then two `WSARecv` are outstanding, one of them for the connection that is gone. -/
theorem recv_posted_twice :
    ∃ s s' : Session Nat, Machine.exec Session.step (start 1 1 1) (opening ++ [.enterRecv 0, .setReceiving 0,
        .postRecv 0 none, .recvDone 1 1 none, .clearReceiving 1, .testConnected 1, .enterRecv 1, .disconnect false,
        .accept 2 true, .init 2, .init 2, .init 2, .init 2, .init 2, .enterRecv 2, .setReceiving 2, .postRecv 2 none,
        .setReceiving 1]) = some s ∧
      s.io 1 = .postRecv 1 ∧ s.gen = 2 ∧ ¬s.PostOk (.postRecv 1 none) ∧ s.step (.postRecv 1 none) = some s' ∧
      s'.recvs = [1, 2] := by
  refine ⟨_, _, rfl, rfl, rfl, ?_, rfl, rfl⟩
  intro h
  cases (h 1 rfl).2.1

/-- Where the session has not been accepted again, `recv` follows a null pointer. -/
example :
    ∃ s : Session Nat, Machine.exec Session.step (start 1 1 1) (opening ++ [.enterRecv 0, .setReceiving 0,
        .postRecv 0 none, .recvDone 1 1 none, .clearReceiving 1, .testConnected 1, .enterRecv 1, .disconnect false,
        .setReceiving 1, .postRecv 1 none]) = some s ∧ s.crashed = true ∧ s.pooled = 1 :=
  ⟨_, rfl, rfl, rfl⟩

/-- A packet arrives, the completion of the receive posted after it tears the session down, and the
session is accepted again. -/
def reopening : List (SessionOp Nat) :=
  opening ++ [.enterRecv 0, .setReceiving 0, .postRecv 0 none, .recvDone 1 1 none, .clearReceiving 1,
    .testConnected 1, .enterRecv 1, .setReceiving 1, .postRecv 1 none, .disconnect false, .recvDone 0 1 (some 0),
    .clearReceiving 0, .leaveRecv 0 true, .accept 2 true]

theorem recv_posted_alone_sample :
    Machine.Along Session.step PostOk (start 1 1 1) reopening ∧
      ∃ s, Machine.exec Session.step (start 1 1 1) reopening = some s ∧ s.gen = 2 := by
  have quiet : ∀ (f : Nat → RecvPC) (P : RecvPC → Bool), P (f 0) = false → P (f 1) = false →
      (∀ n, P (f (n + 2)) = false) → ∀ u, P (f u) = false := by
    intro f P h0 h1 hn u
    match u with
    | 0 => exact h0
    | 1 => exact h1
    | n + 2 => exact hn n
  have run : ∃ s, Machine.exec Session.step (start 1 1 1) reopening = some s ∧ s.gen = 2 := ⟨_, rfl, rfl⟩
  have between : Machine.Along Session.step NotBetween (start 1 1 1) reopening := by
    refine Machine.along_cons nofun rfl (Machine.along_cons nofun rfl (Machine.along_cons nofun rfl
      (Machine.along_cons nofun rfl (Machine.along_cons nofun rfl (Machine.along_cons nofun rfl
      (Machine.along_cons nofun rfl (Machine.along_cons nofun rfl (Machine.along_cons nofun rfl
      (Machine.along_cons nofun rfl (Machine.along_cons nofun rfl (Machine.along_cons nofun rfl
      (Machine.along_cons nofun rfl (Machine.along_cons nofun rfl (Machine.along_cons nofun rfl
      (Machine.along_cons nofun rfl (Machine.along_cons nofun rfl (Machine.along_cons ?_ rfl
      (Machine.along_cons ?_ rfl trivial))))))))))))))))))
    · intro _
      exact quiet _ RecvPC.exposed rfl rfl fun _ => rfl
    · exact quiet _ RecvPC.stale rfl rfl fun _ => rfl
  obtain ⟨s, run, hgen⟩ := run
  exact ⟨recv_posted_alone between run, s, run, hgen⟩

end Session

end Ven
