import Ven.Machine

namespace Ven

/-- What was still going on when a session was deleted: its outstanding `WSARecvFrom`s, and how many of its
handlers were executing. -/
structure Deletion where
  recvs : Nat
  running : Nat
deriving DecidableEq

/-- `recvs` counts the outstanding `WSARecvFrom`s, `running` the handlers that execute; `dangling` tells that
a handler went on with a deleted session. -/
structure SessionUDP where
  isReceiving : Bool
  forceClose : Bool
  recvs : Nat
  running : Nat
  deletions : List Deletion
  dangling : Bool
deriving DecidableEq

namespace SessionUDP

def fresh : SessionUDP where
  isReceiving := false
  forceClose := false
  recvs := 0
  running := 0
  deletions := []
  dangling := false

def deleted (s : SessionUDP) : Bool := !s.deletions.isEmpty

def on_close (s : SessionUDP) : SessionUDP := { s with deletions := s.deletions ++ [⟨s.recvs, s.running⟩] }

/-- `iocp` tells that the handle of the completion port is open. Closing the socket leaves the `WSARecvFrom`
outstanding until its completion is handled. -/
def force_close (s : SessionUDP) (iocp : Bool) : SessionUDP :=
  let s := { s with forceClose := true }
  if !iocp then s.on_close else s

/-- `fail` is the error with which `WSARecvFrom` fails at once. -/
def recv (s : SessionUDP) (fail : Option Nat) : SessionUDP × Bool :=
  if s.forceClose then (s, true)
  else
    let s := { s with isReceiving := true }
    match fail with
    | none => ({ s with recvs := s.recvs + 1 }, true)
    | some _ => ({ s with isReceiving := false }, false)

/-- The end of `init`, once the socket is open, bound, connected and registered. -/
def init (fail : Option Nat) : SessionUDP × Bool := fresh.recv fail

end SessionUDP

/-- A session with the pointer `run_udp` returned, which is null once the session was stopped, and the
completion port it shares with every other endpoint of its `Net`. -/
structure RunningUDP where
  session : SessionUDP
  pointer : Bool
  iocp : Bool
deriving DecidableEq

/-- Calls of `stop_udp`: for the session, or for another one. -/
inductive UdpCall
  | stop
  | stopOther
deriving DecidableEq

/-- `recv` is the completion of a `WSARecvFrom` with what its `on_recv` calls, and the answer to the next. -/
inductive UdpOp
  | call (c : UdpCall)
  | recv (calls : List UdpCall) (fail : Option Nat)
deriving DecidableEq

namespace RunningUDP

def run_udp (iocp : Bool) (fail : Option Nat) : Option RunningUDP :=
  match SessionUDP.init fail with
  | (s, true) => some ⟨s, true, iocp⟩
  | (_, false) => none

def stop_udp (n : RunningUDP) : RunningUDP :=
  if !n.pointer then n
  else
    let n := { n with iocp := false }
    { n with session := n.session.force_close n.iocp, pointer := false }

def call (n : RunningUDP) : UdpCall → RunningUDP
  | .stop => n.stop_udp
  | .stopOther => { n with iocp := false }

def calls (n : RunningUDP) : List UdpCall → RunningUDP
  | [] => n
  | c :: cs => (n.call c).calls cs

/-- The part of `_on_recv` behind `on_recv` reads the session again. -/
def afterRecv (n : RunningUDP) (fail : Option Nat) : RunningUDP :=
  if n.session.deleted then { n with session := { n.session with dangling := true } }
  else
    let s := { n.session with isReceiving := false }
    if s.forceClose then { n with session := s } else { n with session := (s.recv fail).1 }

def _on_recv (n : RunningUDP) (calls : List UdpCall) (fail : Option Nat) : RunningUDP :=
  let s := { n.session with isReceiving := false }
  if s.forceClose then { n with session := s.on_close }
  else ({ n with session := s }.calls calls).afterRecv fail

/-- An IO thread takes completions while the port is open. -/
def step (n : RunningUDP) : UdpOp → Option RunningUDP
  | .call c => some (n.call c)
  | .recv calls fail =>
    if n.iocp && decide (0 < n.session.recvs) then
      let s := { n.session with recvs := n.session.recvs - 1, running := n.session.running + 1 }
      let n := { n with session := s }._on_recv calls fail
      some { n with session := { n.session with running := n.session.running - 1 } }
    else none

/-- Deleted at most once and only after `stop_udp`, by then at the latest once nothing of the session goes on,
and never while something does. -/
structure Destroyed (n : RunningUDP) : Prop where
  once : n.session.deletions.length ≤ 1
  after : n.pointer = true → n.session.deletions = []
  gone : n.pointer = false → n.session.recvs = 0 → n.session.deletions ≠ []
  idle : ∀ d ∈ n.session.deletions, d = ⟨0, 0⟩

/-- The session is stopped outside its `on_recv` and while no `WSARecvFrom` is outstanding. -/
def StoppedIdle (n : RunningUDP) : UdpOp → Prop
  | .call .stop => n.pointer = true → n.session.recvs = 0
  | .call .stopOther => True
  | .recv calls _ => UdpCall.stop ∉ calls

instance (n : RunningUDP) : ∀ op, Decidable (n.StoppedIdle op)
  | .call .stop => inferInstanceAs (Decidable (n.pointer = true → n.session.recvs = 0))
  | .call .stopOther => isTrue trivial
  | .recv calls _ => inferInstanceAs (Decidable (UdpCall.stop ∉ calls))

/-- The session is there, or was deleted while nothing of it went on. -/
def Clean (n : RunningUDP) : Prop :=
  n.session.running = 0 ∧ n.session.dangling = false ∧
    (n.pointer = true ∧ n.session.deletions = [] ∧ n.session.forceClose = false ∨
      n.pointer = false ∧ n.session.deletions = [⟨0, 0⟩] ∧ n.session.recvs = 0)

/-- A deletion that came too early stays on record. -/
def Early (n : RunningUDP) : Prop := ∃ d ∈ n.session.deletions, d ≠ ⟨0, 0⟩

variable {n n' : RunningUDP}

theorem Clean.destroyed (h : Clean n) : Destroyed n := by
  obtain ⟨_, _, ⟨hptr, hnone, _⟩ | ⟨hptr, hone, hrecvs⟩⟩ := h
  · refine ⟨?_, fun _ => hnone, fun hnull => ?_, ?_⟩
    · rw [hnone]
      exact Nat.zero_le 1
    · rw [hptr] at hnull
      cases hnull
    · rw [hnone]
      exact fun d hd => absurd hd List.not_mem_nil
  · refine ⟨?_, fun hset => ?_, fun _ _ => ?_, ?_⟩
    · rw [hone]
      exact Nat.le_refl 1
    · rw [hptr] at hset
      cases hset
    · rw [hone]
      exact List.cons_ne_nil _ _
    · rw [hone]
      exact fun d hd => List.mem_singleton.mp hd

theorem Early.not_destroyed (h : Early n) : ¬Destroyed n := by
  obtain ⟨d, hd, hne⟩ := h
  exact fun hdes => hne (hdes.idle d hd)

theorem call_grows (n : RunningUDP) (c : UdpCall) : n.session.deletions <+: (n.call c).session.deletions := by
  cases c with
  | stop =>
    simp only [call, stop_udp]
    split
    next => exact List.prefix_refl _
    next => exact List.prefix_append _ _
  | stopOther => exact List.prefix_refl _

theorem calls_grows (n : RunningUDP) (cs : List UdpCall) : n.session.deletions <+: (n.calls cs).session.deletions := by
  induction cs generalizing n with
  | nil => exact List.prefix_refl _
  | cons c cs ih => exact (n.call_grows c).trans (ih (n.call c))

theorem recv_deletions (s : SessionUDP) (fail : Option Nat) : (s.recv fail).1.deletions = s.deletions := by
  unfold SessionUDP.recv
  split
  next => rfl
  next =>
    cases fail with
    | none => rfl
    | some err => rfl

theorem afterRecv_deletions (n : RunningUDP) (fail : Option Nat) :
    (n.afterRecv fail).session.deletions = n.session.deletions := by
  unfold afterRecv
  split
  next => rfl
  next =>
    dsimp only
    split
    next => rfl
    next => exact recv_deletions _ fail

theorem onRecv_grows (n : RunningUDP) (cs : List UdpCall) (fail : Option Nat) :
    n.session.deletions <+: (n._on_recv cs fail).session.deletions := by
  unfold _on_recv
  dsimp only
  split
  next => exact List.prefix_append _ _
  next =>
    rw [afterRecv_deletions]
    exact calls_grows { n with session := { n.session with isReceiving := false } } cs

/-- Nothing takes a deletion back. -/
theorem step_grows {op : UdpOp} (hs : n.step op = some n') : n.session.deletions <+: n'.session.deletions := by
  cases op with
  | call c =>
    cases Option.some.inj hs
    exact n.call_grows c
  | recv cs fail =>
    simp only [step] at hs
    split at hs
    next =>
      cases Option.some.inj hs
      exact onRecv_grows { n with session := { n.session with
        recvs := n.session.recvs - 1
        running := n.session.running + 1 } } cs fail
    next => cases hs

theorem Early.exec {ops : List UdpOp} (h : Early n) (run : Machine.exec step n ops = some n') : Early n' := by
  refine Machine.exec_invariant (I := Early) (fun m op m' hm hs => ?_) h run
  obtain ⟨d, hd, hne⟩ := hm
  exact ⟨d, (step_grows hs).subset hd, hne⟩

theorem calls_without_stop {cs : List UdpCall} (hstop : UdpCall.stop ∉ cs) :
    ∃ iocp, n.calls cs = { n with iocp := iocp } := by
  induction cs generalizing n with
  | nil => exact ⟨n.iocp, rfl⟩
  | cons c cs ih =>
    simp only [List.mem_cons, not_or] at hstop
    cases c with
    | stop => exact absurd rfl hstop.1
    | stopOther => exact ih (n := { n with iocp := false }) hstop.2

/-- A handler that stops its own session has it deleted under itself. -/
theorem calls_stop {cs : List UdpCall} (hstop : UdpCall.stop ∈ cs) (hptr : n.pointer = true)
    (hrun : 0 < n.session.running) : Early (n.calls cs) := by
  induction cs generalizing n with
  | nil => cases hstop
  | cons c cs ih =>
    cases c with
    | stop =>
      refine ⟨⟨n.session.recvs, n.session.running⟩, ?_, ?_⟩
      · refine (calls_grows (n.call .stop) cs).subset ?_
        simp [call, stop_udp, hptr, SessionUDP.force_close, SessionUDP.on_close]
      · intro heq
        have hz : n.session.running = 0 := congrArg Deletion.running heq
        omega
    | stopOther =>
      refine ih (n := { n with iocp := false }) ?_ hptr hrun
      rcases List.mem_cons.mp hstop with heq | hin
      · cases heq
      · exact hin

theorem Clean.call_stop (h : Clean n) (idle : n.pointer = true → n.session.recvs = 0) : Clean n.stop_udp := by
  obtain ⟨hrun, hdangling, ⟨hptr, hnone, _⟩ | hgone⟩ := h
  · have hrecvs := idle hptr
    unfold stop_udp
    rw [hptr]
    refine ⟨hrun, hdangling, Or.inr ⟨rfl, ?_, hrecvs⟩⟩
    change n.session.deletions ++ [⟨n.session.recvs, n.session.running⟩] = [⟨0, 0⟩]
    rw [hnone, hrecvs, hrun]
    rfl
  · have hsame : n.stop_udp = n := by
      simp [stop_udp, hgone.1]
    rw [hsame]
    exact ⟨hrun, hdangling, Or.inr hgone⟩

/-- A completion finds the session there. -/
theorem Clean.completing (h : Clean n) (hpos : 0 < n.session.recvs) :
    n.session.running = 0 ∧ n.session.dangling = false ∧ n.pointer = true ∧ n.session.deletions = [] ∧
      n.session.forceClose = false := by
  obtain ⟨hrun, hdangling, hthere | ⟨_, _, hrecvs⟩⟩ := h
  · exact ⟨hrun, hdangling, hthere⟩
  · omega

theorem Clean.step {op : UdpOp} (h : Clean n) (idle : n.StoppedIdle op) (hs : n.step op = some n') : Clean n' := by
  cases op with
  | call c =>
    cases Option.some.inj hs
    cases c with
    | stop => exact h.call_stop idle
    | stopOther => exact h
  | recv cs fail =>
    simp only [RunningUDP.step] at hs
    split at hs
    next hguard =>
      cases Option.some.inj hs
      simp only [Bool.and_eq_true, decide_eq_true_eq] at hguard
      obtain ⟨hrun, hdangling, hptr, hnone, hopen⟩ := h.completing hguard.2
      unfold _on_recv
      dsimp only
      rw [if_neg (by simp [hopen])]
      obtain ⟨iocp, hcalls⟩ := calls_without_stop (n := { n with session := { n.session with
        recvs := n.session.recvs - 1
        running := n.session.running + 1
        isReceiving := false } }) idle
      rw [hcalls]
      unfold afterRecv
      rw [if_neg (by simp [SessionUDP.deleted, hnone])]
      dsimp only
      rw [if_neg (by simp [hopen])]
      unfold SessionUDP.recv
      rw [if_neg (by simp [hopen])]
      cases fail with
      | none => exact ⟨hrun, hdangling, Or.inl ⟨hptr, hnone, hopen⟩⟩
      | some err => exact ⟨hrun, hdangling, Or.inl ⟨hptr, hnone, hopen⟩⟩
    next => cases hs

theorem Clean.early {op : UdpOp} (h : Clean n) (busy : ¬n.StoppedIdle op) (hs : n.step op = some n') : Early n' := by
  cases op with
  | call c =>
    cases Option.some.inj hs
    cases c with
    | stop =>
      obtain ⟨hptr, hrecvs⟩ := Classical.not_imp.mp busy
      refine ⟨⟨n.session.recvs, n.session.running⟩, ?_, ?_⟩
      · simp [call, stop_udp, hptr, SessionUDP.force_close, SessionUDP.on_close]
      · intro heq
        exact hrecvs (congrArg Deletion.recvs heq)
    | stopOther => exact absurd trivial busy
  | recv cs fail =>
    simp only [RunningUDP.step] at hs
    split at hs
    next hguard =>
      cases Option.some.inj hs
      simp only [Bool.and_eq_true, decide_eq_true_eq] at hguard
      obtain ⟨_, _, hptr, _, hopen⟩ := h.completing hguard.2
      have hstop : UdpCall.stop ∈ cs := Classical.not_not.mp busy
      unfold _on_recv
      dsimp only
      rw [if_neg (by simp [hopen])]
      obtain ⟨d, hd, hne⟩ := calls_stop (n := { n with session := { n.session with
        recvs := n.session.recvs - 1
        running := n.session.running + 1
        isReceiving := false } }) hstop hptr (Nat.succ_pos _)
      refine ⟨d, ?_, hne⟩
      rw [← afterRecv_deletions _ fail] at hd
      exact hd
    next => cases hs

/-- From a clean state, the deletions of a run are right exactly when every stop is. -/
theorem Clean.exec {ops : List UdpOp} (h : Clean n) (run : Machine.exec RunningUDP.step n ops = some n') :
    Destroyed n' ↔ Machine.Along RunningUDP.step StoppedIdle n ops := by
  induction ops generalizing n with
  | nil =>
    cases Option.some.inj run
    exact ⟨fun _ => trivial, fun _ => h.destroyed⟩
  | cons op ops ih =>
    obtain ⟨mid, hs, run⟩ := Option.bind_eq_some_iff.mp run
    by_cases idle : n.StoppedIdle op
    · rw [ih (h.step idle hs) run]
      exact ⟨fun along => Machine.along_cons idle hs along, fun along => along.2 mid hs⟩
    · have hbad := ((h.early idle hs).exec run).not_destroyed
      exact ⟨fun hdes => absurd hdes hbad, fun along => absurd along.1 idle⟩

theorem run_udp_clean {iocp : Bool} {fail : Option Nat} (created : run_udp iocp fail = some n) : Clean n := by
  cases fail with
  | none =>
    cases Option.some.inj created
    exact ⟨rfl, rfl, Or.inl ⟨rfl, rfl, rfl⟩⟩
  | some err => cases created

/-- A session is deleted as it should be in exactly the runs that stop it while it is idle. -/
theorem destroyed_iff_stopped_idle {iocp : Bool} {fail : Option Nat} {start : RunningUDP} {ops : List UdpOp}
    (created : run_udp iocp fail = some start) (run : Machine.exec step start ops = some n) :
    Destroyed n ↔ Machine.Along step StoppedIdle start ops := (run_udp_clean created).exec run

/-- The second `WSARecvFrom` fails at once, and the session is stopped after that. -/
theorem destroyed_idle_sample : ∃ start n, run_udp true none = some start ∧
    Machine.exec step start [.recv [] none, .recv [.stopOther] (some 6), .call .stop, .call .stop] = some n ∧
      n.session.deletions = [⟨0, 0⟩] ∧ Destroyed n := by
  have created : run_udp true none = some ⟨⟨true, false, 1, 0, [], false⟩, true, true⟩ := rfl
  have run : Machine.exec step ⟨⟨true, false, 1, 0, [], false⟩, true, true⟩
      [.recv [] none, .recv [.stopOther] (some 6), .call .stop, .call .stop] =
        some ⟨⟨false, true, 0, 0, [⟨0, 0⟩], false⟩, false, false⟩ := rfl
  exact ⟨_, _, created, run, rfl, (destroyed_iff_stopped_idle created run).mpr (by decide)⟩

/-- Stopped while a `WSARecvFrom` is outstanding, and stopped from within `on_recv`. -/
theorem stop_udp_destroys_early :
    (∃ start n, run_udp true none = some start ∧ Machine.exec step start [.call .stop] = some n ∧
      n.session.deletions = [⟨1, 0⟩] ∧ ¬Destroyed n) ∧
    ∃ start n, run_udp true none = some start ∧ Machine.exec step start [.recv [.stop] none] = some n ∧
      n.session.deletions = [⟨0, 1⟩] ∧ n.session.dangling = true ∧ ¬Destroyed n := by
  refine ⟨⟨_, _, rfl, rfl, rfl, ?_⟩, ⟨_, _, rfl, rfl, rfl, rfl, ?_⟩⟩
  · intro h
    cases h.idle ⟨1, 0⟩ (List.mem_singleton.mpr rfl)
  · intro h
    cases h.idle ⟨0, 1⟩ (List.mem_singleton.mpr rfl)

end RunningUDP

end Ven
