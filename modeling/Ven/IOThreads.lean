import Ven.AcceptFailures

namespace Ven

open Threads

/-- Where an `IOThread` stands in `run`: in `iocp_.get`, in an `on_event`, or out of the loop. -/
inductive IOThreadPC
  | get
  | onEvent
  | ended
deriving DecidableEq

/-- Where `Server::stop` stands. Before it is called and while `acpt_.uninit` runs it is at `acceptor`; the rest is
`spool_.uninit`. -/
inductive StopPC
  | acceptor
  | disconnect
  | wait
  | delete
  | returned
deriving DecidableEq

/-- A server that listens, the completion port of its `Net`, and the threads. `handle` tells that the port is open;
the thread that called `listen` is no `IOThread`. -/
structure IOThreads (n : Nat) where
  handle : Bool
  acceptor : Acceptor n
  io : Fin n → Option IOThreadPC
  stopPC : StopPC
  deleted : List Nat

/-- `accepted`, `session` and `last` are what `get` can return: the completion of an `AcceptEx`, one of a session, or
the one after which session `i` is given back. `teardown` is that of a session in the thread that stops the server. -/
inductive IOOp (n : Nat)
  | accepted (t : Fin n) (aov i err : Nat)
  | session (t : Fin n)
  | last (t : Fin n) (i : Nat)
  | disconnected (t : Fin n) (i : Nat)
  | resume (t : Fin n) (pends : Bool)
  | back (t : Fin n)
  | fail (t : Fin n)
  | stop
  | teardown (i : Nat)
  | close
deriving DecidableEq

/-- `disconnected` in `spool_.uninit`, which holds the lock of the pool; `accept_all` finds `is_release_` set. -/
def Acceptor.tearDown {n : Nat} (s : Acceptor n) (i : Nat) : Acceptor n :=
  { s with connectedCnt := pred32 s.connectedCnt, spool := s.spool.push i, accepted := s.accepted.erase i }

namespace IOThreads

variable {n : Nat}

/-- `listen` has come to its `accept_all`, and the other threads are in `get`. -/
def start (listener : Fin n) (acceptCnt preCnt incCnt maxCnt : Nat) : IOThreads n where
  handle := true
  acceptor := Acceptor.start listener acceptCnt preCnt incCnt maxCnt
  io := Function.update (fun _ => some .get) listener none
  stopPC := .acceptor
  deleted := []

def turn (s : IOThreads n) (t : Fin n) (pc : IOThreadPC) : IOThreads n :=
  { s with io := Function.update s.io t (some pc) }

def withAcceptor (s : IOThreads n) (a : Acceptor n) : IOThreads n := { s with acceptor := a }

/-- `Server::stop`; a session with something outstanding is given back with its completions. -/
def stop (s : IOThreads n) : Option (IOThreads n) :=
  match s.stopPC with
  | .acceptor =>
    if s.acceptor.uninit = .left then some { s with stopPC := .disconnect } else s.acceptor.stop.map s.withAcceptor
  | .disconnect => some { s with stopPC := .wait }
  | .wait =>
    some { s with stopPC := if s.acceptor.spool.totalCnt = s.acceptor.spool.free.length then .delete else .wait }
  | .delete =>
    some { s with
      acceptor := { s.acceptor with spool := { s.acceptor.spool with free := [] } }
      deleted := s.acceptor.spool.free
      stopPC := .returned }
  | .returned => none

/-- One atomic step. With the handle closed `GetQueuedCompletionStatus` fails without an operation. -/
def step (s : IOThreads n) : IOOp n → Option (IOThreads n)
  | .accepted t aov i err =>
    if s.handle ∧ s.io t = some .get then
      (s.acceptor.step (.complete t aov i err)).map (s.turn t .onEvent).withAcceptor
    else none
  | .session t => if s.handle ∧ s.io t = some .get then some (s.turn t .onEvent) else none
  | .last t i =>
    if s.handle ∧ s.io t = some .get then
      (s.acceptor.step (.disconnected t i)).map (s.turn t .onEvent).withAcceptor
    else none
  | .disconnected t i =>
    if s.io t = none ∨ s.io t = some .onEvent then (s.acceptor.step (.disconnected t i)).map s.withAcceptor else none
  | .resume t pends =>
    if s.io t = none ∨ s.io t = some .onEvent then (s.acceptor.step (.resume t pends)).map s.withAcceptor else none
  | .back t => if s.io t = some .onEvent ∧ s.acceptor.thread t = ⟨none, .idle⟩ then some (s.turn t .get) else none
  | .fail t => if s.handle = false ∧ s.io t = some .get then some (s.turn t .ended) else none
  | .stop => s.stop
  | .teardown i =>
    if s.stopPC = .disconnect ∧ i ∈ s.acceptor.accepted then some (s.withAcceptor (s.acceptor.tearDown i)) else none
  | .close => some { s with handle := false }

/-- No `AcceptEx` fails at once. -/
def Pends (s : IOThreads n) : IOOp n → Prop
  | .resume t pends => s.acceptor.Pends (.resume t pends)
  | _ => True

instance (s : IOThreads n) : (op : IOOp n) → Decidable (s.Pends op)
  | .resume t pends => inferInstanceAs (Decidable (s.acceptor.Pends (.resume t pends)))
  | .accepted _ _ _ _ => isTrue trivial
  | .session _ => isTrue trivial
  | .last _ _ => isTrue trivial
  | .disconnected _ _ => isTrue trivial
  | .back _ => isTrue trivial
  | .fail _ => isTrue trivial
  | .stop => isTrue trivial
  | .teardown _ => isTrue trivial
  | .close => isTrue trivial

/-- `stop` is not past the loop that waits for the sessions. -/
def Waiting (s : IOThreads n) : Prop := s.stopPC = .acceptor ∨ s.stopPC = .disconnect ∨ s.stopPC = .wait

/-- What a step can do. -/
inductive Move (s : IOThreads n) : IOOp n → IOThreads n → Prop
  | accepted {t : Fin n} {aov i err : Nat} {a : Acceptor n} (opened : s.handle = true) (get : s.io t = some .get)
      (event : s.acceptor.step (.complete t aov i err) = some a) :
      Move s (.accepted t aov i err) ((s.turn t .onEvent).withAcceptor a)
  | session {t : Fin n} (opened : s.handle = true) (get : s.io t = some .get) : Move s (.session t) (s.turn t .onEvent)
  | last {t : Fin n} {i : Nat} {a : Acceptor n} (opened : s.handle = true) (get : s.io t = some .get)
      (event : s.acceptor.step (.disconnected t i) = some a) : Move s (.last t i) ((s.turn t .onEvent).withAcceptor a)
  | disconnected {t : Fin n} {i : Nat} {a : Acceptor n} (on : s.io t = none ∨ s.io t = some .onEvent)
      (call : s.acceptor.step (.disconnected t i) = some a) : Move s (.disconnected t i) (s.withAcceptor a)
  | resume {t : Fin n} {pends : Bool} {a : Acceptor n} (on : s.io t = none ∨ s.io t = some .onEvent)
      (turn : s.acceptor.step (.resume t pends) = some a) : Move s (.resume t pends) (s.withAcceptor a)
  | back {t : Fin n} (on : s.io t = some .onEvent) (idle : s.acceptor.thread t = ⟨none, .idle⟩) :
      Move s (.back t) (s.turn t .get)
  | fail {t : Fin n} (closed : s.handle = false) (get : s.io t = some .get) : Move s (.fail t) (s.turn t .ended)
  | uninit {a : Acceptor n} (pc : s.stopPC = .acceptor) (busy : s.acceptor.uninit ≠ .left) (stop : s.acceptor.stop = some a) :
      Move s .stop (s.withAcceptor a)
  | left (pc : s.stopPC = .acceptor) (left : s.acceptor.uninit = .left) : Move s .stop { s with stopPC := .disconnect }
  | disconnect (pc : s.stopPC = .disconnect) : Move s .stop { s with stopPC := .wait }
  | spin (pc : s.stopPC = .wait) (used : s.acceptor.spool.totalCnt ≠ s.acceptor.spool.free.length) : Move s .stop s
  | free (pc : s.stopPC = .wait) (free : s.acceptor.spool.totalCnt = s.acceptor.spool.free.length) :
      Move s .stop { s with stopPC := .delete }
  | delete (pc : s.stopPC = .delete) :
      Move s .stop { s with
        acceptor := { s.acceptor with spool := { s.acceptor.spool with free := [] } }
        deleted := s.acceptor.spool.free
        stopPC := .returned }
  | teardown {i : Nat} (pc : s.stopPC = .disconnect) (out : i ∈ s.acceptor.accepted) :
      Move s (.teardown i) (s.withAcceptor (s.acceptor.tearDown i))
  | close : Move s .close { s with handle := false }

variable {s s' : IOThreads n} {op : IOOp n}

theorem Move.of_stop (hs : s.stop = some s') : Move s .stop s' := by
  unfold stop at hs
  split at hs
  next hpc =>
    split at hs
    next hleft =>
      cases Option.some.inj hs
      exact .left hpc hleft
    next hbusy =>
      obtain ⟨a, ha, rfl⟩ := Option.map_eq_some_iff.mp hs
      exact .uninit hpc hbusy ha
  next hpc =>
    cases Option.some.inj hs
    exact .disconnect hpc
  next hpc =>
    cases Option.some.inj hs
    split
    next hfree => exact .free hpc hfree
    next hused =>
      rw [← hpc]
      exact .spin hpc hused
  next hpc =>
    cases Option.some.inj hs
    exact .delete hpc
  next => cases hs

theorem Move.of_step (hs : s.step op = some s') : Move s op s' := by
  cases op with
  | accepted t aov i err =>
    simp only [step] at hs
    split at hs
    next h =>
      obtain ⟨a, ha, rfl⟩ := Option.map_eq_some_iff.mp hs
      exact .accepted h.1 h.2 ha
    next => cases hs
  | session t =>
    simp only [step] at hs
    split at hs
    next h =>
      cases Option.some.inj hs
      exact .session h.1 h.2
    next => cases hs
  | last t i =>
    simp only [step] at hs
    split at hs
    next h =>
      obtain ⟨a, ha, rfl⟩ := Option.map_eq_some_iff.mp hs
      exact .last h.1 h.2 ha
    next => cases hs
  | disconnected t i =>
    simp only [step] at hs
    split at hs
    next h =>
      obtain ⟨a, ha, rfl⟩ := Option.map_eq_some_iff.mp hs
      exact .disconnected h ha
    next => cases hs
  | resume t pends =>
    simp only [step] at hs
    split at hs
    next h =>
      obtain ⟨a, ha, rfl⟩ := Option.map_eq_some_iff.mp hs
      exact .resume h ha
    next => cases hs
  | back t =>
    simp only [step] at hs
    split at hs
    next h =>
      cases Option.some.inj hs
      exact .back h.1 h.2
    next => cases hs
  | fail t =>
    simp only [step] at hs
    split at hs
    next h =>
      cases Option.some.inj hs
      exact .fail h.1 h.2
    next => cases hs
  | stop => exact .of_stop hs
  | teardown i =>
    simp only [step] at hs
    split at hs
    next h =>
      cases Option.some.inj hs
      exact .teardown h.1 h.2
    next => cases hs
  | close =>
    cases Option.some.inj hs
    exact .close

/-- What an `AcceptEx` that fails at once costs. -/
def losses (s : IOThreads n) : IOOp n → Nat
  | .resume t pends => s.acceptor.losses (.resume t pends)
  | _ => 0

theorem losses_eq_zero (s : IOThreads n) (op : IOOp n) : s.losses op = 0 ↔ s.Pends op := by
  cases op with
  | resume t pends => exact s.acceptor.losses_eq_zero (.resume t pends)
  | _ => exact ⟨fun _ => trivial, fun _ => rfl⟩

/-- While `stop` has not found all sessions free, `k` slots and sessions are nowhere any more. -/
def Lost (acceptCnt : Nat) (s : IOThreads n) (k : Nat) : Prop := s.Waiting → s.acceptor.Spent acceptCnt k

variable {acceptCnt k : Nat}

theorem Move.waiting (m : Move s op s') (h : s'.Waiting) : s.Waiting := by
  cases m with
  | uninit pc => exact Or.inl pc
  | left pc => exact Or.inl pc
  | disconnect pc => exact Or.inr (Or.inl pc)
  | free pc => exact Or.inr (Or.inr pc)
  | delete => rcases h with h | h | h <;> cases h
  | _ => exact h

/-- A session that the stopping thread gives back. -/
theorem spent_tearDown {a : Acceptor n} (h : a.Spent acceptCnt k) {i : Nat} (out : i ∈ a.accepted) :
    (a.tearDown i).Spent acceptCnt k := by
  refine ⟨h.slots, ?_⟩
  have hsessions := h.sessions
  have hlen := List.length_erase_of_mem out
  have hpos := List.length_pos_of_mem out
  unfold Acceptor.sessionCnt at hsessions ⊢
  simp only [Acceptor.tearDown, SessionPool.push, List.length_cons]
  omega

theorem Lost.step (h : Lost acceptCnt s k) (hs : s.step op = some s') : Lost acceptCnt s' (k + s.losses op) := by
  intro hwaiting
  have m := Move.of_step hs
  have hspent := h (m.waiting hwaiting)
  cases m with
  | accepted _ _ event => exact hspent.step event
  | last _ _ event => exact hspent.step event
  | disconnected _ call => exact hspent.step call
  | resume _ turn => exact hspent.step turn
  | uninit _ _ stop => exact hspent.stop stop
  | teardown _ out => exact spent_tearDown hspent out
  | delete => rcases hwaiting with h | h | h <;> cases h
  | _ => exact hspent

theorem exec_lost {listener : Fin n} {preCnt incCnt maxCnt : Nat} {ops : List (IOOp n)}
    (run : Machine.exec step (start listener acceptCnt preCnt incCnt maxCnt) ops = some s) :
    Lost acceptCnt s (Machine.tally step losses (start listener acceptCnt preCnt incCnt maxCnt) ops) := by
  have hlost := Machine.exec_tally (R := Lost acceptCnt) (fun s k op s' h hs => h.step hs)
    (fun _ => Acceptor.spent_start listener acceptCnt preCnt incCnt maxCnt) run
  rw [Nat.zero_add] at hlost
  exact hlost

end IOThreads

namespace Acceptor

variable {n : Nat} {s s' : Acceptor n}

theorem resumePC_flying {t : Fin n} {event : Option (Nat × EventPC)} {pc : AcceptPC} {pends : Bool}
    (hs : s.resumePC t event pends pc = some s') : s.flying.length ≤ s'.flying.length := by
  cases pc with
  | idle => cases hs
  | popSlot all =>
    rcases popSlot_cases hs with ⟨_, rfl⟩ | ⟨_, _, _, rfl⟩
    · exact Nat.le_refl _
    · exact Nat.le_refl _
  | popSession all aov =>
    rcases popSession_cases hs with ⟨_, rfl⟩ | ⟨_, _, _, rfl⟩
    · exact Nat.le_refl _
    · exact Nat.le_refl _
  | acceptex all aov i =>
    rcases acceptex_cases hs with ⟨_, _, rfl⟩ | ⟨_, rfl⟩
    · exact Nat.le_succ _
    · exact Nat.le_refl _
  | _ =>
    cases Option.some.inj hs
    exact Nat.le_refl _

theorem stop_flying (hs : s.stop = some s') : s'.flying = s.flying := by
  cases stop_cases hs <;> rfl

/-- Only its completion ends an `AcceptEx`. -/
theorem step_flying {op : AcceptOp n} (hs : s.step op = some s') (hop : ∀ t aov i err, op ≠ .complete t aov i err) :
    s.flying.length ≤ s'.flying.length := by
  cases op with
  | acceptAll t =>
    obtain ⟨_, rfl⟩ := step_acceptAll hs
    exact Nat.le_refl _
  | accept t =>
    obtain ⟨_, rfl⟩ := step_accept hs
    exact Nat.le_refl _
  | disconnected t i =>
    obtain ⟨_, _, rfl⟩ := step_disconnected hs
    exact Nat.le_refl _
  | complete t aov i err => exact absurd rfl (hop t aov i err)
  | resume t pends =>
    rcases step_resume hs with ⟨aov, e, _, rfl⟩ | ⟨_, hpc⟩
    · cases e <;> exact Nat.le_refl _
    · exact resumePC_flying hpc
  | uninit => exact Nat.le_of_eq (congrArg List.length (stop_flying hs).symm)

end Acceptor

namespace IOThreads

variable {n acceptCnt : Nat} {s s' : IOThreads n} {op : IOOp n}

/-- A session is missing for good: an `AcceptEx` has failed at once, or one is outstanding and nobody will see its
completion. -/
structure Doomed (acceptCnt : Nat) (s : IOThreads n) : Prop where
  waiting : s.Waiting
  missing : ∃ k, s.acceptor.Spent acceptCnt k ∧ (0 < k ∨ s.handle = false ∧ 0 < s.acceptor.flying.length)

theorem Doomed.step (h : Doomed acceptCnt s) (hs : s.step op = some s') : Doomed acceptCnt s' := by
  obtain ⟨k, hspent, hmissing⟩ := h.missing
  have m := Move.of_step hs
  have hbefore : Lost acceptCnt s k := fun _ => hspent
  have hlost := hbefore.step hs
  have hwaiting : s'.Waiting := by
    cases m with
    | free _ free =>
      have hcnt := hspent.sessions
      unfold Acceptor.sessionCnt at hcnt
      omega
    | delete pc =>
      have hw := h.waiting
      unfold Waiting at hw
      rw [pc] at hw
      rcases hw with hw | hw | hw <;> cases hw
    | left => exact Or.inr (Or.inl rfl)
    | disconnect => exact Or.inr (Or.inr rfl)
    | _ => exact h.waiting
  refine ⟨hwaiting, _, hlost hwaiting, hmissing.imp (Nat.lt_add_right _) fun hport => ?_⟩
  cases m with
  | accepted opened => exact absurd (hport.1.symm.trans opened) Bool.false_ne_true
  | last opened => exact absurd (hport.1.symm.trans opened) Bool.false_ne_true
  | disconnected _ call => exact ⟨hport.1, Nat.lt_of_lt_of_le hport.2 (Acceptor.step_flying call (by intro t aov i err he; cases he))⟩
  | resume _ turn => exact ⟨hport.1, Nat.lt_of_lt_of_le hport.2 (Acceptor.step_flying turn (by intro t aov i err he; cases he))⟩
  | uninit _ _ stop => exact ⟨hport.1, by rw [withAcceptor, Acceptor.stop_flying stop]; exact hport.2⟩
  | close => exact ⟨rfl, hport.2⟩
  | _ => exact hport

/-- Once an `AcceptEx` has failed at once, or the port was closed while one is outstanding, `stop` does not return,
whatever the threads do. -/
theorem stop_never_returns {listener : Fin n} {preCnt incCnt maxCnt : Nat} {ops : List (IOOp n)}
    (run : Machine.exec step (start listener acceptCnt preCnt incCnt maxCnt) ops = some s) (waiting : s.Waiting)
    (lost : ¬Machine.Along step Pends (start listener acceptCnt preCnt incCnt maxCnt) ops ∨
      s.handle = false ∧ s.acceptor.flying ≠ []) {later : List (IOOp n)} (run' : Machine.exec step s later = some s') :
    s'.Waiting := by
  have hspent := exec_lost run waiting
  have hdoomed : Doomed acceptCnt s := ⟨waiting, _, hspent, by
    rcases lost with hfails | hport
    · exact Or.inl (Nat.pos_of_ne_zero fun hz => hfails ((Machine.tally_eq_zero losses_eq_zero).mp hz))
    · exact Or.inr ⟨hport.1, List.length_pos_of_ne_nil hport.2⟩⟩
  exact (Machine.exec_invariant (I := Doomed acceptCnt) (fun s op s' h hs => h.step hs) hdoomed run').waiting

/-- The port is closed while the only `AcceptEx` is outstanding, and then the server is stopped. -/
def orphaned (t : Fin n) : List (IOOp n) := List.replicate 8 (.resume t true) ++ [.close, .stop, .stop]

theorem stop_never_returns_sample :
    ∃ s s', Machine.exec step (start (0 : Fin 2) 1 1 0 1) (orphaned 0) = some s ∧
      Machine.exec step s [.fail 1, .stop, .stop] = some s' ∧ s'.Waiting := by
  have run : (Machine.exec step (start (0 : Fin 2) 1 1 0 1) (orphaned 0)).map
      (fun s => (s.stopPC, s.handle, s.acceptor.flying, (Machine.exec step s [.fail 1, .stop, .stop]).isSome)) =
      some (.acceptor, false, [(0, 0)], true) := by decide +kernel
  obtain ⟨s, run, hs⟩ := Option.map_eq_some_iff.mp run
  simp only [Prod.mk.injEq] at hs
  obtain ⟨hpc, hport, hflying, hlater⟩ := hs
  obtain ⟨s', hlater⟩ := Option.isSome_iff_exists.mp hlater
  refine ⟨s, s', run, hlater, stop_never_returns run (Or.inl hpc) (Or.inr ⟨hport, ?_⟩) hlater⟩
  rw [hflying]
  exact List.cons_ne_nil _ _

end IOThreads

end Ven
