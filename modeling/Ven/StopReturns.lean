import Ven.AcceptShutdown
import Ven.IOThreads

namespace Ven

open Threads

/-- More than the steps from here to the end of the call, in a server that is released. -/
def AcceptPC.ahead : AcceptPC → Nat
  | .idle => 0
  | .accept _ => 1
  | .putBack _ => 2
  | .look => 2
  | .acceptAll => 3
  | .count _ _ => 3
  | .giveBack _ => 4
  | .disconnected _ => 5
  | .acceptex _ _ _ => 19
  | .popSession _ _ => 20
  | .popSlot _ => 21

def EventPC.ahead : EventPC → Nat
  | .pushSlot => 3
  | .uncount => 4
  | .callback => 5
  | .report => 6
  | .failed _ => 7
  | .succeeded _ => 13

def UninitPC.ahead : UninitPC → Nat
  | .outside => 8
  | .close => 7
  | .wait => 6
  | .drain => 5
  | .left => 4

def IOThreadPC.ahead : IOThreadPC → Nat
  | .ended => 0
  | .get => 1
  | .onEvent => 2

def AcceptThread.ahead (th : AcceptThread) : Nat := (th.event.elim 0 fun e => e.2.ahead) + th.pc.ahead

namespace Acceptor

variable {n : Nat} {s s' : Acceptor n}

/-- What the threads have left, with what each slot, each `AcceptEx` and each session can still bring. -/
def ahead (s : Acceptor n) : Nat :=
  s.apool.length + 15 * s.flying.length + 7 * s.accepted.length + total AcceptThread.ahead s.thread

/-- `accepting_cnt_` counts the `AcceptEx`s on their way, as far as 32 bits and a late `accepting_cnt_++` allow. -/
structure Counted (s : Acceptor n) : Prop where
  bound : s.acceptingCnt < 4294967296
  counter : (s.acceptingCnt + total (fun th => held th.pc.counts) s.thread) % 4294967296 =
    (s.flying.length + total (fun th => held th.awaited) s.thread) % 4294967296

/-- A step of one thread, and what it leaves alone. -/
structure Moved (s s' : Acceptor n) (t : Fin n) (th : AcceptThread) : Prop where
  thread : s'.thread = Function.update s.thread t th
  uninit : s'.uninit = s.uninit
  isRelease : s'.isRelease = s.isRelease

theorem Moved.counted {t : Fin n} {th : AcceptThread} (m : Moved s s' t th) (h : Counted s)
    (bound : s'.acceptingCnt < 4294967296)
    (counter : (s'.acceptingCnt + held th.pc.counts + s.flying.length + held (s.thread t).awaited) % 4294967296 =
      (s.acceptingCnt + held (s.thread t).pc.counts + s'.flying.length + held th.awaited) % 4294967296) : Counted s' := by
  have hcounts := total_update (fun th => held th.pc.counts) s.thread t th
  have hawaited := total_update (fun th => held th.awaited) s.thread t th
  rw [← m.thread] at hcounts hawaited
  obtain ⟨_, hcounter⟩ := h
  exact ⟨bound, by omega⟩

theorem Moved.ahead_le {t : Fin n} {th : AcceptThread} (m : Moved s s' t th) (w : Nat)
    (h : s'.apool.length + 15 * s'.flying.length + 7 * s'.accepted.length + th.ahead + w ≤
      s.apool.length + 15 * s.flying.length + 7 * s.accepted.length + (s.thread t).ahead) : s'.ahead + w ≤ s.ahead := by
  have hahead := total_update AcceptThread.ahead s.thread t th
  rw [← m.thread] at hahead
  unfold Acceptor.ahead
  omega

/-- What a step of a thread leaves alone, and what it brings nearer. -/
structure Turned (s s' : Acceptor n) (t : Fin n) (w : Nat) : Prop where
  moved : ∃ th, Moved s s' t th
  counted : Counted s → Counted s'
  ahead : s.isRelease = true → s'.ahead + w ≤ s.ahead

theorem turned_resumePC {t : Fin n} {event : Option (Nat × EventPC)} {pc : AcceptPC} {pends : Bool}
    (hth : s.thread t = ⟨event, pc⟩) (hs : s.resumePC t event pends pc = some s') : Turned s s' t 1 := by
  -- a step that only moves on in the code
  have goes : ∀ (pc' : AcceptPC), held pc'.counts = held pc.counts → (s.isRelease = true → pc'.ahead + 1 ≤ pc.ahead) →
      Turned s (s.move t ⟨event, pc'⟩) t 1 := by
    intro pc' hcounts hahead
    have hm : Moved s (s.move t ⟨event, pc'⟩) t ⟨event, pc'⟩ := ⟨rfl, rfl, rfl⟩
    refine ⟨⟨_, hm⟩, fun h => hm.counted h h.bound ?_, fun hr => hm.ahead_le 1 ?_⟩
    · rw [hth]
      dsimp only
      rw [hcounts]
      rfl
    · have hlt := hahead hr
      rw [hth]
      simp only [AcceptThread.ahead, move]
      omega
  cases pc with
  | idle => cases hs
  | disconnected i =>
    cases Option.some.inj hs
    have hm : Moved s { s.move t ⟨event, .giveBack i⟩ with connectedCnt := pred32 s.connectedCnt } t ⟨event, .giveBack i⟩ :=
      ⟨rfl, rfl, rfl⟩
    exact ⟨⟨_, hm⟩, fun h => hm.counted h h.bound (by rw [hth]; rfl), fun _ => hm.ahead_le 1 (by rw [hth]; exact Nat.le_refl _)⟩
  | giveBack i =>
    cases Option.some.inj hs
    have hm : Moved s { s.move t ⟨event, .acceptAll⟩ with spool := s.spool.push i } t ⟨event, .acceptAll⟩ := ⟨rfl, rfl, rfl⟩
    exact ⟨⟨_, hm⟩, fun h => hm.counted h h.bound (by rw [hth]; rfl), fun _ => hm.ahead_le 1 (by rw [hth]; exact Nat.le_refl _)⟩
  | acceptAll =>
    cases Option.some.inj hs
    exact goes _ (by split <;> rfl) fun hr => by rw [if_pos hr]; decide
  | look =>
    cases Option.some.inj hs
    exact goes _ (by split <;> rfl) fun _ => by split <;> decide
  | accept all =>
    cases Option.some.inj hs
    exact goes _ (by split <;> rfl) fun hr => by rw [if_pos hr]; exact Nat.le_refl _
  | popSlot all =>
    rcases popSlot_cases hs with ⟨_, rfl⟩ | ⟨aov, apool, hpool, rfl⟩
    · exact goes _ rfl fun _ => by change 0 + 1 ≤ 21; decide
    · have hm : Moved s { s.move t ⟨event, .popSession all aov⟩ with apool := apool } t ⟨event, .popSession all aov⟩ :=
        ⟨rfl, rfl, rfl⟩
      refine ⟨⟨_, hm⟩, fun h => hm.counted h h.bound (by rw [hth]; rfl), fun _ => hm.ahead_le 1 ?_⟩
      rw [hth, hpool, List.length_cons]
      simp only [move, AcceptThread.ahead, AcceptPC.ahead]
      omega
  | popSession all aov =>
    rcases popSession_cases hs with ⟨_, rfl⟩ | ⟨i, spool, hpop, rfl⟩
    · exact goes _ rfl fun _ => by change 2 + 1 ≤ 20; decide
    · have hm : Moved s { s.move t ⟨event, .acceptex all aov i⟩ with spool := spool } t ⟨event, .acceptex all aov i⟩ :=
        ⟨rfl, rfl, rfl⟩
      exact ⟨⟨_, hm⟩, fun h => hm.counted h h.bound (by rw [hth]; rfl),
        fun _ => hm.ahead_le 1 (by rw [hth]; exact Nat.le_refl _)⟩
  | putBack aov =>
    cases Option.some.inj hs
    have hm : Moved s { s.move t ⟨event, .idle⟩ with apool := aov :: s.apool } t ⟨event, .idle⟩ := ⟨rfl, rfl, rfl⟩
    refine ⟨⟨_, hm⟩, fun h => hm.counted h h.bound (by rw [hth]; rfl), fun _ => hm.ahead_le 1 ?_⟩
    rw [hth, List.length_cons]
    simp only [move, AcceptThread.ahead, AcceptPC.ahead]
    omega
  | acceptex all aov i =>
    rcases acceptex_cases hs with ⟨rfl, _, rfl⟩ | ⟨rfl, rfl⟩
    · have hm : Moved s { s.move t ⟨event, .count all aov⟩ with flying := (aov, i) :: s.flying } t ⟨event, .count all aov⟩ :=
        ⟨rfl, rfl, rfl⟩
      refine ⟨⟨_, hm⟩, fun h => hm.counted h h.bound ?_, fun _ => hm.ahead_le 1 ?_⟩
      · rw [hth, List.length_cons]
        simp only [move, AcceptPC.counts, held_none, held_some, AcceptThread.awaited]
        omega
      · rw [hth, List.length_cons]
        simp only [move, AcceptThread.ahead, AcceptPC.ahead]
        omega
    · exact goes _ rfl fun _ => by change 0 + 1 ≤ 19; decide
  | count all aov =>
    cases Option.some.inj hs
    have hm : Moved s { s.move t ⟨event, if all then .look else .idle⟩ with acceptingCnt := add32 s.acceptingCnt 1 } t
        ⟨event, if all then .look else .idle⟩ := ⟨rfl, rfl, rfl⟩
    refine ⟨⟨_, hm⟩, fun h => hm.counted h (add32_lt _ _) ?_, fun _ => hm.ahead_le 1 ?_⟩
    · have hcounts : held (if all = true then AcceptPC.look else AcceptPC.idle).counts = 0 := by split <;> rfl
      rw [hth, hcounts]
      simp only [move, add32_eq, AcceptPC.counts, held_some, AcceptThread.awaited]
      omega
    · have hahead : AcceptPC.ahead (if all then .look else .idle) ≤ 2 := by split <;> decide
      rw [hth]
      simp only [move, AcceptThread.ahead, AcceptPC.ahead] at hahead ⊢
      omega

theorem turned_resumeEvent {t : Fin n} {aov : Nat} {e : EventPC} (hth : s.thread t = ⟨some (aov, e), .idle⟩) :
    Turned s (s.resumeEvent t aov e) t 1 := by
  cases e with
  | failed i =>
    have hm : Moved s (s.resumeEvent t aov (.failed i)) t ⟨some (aov, .report), .idle⟩ := ⟨rfl, rfl, rfl⟩
    exact ⟨⟨_, hm⟩, fun h => hm.counted h h.bound (by rw [hth]; rfl), fun _ => hm.ahead_le 1 (by rw [hth]; exact Nat.le_refl _)⟩
  | report =>
    have hm : Moved s (s.resumeEvent t aov .report) t ⟨some (aov, if s.isRelease then .uncount else .callback), .idle⟩ :=
      ⟨rfl, rfl, rfl⟩
    refine ⟨⟨_, hm⟩, fun h => hm.counted h h.bound ?_, fun hr => hm.ahead_le 1 ?_⟩
    · rw [hth]
      split <;> rfl
    · rw [hth, if_pos hr]
      simp only [resumeEvent, move, AcceptThread.ahead, Option.elim_some, EventPC.ahead, AcceptPC.ahead]
      omega
  | succeeded i =>
    have hm : Moved s (s.resumeEvent t aov (.succeeded i)) t ⟨some (aov, .callback), .idle⟩ := ⟨rfl, rfl, rfl⟩
    refine ⟨⟨_, hm⟩, fun h => hm.counted h h.bound (by rw [hth]; rfl), fun _ => hm.ahead_le 1 ?_⟩
    rw [hth]
    simp only [resumeEvent, move, AcceptThread.ahead, Option.elim_some, EventPC.ahead, AcceptPC.ahead, List.length_cons]
    omega
  | callback =>
    have hm : Moved s (s.resumeEvent t aov .callback) t ⟨some (aov, .uncount), .idle⟩ := ⟨rfl, rfl, rfl⟩
    exact ⟨⟨_, hm⟩, fun h => hm.counted h h.bound (by rw [hth]; rfl), fun _ => hm.ahead_le 1 (by rw [hth]; exact Nat.le_refl _)⟩
  | uncount =>
    have hm : Moved s (s.resumeEvent t aov .uncount) t ⟨some (aov, .pushSlot), .idle⟩ := ⟨rfl, rfl, rfl⟩
    have hpred : s.acceptingCnt < 4294967296 → pred32 s.acceptingCnt < 4294967296 ∧
        (pred32 s.acceptingCnt + 1) % 4294967296 = s.acceptingCnt := by
      intro hbound
      unfold pred32
      split
      next hz => exact ⟨by decide, by rw [hz]⟩
      next hne => omega
    refine ⟨⟨_, hm⟩, fun h => hm.counted h (hpred h.bound).1 ?_, fun _ => hm.ahead_le 1 (by rw [hth]; exact Nat.le_refl _)⟩
    have hback := (hpred h.bound).2
    rw [hth]
    simp only [resumeEvent, move, AcceptThread.awaited, AcceptPC.counts, held_none, held_some]
    omega
  | pushSlot =>
    have hm : Moved s (s.resumeEvent t aov .pushSlot) t ⟨none, .accept false⟩ := ⟨rfl, rfl, rfl⟩
    refine ⟨⟨_, hm⟩, fun h => hm.counted h h.bound (by rw [hth]; rfl), fun _ => hm.ahead_le 1 ?_⟩
    rw [hth]
    simp only [resumeEvent, move, AcceptThread.ahead, Option.elim_some, Option.elim_none, EventPC.ahead, AcceptPC.ahead,
      List.length_cons]
    omega

theorem turned_resume {t : Fin n} {pends : Bool} (hs : s.step (.resume t pends) = some s') : Turned s s' t 1 := by
  rcases step_resume hs with ⟨aov, e, hth, rfl⟩ | ⟨_, hpc⟩
  · exact turned_resumeEvent hth
  · exact turned_resumePC rfl hpc

theorem turned_disconnected {t : Fin n} {i : Nat} (hs : s.step (.disconnected t i) = some s') : Turned s s' t 2 := by
  obtain ⟨hth, hin, rfl⟩ := step_disconnected hs
  have hm : Moved s { s.move t ⟨(s.thread t).event, .disconnected i⟩ with accepted := s.accepted.erase i } t
    ⟨(s.thread t).event, .disconnected i⟩ := ⟨rfl, rfl, rfl⟩
  have hidle : (s.thread t).pc = .idle := congrArg AcceptThread.pc hth
  refine ⟨⟨_, hm⟩, fun h => hm.counted h h.bound ?_, fun _ => hm.ahead_le 2 ?_⟩
  · rw [hidle]
    rfl
  · have hlen := List.length_erase_of_mem hin
    have hpos := List.length_pos_of_mem hin
    simp only [move, AcceptThread.ahead, hidle, AcceptPC.ahead]
    omega

theorem turned_complete {t : Fin n} {aov i err : Nat} (hs : s.step (.complete t aov i err) = some s') :
    Turned s s' t 2 := by
  obtain ⟨hth, hin, rfl⟩ := step_complete hs
  have hm : Moved s { s.move t ⟨some (aov, if err ≠ 0 then .failed i else .succeeded i), .idle⟩ with
    flying := s.flying.erase (aov, i) } t ⟨some (aov, if err ≠ 0 then .failed i else .succeeded i), .idle⟩ := ⟨rfl, rfl, rfl⟩
  have hlen := List.length_erase_of_mem hin
  have hpos := List.length_pos_of_mem hin
  refine ⟨⟨_, hm⟩, fun h => hm.counted h h.bound ?_, fun _ => hm.ahead_le 2 ?_⟩
  · have hnew : held (AcceptThread.awaited ⟨some (aov, if err ≠ 0 then .failed i else .succeeded i), .idle⟩) = 1 := by
      split <;> rfl
    rw [hth, hnew]
    simp only [move, AcceptThread.awaited, AcceptPC.counts, held_none]
    omega
  · have hnew : AcceptThread.ahead ⟨some (aov, if err ≠ 0 then .failed i else .succeeded i), .idle⟩ ≤ 13 := by
      split
      next => exact Nat.le_add_right 7 6
      next => exact Nat.le_refl 13
    rw [hth]
    have hold : AcceptThread.ahead ⟨none, .idle⟩ = 0 := rfl
    simp only [move, hold] at hnew ⊢
    omega

theorem Counted.stop (h : Counted s) (hs : s.stop = some s') : Counted s' := by
  cases stop_cases hs <;> exact ⟨h.bound, h.counter⟩

/-- Only the listener is in the code at first. -/
theorem total_start {w : AcceptThread → Nat} (listener : Fin n) {acceptCnt preCnt incCnt maxCnt : Nat}
    (hidle : w ⟨none, .idle⟩ = 0) (hall : w ⟨none, .acceptAll⟩ = 0) :
    total w (start listener acceptCnt preCnt incCnt maxCnt).thread = 0 := by
  refine total_eq_zero fun t => ?_
  have hthread : (start listener acceptCnt preCnt incCnt maxCnt).thread =
    Function.update (fun _ => ⟨none, .idle⟩) listener ⟨none, .acceptAll⟩ := rfl
  rw [hthread]
  by_cases ht : t = listener
  · rw [ht, Function.update_self]
    exact hall
  · rw [Function.update_of_ne ht]
    exact hidle

theorem counted_start (listener : Fin n) (acceptCnt preCnt incCnt maxCnt : Nat) :
    Counted (start listener acceptCnt preCnt incCnt maxCnt) := by
  refine ⟨Nat.two_pow_pos 32, ?_⟩
  rw [total_start listener rfl rfl, total_start listener rfl rfl]
  rfl

/-- With no thread in its code and no `AcceptEx` outstanding, nothing is counted. -/
theorem Counted.rest (h : Counted s) (quiet : s.Quiet) (hflying : s.flying = []) : s.acceptingCnt = 0 := by
  have hcounts : total (fun th => held th.pc.counts) s.thread = 0 := total_eq_zero fun t => by rw [quiet t]; rfl
  have hawaited : total (fun th => held th.awaited) s.thread = 0 := total_eq_zero fun t => by rw [quiet t]; rfl
  have hcounter := h.counter
  have hbound := h.bound
  rw [hcounts, hawaited, hflying, List.length_nil] at hcounter
  omega

theorem stop_isSome (hleft : s.uninit ≠ .left) : ∃ s', s.stop = some s' := by
  unfold stop
  split
  next => exact ⟨_, rfl⟩
  next => exact ⟨_, rfl⟩
  next => exact ⟨_, rfl⟩
  next => split <;> exact ⟨_, rfl⟩
  next h => exact absurd h hleft

end Acceptor

namespace IOThreads

variable {n acceptCnt : Nat} {s s' : IOThreads n} {op : IOOp n} {listener : Fin n}

def stopAhead (s : IOThreads n) : Nat :=
  match s.stopPC with
  | .acceptor => s.acceptor.uninit.ahead
  | .disconnect => 3
  | .wait => 2
  | .delete => 1
  | .returned => 0

def ahead (s : IOThreads n) : Nat :=
  s.acceptor.ahead + total (fun io : Option IOThreadPC => io.elim 0 IOThreadPC.ahead) s.io + s.stopAhead

/-- `stop` is in one of its loops and will not leave it now. -/
def Spins (s : IOThreads n) : Prop :=
  s.stopPC = .acceptor ∧ s.acceptor.uninit = .wait ∧ s.acceptor.acceptingCnt ≠ 0 ∨
    s.stopPC = .wait ∧ s.acceptor.spool.totalCnt ≠ s.acceptor.spool.free.length

instance : Decidable s.Spins := by
  unfold Spins
  infer_instance

/-- What the steps cost that bring nothing nearer: a session's completion, which is taken and returned from, a turn
of a loop of `stop`, and closing the port. -/
def idle (s : IOThreads n) : IOOp n → Nat
  | .session _ => 2
  | .stop => if s.Spins then 1 else 0
  | .close => 1
  | _ => 0

theorem ahead_turn {t : Fin n} {pc : IOThreadPC} (hio : s.io t = some pc) (pc' : IOThreadPC) :
    (s.turn t pc').ahead + pc.ahead = s.ahead + pc'.ahead := by
  have htotal := total_update (fun io : Option IOThreadPC => io.elim 0 IOThreadPC.ahead) s.io t (some pc')
  rw [hio] at htotal
  simp only [Option.elim_some] at htotal
  simp only [ahead, turn, stopAhead]
  omega

theorem ahead_withAcceptor {a : Acceptor n} {t : Fin n} {w : Nat} (turned : s.acceptor.Turned a t w)
    (released : s.acceptor.isRelease = true) : (s.withAcceptor a).ahead + w ≤ s.ahead := by
  obtain ⟨th, hm⟩ := turned.moved
  have hle := turned.ahead released
  have hstop : (s.withAcceptor a).stopAhead = s.stopAhead := by
    simp only [stopAhead, withAcceptor, hm.uninit]
  simp only [ahead, withAcceptor] at hstop ⊢
  omega

theorem ahead_stop {a : Acceptor n} (hpc : s.stopPC = .acceptor) (ha : s.acceptor.stop = some a) :
    (s.withAcceptor a).ahead + 1 ≤ s.ahead + s.idle .stop ∧ (s.acceptor.isRelease = true → a.isRelease = true) := by
  have hsame : ∀ u : UninitPC, s.acceptor.uninit = u → s.ahead =
      s.acceptor.ahead + total (fun io : Option IOThreadPC => io.elim 0 IOThreadPC.ahead) s.io + u.ahead := by
    intro u hu
    simp only [ahead, stopAhead, hpc, hu]
  have hgone : ∀ (b : Acceptor n), (s.withAcceptor b).ahead =
      b.ahead + total (fun io : Option IOThreadPC => io.elim 0 IOThreadPC.ahead) s.io + b.uninit.ahead := by
    intro b
    simp only [ahead, stopAhead, withAcceptor, hpc]
  cases Acceptor.stop_cases ha with
  | release hu =>
    rw [hgone, hsame _ hu]
    refine ⟨?_, fun _ => rfl⟩
    simp only [Acceptor.ahead, UninitPC.ahead]
    omega
  | close hu =>
    rw [hgone, hsame _ hu]
    refine ⟨?_, id⟩
    simp only [Acceptor.ahead, UninitPC.ahead]
    omega
  | wait hu =>
    rw [hgone, hsame _ hu]
    refine ⟨?_, id⟩
    by_cases hcnt : s.acceptor.acceptingCnt ≠ 0
    · have hspins : s.idle .stop = 1 := if_pos (Or.inl ⟨hpc, hu, hcnt⟩)
      rw [hspins]
      simp only [Acceptor.ahead, if_pos hcnt]
      omega
    · simp only [Acceptor.ahead, if_neg hcnt, UninitPC.ahead]
      omega
  | drained hu =>
    rw [hgone, hsame _ hu]
    refine ⟨?_, id⟩
    simp only [Acceptor.ahead, UninitPC.ahead]
    omega
  | delete hu pool =>
    rw [hgone, hsame _ hu]
    refine ⟨?_, id⟩
    simp only [Acceptor.ahead, pool, hu, List.length_cons]
    omega

/-- Once the server is released every step comes nearer to the end of `stop`, or is paid for. -/
theorem ahead_step (released : s.acceptor.isRelease = true) (hs : s.step op = some s') :
    s'.acceptor.isRelease = true ∧ s'.ahead + 1 ≤ s.ahead + s.idle op := by
  have kept : ∀ {a : Acceptor n} {t : Fin n} {w : Nat}, s.acceptor.Turned a t w → a.isRelease = true := by
    intro a t w turned
    obtain ⟨th, hm⟩ := turned.moved
    exact hm.isRelease.trans released
  cases Move.of_step hs with
  | @accepted t aov i err a opened get event =>
    have turned := Acceptor.turned_complete event
    have hturn := ahead_turn get .onEvent
    have hle := ahead_withAcceptor (s := s.turn t .onEvent) turned released
    simp only [IOThreadPC.ahead] at hturn
    exact ⟨kept turned, by omega⟩
  | session opened get =>
    have hturn := ahead_turn get .onEvent
    simp only [IOThreadPC.ahead] at hturn
    exact ⟨released, by simp only [idle]; omega⟩
  | @last t i a opened get event =>
    have turned := Acceptor.turned_disconnected event
    have hturn := ahead_turn get .onEvent
    have hle := ahead_withAcceptor (s := s.turn t .onEvent) turned released
    simp only [IOThreadPC.ahead] at hturn
    exact ⟨kept turned, by omega⟩
  | disconnected on call =>
    have turned := Acceptor.turned_disconnected call
    have hle := ahead_withAcceptor turned released
    exact ⟨kept turned, by omega⟩
  | resume on turn =>
    have turned := Acceptor.turned_resume turn
    have hle := ahead_withAcceptor turned released
    exact ⟨kept turned, by omega⟩
  | back on idle =>
    have hturn := ahead_turn on .get
    simp only [IOThreadPC.ahead] at hturn
    exact ⟨released, by omega⟩
  | fail closed get =>
    have hturn := ahead_turn get .ended
    simp only [IOThreadPC.ahead] at hturn
    exact ⟨released, by omega⟩
  | uninit pc busy stop =>
    obtain ⟨hle, hkept⟩ := ahead_stop pc stop
    exact ⟨hkept released, hle⟩
  | left pc left =>
    refine ⟨released, ?_⟩
    simp only [ahead, stopAhead, pc, left, UninitPC.ahead]
    omega
  | disconnect pc =>
    refine ⟨released, ?_⟩
    simp only [ahead, stopAhead, pc]
    omega
  | spin pc used =>
    have hspins : s.idle .stop = 1 := if_pos (Or.inr ⟨pc, used⟩)
    exact ⟨released, by omega⟩
  | free pc free =>
    refine ⟨released, ?_⟩
    simp only [ahead, stopAhead, pc]
    omega
  | delete pc =>
    refine ⟨released, ?_⟩
    simp only [ahead, stopAhead, pc, Acceptor.ahead]
    omega
  | teardown pc out =>
    refine ⟨released, ?_⟩
    have hlen := List.length_erase_of_mem out
    have hpos := List.length_pos_of_mem out
    simp only [ahead, stopAhead, pc, withAcceptor, Acceptor.tearDown, Acceptor.ahead, idle]
    omega
  | close => exact ⟨released, Nat.le_refl _⟩

theorem counted_step (h : s.acceptor.Counted) (hs : s.step op = some s') : s'.acceptor.Counted := by
  cases Move.of_step hs with
  | accepted _ _ event => exact (Acceptor.turned_complete event).counted h
  | last _ _ event => exact (Acceptor.turned_disconnected event).counted h
  | disconnected _ call => exact (Acceptor.turned_disconnected call).counted h
  | resume _ turn => exact (Acceptor.turned_resume turn).counted h
  | uninit _ _ stop => exact h.stop stop
  | delete => exact ⟨h.bound, h.counter⟩
  | teardown => exact ⟨h.bound, h.counter⟩
  | _ => exact h

/-- Nothing is outstanding: no thread is in the functions of the acceptor, no `AcceptEx` is on its way, and every
session that was accepted has been given back. -/
structure Rest (s : IOThreads n) : Prop where
  quiet : s.acceptor.Quiet
  flying : s.acceptor.flying = []
  accepted : s.acceptor.accepted = []

/-- Steps of its own bring `stop` to its end. -/
def Returns (s : IOThreads n) : Prop := ∃ k s', Machine.exec step s (List.replicate k .stop) = some s' ∧ s'.stopPC = .returned

/-- At rest with no session missing. -/
structure Resting (s : IOThreads n) : Prop extends s.Rest where
  counter : s.acceptor.acceptingCnt = 0
  whole : s.Waiting → s.acceptor.spool.totalCnt = s.acceptor.spool.free.length

theorem Resting.step (h : Resting s) (hs : s.step op = some s') : Resting s' := by
  cases Move.of_step hs with
  | accepted _ _ event =>
    obtain ⟨_, hin, _⟩ := Acceptor.step_complete event
    rw [h.flying] at hin
    exact absurd hin List.not_mem_nil
  | last _ _ event =>
    obtain ⟨_, hin, _⟩ := Acceptor.step_disconnected event
    rw [h.accepted] at hin
    exact absurd hin List.not_mem_nil
  | disconnected _ call =>
    obtain ⟨_, hin, _⟩ := Acceptor.step_disconnected call
    rw [h.accepted] at hin
    exact absurd hin List.not_mem_nil
  | @resume t _ _ _ turn =>
    rcases Acceptor.step_resume turn with ⟨_, _, hbusy, _⟩ | ⟨hbusy, _⟩
    · cases (h.quiet t).symm.trans hbusy
    · exact absurd (congrArg AcceptThread.pc (h.quiet t)) hbusy
  | uninit pc _ stop => cases Acceptor.stop_cases stop <;> exact ⟨⟨h.quiet, h.flying, h.accepted⟩, h.counter, h.whole⟩
  | left pc => exact ⟨⟨h.quiet, h.flying, h.accepted⟩, h.counter, fun _ => h.whole (Or.inl pc)⟩
  | disconnect pc => exact ⟨⟨h.quiet, h.flying, h.accepted⟩, h.counter, fun _ => h.whole (Or.inr (Or.inl pc))⟩
  | free pc => exact ⟨⟨h.quiet, h.flying, h.accepted⟩, h.counter, fun _ => h.whole (Or.inr (Or.inr pc))⟩
  | delete => exact ⟨⟨h.quiet, h.flying, h.accepted⟩, h.counter, by rintro (hw | hw | hw) <;> cases hw⟩
  | teardown _ out =>
    rw [h.accepted] at out
    exact absurd out List.not_mem_nil
  | _ => exact ⟨⟨h.quiet, h.flying, h.accepted⟩, h.counter, h.whole⟩

/-- More than the steps of its own from here to the end of `stop`, where it need not wait. -/
def stopLeft (s : IOThreads n) : Nat := s.stopAhead + s.acceptor.apool.length

theorem stopLeft_acceptor {a : Acceptor n} (hpc : s.stopPC = .acceptor) (hcnt : s.acceptor.acceptingCnt = 0)
    (ha : s.acceptor.stop = some a) : (s.withAcceptor a).stopLeft < s.stopLeft := by
  cases Acceptor.stop_cases ha with
  | release hu => simp [stopLeft, stopAhead, withAcceptor, hpc, hu, UninitPC.ahead]
  | close hu => simp [stopLeft, stopAhead, withAcceptor, hpc, hu, UninitPC.ahead]
  | wait hu => simp [stopLeft, stopAhead, withAcceptor, hpc, hu, hcnt, UninitPC.ahead]
  | drained hu hempty => simp [stopLeft, stopAhead, withAcceptor, hpc, hu, hempty, UninitPC.ahead]
  | delete hu pool => simp [stopLeft, stopAhead, withAcceptor, hpc, hu, pool, UninitPC.ahead]

/-- At rest `stop` goes on to its end. -/
theorem Resting.goes (h : Resting s) (hpc : s.stopPC ≠ .returned) : ∃ s', s.stop = some s' ∧ s'.stopLeft < s.stopLeft := by
  unfold stop
  split
  next hacc =>
    split
    next hleft => exact ⟨_, rfl, by simp [stopLeft, stopAhead, hacc, hleft, UninitPC.ahead]⟩
    next hbusy =>
      obtain ⟨a, ha⟩ := Acceptor.stop_isSome hbusy
      exact ⟨_, by rw [ha]; rfl, stopLeft_acceptor hacc h.counter ha⟩
  next hdis => exact ⟨_, rfl, by simp [stopLeft, stopAhead, hdis]⟩
  next hwait => exact ⟨_, rfl, by simp [stopLeft, stopAhead, hwait, h.whole (Or.inr (Or.inr hwait))]⟩
  next hdel => exact ⟨_, rfl, by simp [stopLeft, stopAhead, hdel]⟩
  next hret => exact absurd hret hpc

theorem Resting.returns (h : Resting s) : s.Returns := by
  induction hleft : s.stopLeft using Nat.strongRecOn generalizing s with
  | _ left ih =>
    by_cases hpc : s.stopPC = .returned
    · exact ⟨0, s, rfl, hpc⟩
    · obtain ⟨mid, hm, hlt⟩ := h.goes hpc
      have hstep : s.step .stop = some mid := hm
      obtain ⟨k, s', run, hend⟩ := ih mid.stopLeft (hleft ▸ hlt) (h.step hstep) rfl
      refine ⟨k + 1, s', ?_, hend⟩
      rw [List.replicate_succ, Machine.exec, hstep]
      exact run

/-- Nothing is lost in a run without an `AcceptEx` that fails at once, and then at rest all sessions are free. -/
theorem resting_of_pends {preCnt incCnt maxCnt : Nat} {ops : List (IOOp n)}
    (run : Machine.exec step (start listener acceptCnt preCnt incCnt maxCnt) ops = some s) (rest : s.Rest)
    (pends : Machine.Along step Pends (start listener acceptCnt preCnt incCnt maxCnt) ops) : Resting s := by
  have hcounted : s.acceptor.Counted := Machine.exec_invariant (I := fun s => s.acceptor.Counted)
    (fun _ _ _ h hs => counted_step h hs) (Acceptor.counted_start listener acceptCnt preCnt incCnt maxCnt) run
  refine ⟨rest, hcounted.rest rest.quiet rest.flying, fun waiting => ?_⟩
  have hspent := exec_lost run waiting
  rw [(Machine.tally_eq_zero losses_eq_zero).mpr pends] at hspent
  have hcnt := hspent.sessions
  have hhands : total AcceptThread.sessionCnt s.acceptor.thread = 0 := total_eq_zero fun t => by rw [rest.quiet t]; rfl
  unfold Acceptor.sessionCnt at hcnt
  rw [rest.flying, rest.accepted, hhands] at hcnt
  exact hcnt.symm

/-- After `stop` was called every run goes only so far, apart from further completions of the sessions, the turns of
`stop`'s loops and closing the port. Once nothing is outstanding any more, and as long as `stop` has not found all
sessions free, its own steps bring it to its end, whatever happens before, exactly if no `AcceptEx` has failed at once. -/
theorem stop_returns {preCnt incCnt maxCnt : Nat} {ops : List (IOOp n)}
    (run : Machine.exec step (start listener acceptCnt preCnt incCnt maxCnt) ops = some s) :
    (s.acceptor.isRelease = true → ∀ later s', Machine.exec step s later = some s' →
      later.length + s'.ahead ≤ s.ahead + Machine.tally step idle s later) ∧
    (s.Waiting → s.Rest → ((∀ later s', Machine.exec step s later = some s' → s'.Returns) ↔
      Machine.Along step Pends (start listener acceptCnt preCnt incCnt maxCnt) ops)) := by
  refine ⟨fun released later s' run' => ?_, fun waiting rest => ⟨fun returns => ?_, fun pends later s' run' => ?_⟩⟩
  · exact Machine.exec_budget (I := fun s => s.acceptor.isRelease = true) (fun s op s' h hs => ahead_step h hs) released run'
  · by_contra hfails
    have hlost : 0 < Machine.tally step losses (start listener acceptCnt preCnt incCnt maxCnt) ops :=
      Nat.pos_of_ne_zero fun hz => hfails ((Machine.tally_eq_zero losses_eq_zero).mp hz)
    have hdoomed : Doomed acceptCnt s := ⟨waiting, _, exec_lost run waiting, Or.inl hlost⟩
    obtain ⟨k, s', run', hpc⟩ := returns [] s rfl
    have hwaiting := (Machine.exec_invariant (I := Doomed acceptCnt) (fun _ _ _ h hs => h.step hs) hdoomed run').waiting
    unfold Waiting at hwaiting
    rw [hpc] at hwaiting
    rcases hwaiting with h | h | h <;> cases h
  · have resting := resting_of_pends run rest pends
    exact (Machine.exec_invariant (I := Resting) (fun _ _ _ h hs => h.step hs) resting run').returns

/-- `stop` is called with one `AcceptEx` outstanding, which comes back aborted. -/
def stopped (t u : Fin n) : List (IOOp n) :=
  List.replicate 8 (.resume t true) ++ [.stop, .stop, .accepted u 0 0 995] ++ List.replicate 5 (.resume u true)

theorem stop_returns_sample :
    ∃ s, Machine.exec step (start (0 : Fin 2) 1 1 0 1) (stopped 0 1) = some s ∧ s.Waiting ∧ s.Rest ∧ s.Returns := by
  have run : (Machine.exec step (start (0 : Fin 2) 1 1 0 1) (stopped 0 1)).map (fun s => decide
      (s.stopPC = .acceptor ∧ s.acceptor.Quiet ∧ s.acceptor.flying = [] ∧ s.acceptor.accepted = [])) = some true := by
    decide +kernel
  have pends : Machine.Along step Pends (start (0 : Fin 2) 1 1 0 1) (stopped 0 1) := by decide +kernel
  obtain ⟨s, run, hs⟩ := Option.map_eq_some_iff.mp run
  obtain ⟨hpc, quiet, hflying, haccepted⟩ := of_decide_eq_true hs
  have rest : s.Rest := ⟨quiet, hflying, haccepted⟩
  exact ⟨s, run, Or.inl hpc, rest, ((stop_returns run).2 (Or.inl hpc) rest).mpr pends [] s rfl⟩

end IOThreads

end Ven
