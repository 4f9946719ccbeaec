import Ven.SessionPool
import Ven.Threads
import Ven.Machine
import Ven.Word

namespace Ven

/-- Where a thread stands in `disconnected`, `accept_all` and `accept`; `all` tells that `accept_all` called
`accept`. -/
inductive AcceptPC
  | idle
  | disconnected (s : Nat)
  | giveBack (s : Nat)
  | acceptAll
  | look
  | accept (all : Bool)
  | popSlot (all : Bool)
  | popSession (all : Bool) (aov : Nat)
  | putBack (aov : Nat)
  | acceptex (all : Bool) (aov s : Nat)
  | count (all : Bool) (aov : Nat)
deriving DecidableEq

/-- Where a thread stands in `on_event`; `callback` is the time of `_on_accept` and of `error`. -/
inductive EventPC
  | failed (s : Nat)
  | report
  | succeeded (s : Nat)
  | callback
  | uncount
  | pushSlot
deriving DecidableEq

/-- A thread with the `AOV` whose `on_event` it runs; `pc` comes first. -/
structure AcceptThread where
  event : Option (Nat × EventPC)
  pc : AcceptPC
deriving DecidableEq

inductive UninitPC
  | outside
  | close
  | wait
  | drain
  | left
deriving DecidableEq

/-- An acceptor and the `n` threads that use it. `flying` are the outstanding `AcceptEx`s with their sessions,
`accepted` the sessions that `disconnected` has not given back yet. -/
structure Acceptor (n : Nat) where
  apool : List Nat
  spool : SessionPool
  acceptingCnt : Nat
  connectedCnt : Nat
  isRelease : Bool
  isOpen : Bool
  flying : List (Nat × Nat)
  accepted : List Nat
  thread : Fin n → AcceptThread
  uninit : UninitPC
  deleted : List Nat
deriving DecidableEq

/-- `resume` is the next step of a thread, where `pends` tells whether an `AcceptEx` succeeds or pends, and
`uninit` that of the thread that stops the server. -/
inductive AcceptOp (n : Nat)
  | acceptAll (t : Fin n)
  | accept (t : Fin n)
  | disconnected (t : Fin n) (s : Nat)
  | complete (t : Fin n) (aov s err : Nat)
  | resume (t : Fin n) (pends : Bool)
  | uninit
deriving DecidableEq

namespace Acceptor

variable {n : Nat}

/-- `listen` has come to its `accept_all`. -/
def start (listener : Fin n) (acceptCnt preCnt incCnt maxCnt : Nat) : Acceptor n where
  apool := (List.range acceptCnt).reverse
  spool := SessionPool.init preCnt incCnt maxCnt
  acceptingCnt := 0
  connectedCnt := 0
  isRelease := false
  isOpen := true
  flying := []
  accepted := []
  thread := Function.update (fun _ => ⟨none, .idle⟩) listener ⟨none, .acceptAll⟩
  uninit := .outside
  deleted := []

def move (s : Acceptor n) (t : Fin n) (th : AcceptThread) : Acceptor n :=
  { s with thread := Function.update s.thread t th }

/-- A step of `disconnected`, `accept_all` or `accept`. -/
def resumePC (s : Acceptor n) (t : Fin n) (event : Option (Nat × EventPC)) (pends : Bool) : AcceptPC → Option (Acceptor n)
  | .idle => none
  | .disconnected i => some { s.move t ⟨event, .giveBack i⟩ with connectedCnt := pred32 s.connectedCnt }
  | .giveBack i => some { s.move t ⟨event, .acceptAll⟩ with spool := s.spool.push i }
  | .acceptAll => some (s.move t ⟨event, if s.isRelease then .idle else .look⟩)
  | .look => some (s.move t ⟨event, if s.apool = [] then .idle else .accept true⟩)
  | .accept all => some (s.move t ⟨event, if s.isRelease then .idle else .popSlot all⟩)
  | .popSlot all =>
    match s.apool with
    | [] => some (s.move t ⟨event, .idle⟩)
    | aov :: apool => some { s.move t ⟨event, .popSession all aov⟩ with apool := apool }
  | .popSession all aov =>
    match s.spool.pop with
    | (none, spool) => some { s.move t ⟨event, .putBack aov⟩ with spool := spool }
    | (some i, spool) => some { s.move t ⟨event, .acceptex all aov i⟩ with spool := spool }
  | .putBack aov => some { s.move t ⟨event, .idle⟩ with apool := aov :: s.apool }
  | .acceptex all aov i =>
    if pends then
      if s.isOpen then some { s.move t ⟨event, .count all aov⟩ with flying := (aov, i) :: s.flying } else none
    else some (s.move t ⟨event, .idle⟩)
  | .count all _ =>
    some { s.move t ⟨event, if all then .look else .idle⟩ with acceptingCnt := add32 s.acceptingCnt 1 }

/-- A step of `on_event`. -/
def resumeEvent (s : Acceptor n) (t : Fin n) (aov : Nat) : EventPC → Acceptor n
  | .failed i => { s.move t ⟨some (aov, .report), .idle⟩ with spool := s.spool.push i }
  | .report => s.move t ⟨some (aov, if s.isRelease then .uncount else .callback), .idle⟩
  | .succeeded i =>
    { s.move t ⟨some (aov, .callback), .idle⟩ with
      connectedCnt := add32 s.connectedCnt 1
      accepted := i :: s.accepted }
  | .callback => s.move t ⟨some (aov, .uncount), .idle⟩
  | .uncount => { s.move t ⟨some (aov, .pushSlot), .idle⟩ with acceptingCnt := pred32 s.acceptingCnt }
  | .pushSlot => { s.move t ⟨none, .accept false⟩ with apool := aov :: s.apool }

def resume (s : Acceptor n) (t : Fin n) (pends : Bool) : Option (Acceptor n) :=
  if (s.thread t).pc = .idle then
    (s.thread t).event.map fun e => s.resumeEvent t e.1 e.2
  else s.resumePC t (s.thread t).event pends (s.thread t).pc

/-- `uninit` of the acceptor. -/
def stop (s : Acceptor n) : Option (Acceptor n) :=
  match s.uninit with
  | .outside => some { s with isRelease := true, uninit := .close }
  | .close => some { s with isOpen := false, uninit := .wait }
  | .wait => some { s with uninit := if s.acceptingCnt ≠ 0 then .wait else .drain }
  | .drain =>
    match s.apool with
    | [] => some { s with uninit := .left }
    | aov :: apool => some { s with apool := apool, deleted := aov :: s.deleted }
  | .left => none

/-- What a step of `uninit` can do. -/
inductive Stopping (s : Acceptor n) : Acceptor n → Prop
  | release (outside : s.uninit = .outside) : Stopping s { s with isRelease := true, uninit := .close }
  | close (opened : s.uninit = .close) : Stopping s { s with isOpen := false, uninit := .wait }
  | wait (waits : s.uninit = .wait) : Stopping s { s with uninit := if s.acceptingCnt ≠ 0 then .wait else .drain }
  | drained (drains : s.uninit = .drain) (empty : s.apool = []) : Stopping s { s with uninit := .left }
  | delete (drains : s.uninit = .drain) {aov : Nat} {apool : List Nat} (pool : s.apool = aov :: apool) :
      Stopping s { s with apool := apool, deleted := aov :: s.deleted }

theorem stop_cases {s s' : Acceptor n} (hs : s.stop = some s') : Stopping s s' := by
  unfold stop at hs
  split at hs
  next hu =>
    cases Option.some.inj hs
    exact .release hu
  next hu =>
    cases Option.some.inj hs
    exact .close hu
  next hu =>
    cases Option.some.inj hs
    exact .wait hu
  next hu =>
    split at hs
    next hempty =>
      cases Option.some.inj hs
      exact .drained hu hempty
    next hpool =>
      cases Option.some.inj hs
      exact .delete hu hpool
  next => cases hs

/-- The thread is in none of the functions, or in a callback. -/
def Free (th : AcceptThread) : Bool := th.pc = .idle ∧ th.event.all (fun e => e.2 = .callback)

/-- One atomic step. -/
def step (s : Acceptor n) : AcceptOp n → Option (Acceptor n)
  | .acceptAll t => if s.thread t = ⟨none, .idle⟩ then some (s.move t ⟨none, .acceptAll⟩) else none
  | .accept t => if s.thread t = ⟨none, .idle⟩ then some (s.move t ⟨none, .accept false⟩) else none
  | .disconnected t i =>
    if Free (s.thread t) ∧ i ∈ s.accepted then
      some { s.move t ⟨(s.thread t).event, .disconnected i⟩ with accepted := s.accepted.erase i }
    else none
  | .complete t aov i err =>
    if s.thread t = ⟨none, .idle⟩ ∧ s.flying.contains (aov, i) then
      some { s.move t ⟨some (aov, if err ≠ 0 then .failed i else .succeeded i), .idle⟩ with
        flying := s.flying.erase (aov, i) }
    else none
  | .resume t pends => s.resume t pends
  | .uninit => s.stop

variable {s s' : Acceptor n} {t : Fin n} {event : Option (Nat × EventPC)} {all pends : Bool} {aov i : Nat}

theorem popSlot_cases (hs : s.resumePC t event pends (.popSlot all) = some s') :
    s.apool = [] ∧ s' = s.move t ⟨event, .idle⟩ ∨
    ∃ aov apool, s.apool = aov :: apool ∧ s' = { s.move t ⟨event, .popSession all aov⟩ with apool := apool } := by
  simp only [resumePC] at hs
  split at hs
  next hempty =>
    cases Option.some.inj hs
    exact Or.inl ⟨hempty, rfl⟩
  next aov apool hpool =>
    cases Option.some.inj hs
    exact Or.inr ⟨aov, apool, hpool, rfl⟩

theorem popSession_cases (hs : s.resumePC t event pends (.popSession all aov) = some s') :
    s.spool.pop.1 = none ∧ s' = s.move t ⟨event, .putBack aov⟩ ∨
    ∃ i spool, s.spool.pop = (some i, spool) ∧ s' = { s.move t ⟨event, .acceptex all aov i⟩ with spool := spool } := by
  simp only [resumePC] at hs
  split at hs
  next spool hpop =>
    cases Option.some.inj hs
    refine Or.inl ⟨by rw [hpop], ?_⟩
    rw [SessionPool.pop_none hpop]
    rfl
  next i spool hpop =>
    cases Option.some.inj hs
    exact Or.inr ⟨i, spool, hpop, rfl⟩

theorem acceptex_cases (hs : s.resumePC t event pends (.acceptex all aov i) = some s') :
    pends = true ∧ s.isOpen = true ∧ s' = { s.move t ⟨event, .count all aov⟩ with flying := (aov, i) :: s.flying } ∨
    pends = false ∧ s' = s.move t ⟨event, .idle⟩ := by
  cases pends with
  | false =>
    cases Option.some.inj hs
    exact Or.inr ⟨rfl, rfl⟩
  | true =>
    simp only [resumePC, if_true] at hs
    split at hs
    next hopen =>
      cases Option.some.inj hs
      exact Or.inl ⟨rfl, hopen, rfl⟩
    next => cases hs

theorem step_acceptAll (hs : s.step (.acceptAll t) = some s') :
    s.thread t = ⟨none, .idle⟩ ∧ s' = s.move t ⟨none, .acceptAll⟩ := by
  simp only [step] at hs
  split at hs
  next hidle => exact ⟨hidle, (Option.some.inj hs).symm⟩
  next => cases hs

theorem step_accept (hs : s.step (.accept t) = some s') :
    s.thread t = ⟨none, .idle⟩ ∧ s' = s.move t ⟨none, .accept false⟩ := by
  simp only [step] at hs
  split at hs
  next hidle => exact ⟨hidle, (Option.some.inj hs).symm⟩
  next => cases hs

theorem step_disconnected (hs : s.step (.disconnected t i) = some s') :
    s.thread t = ⟨(s.thread t).event, .idle⟩ ∧ i ∈ s.accepted ∧
      s' = { s.move t ⟨(s.thread t).event, .disconnected i⟩ with accepted := s.accepted.erase i } := by
  simp only [step] at hs
  split at hs
  next hfree =>
    obtain ⟨hb, hmem⟩ := hfree
    unfold Free at hb
    have hidle := (of_decide_eq_true hb).1
    refine ⟨?_, hmem, (Option.some.inj hs).symm⟩
    rw [← hidle]
  next => cases hs

theorem step_complete {err : Nat} (hs : s.step (.complete t aov i err) = some s') :
    s.thread t = ⟨none, .idle⟩ ∧ (aov, i) ∈ s.flying ∧
      s' = { s.move t ⟨some (aov, if err ≠ 0 then .failed i else .succeeded i), .idle⟩ with
        flying := s.flying.erase (aov, i) } := by
  simp only [step] at hs
  split at hs
  next hc => exact ⟨hc.1, List.contains_iff_mem.mp hc.2, (Option.some.inj hs).symm⟩
  next => cases hs

theorem step_resume (hs : s.step (.resume t pends) = some s') :
    (∃ aov e, s.thread t = ⟨some (aov, e), .idle⟩ ∧ s' = s.resumeEvent t aov e) ∨
    (s.thread t).pc ≠ .idle ∧ s.resumePC t (s.thread t).event pends (s.thread t).pc = some s' := by
  simp only [step, resume] at hs
  split at hs
  next hidle =>
    obtain ⟨⟨aov, e⟩, he, heq⟩ := Option.map_eq_some_iff.mp hs
    refine Or.inl ⟨aov, e, ?_, heq.symm⟩
    rw [← he, ← hidle]
  next hbusy => exact Or.inr ⟨hbusy, hs⟩

end Acceptor

end Ven
