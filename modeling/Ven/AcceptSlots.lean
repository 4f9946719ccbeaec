import Ven.Acceptor

namespace Ven

open Threads

/-- The slot a thread holds that may come back to `apool_`. -/
def AcceptPC.slots : AcceptPC → Nat
  | .popSession _ _ => 1
  | .putBack _ => 1
  | _ => 0

/-- `accept` is still to be tried once. -/
def AcceptPC.tries : AcceptPC → Nat
  | .accept false => 1
  | .popSlot false => 1
  | .popSession false _ => 1
  | _ => 0

/-- `accept_all` is still to look at `apool_`. -/
def AcceptPC.sweeps : AcceptPC → Nat
  | .disconnected _ => 1
  | .giveBack _ => 1
  | .acceptAll => 1
  | .look => 1
  | .accept true => 1
  | .popSlot true => 1
  | .popSession true _ => 1
  | .acceptex true _ _ => 1
  | .count true _ => 1
  | _ => 0

/-- The thread reads `apool_` next. -/
def AcceptPC.looks : AcceptPC → Bool
  | .look => true
  | .popSlot _ => true
  | _ => false

/-- The thread took a slot, got no session and is about to put the slot back. -/
def AcceptPC.putsBack : AcceptPC → Bool
  | .putBack _ => true
  | _ => false

def AcceptPC.posts : AcceptPC → Bool
  | .acceptex _ _ _ => true
  | _ => false

namespace AcceptThread

def events (th : AcceptThread) : Nat := if th.event.isSome then 1 else 0

def slots (th : AcceptThread) : Nat := th.events + th.pc.slots

/-- The session of an `AcceptEx` that failed. -/
def sessions (th : AcceptThread) : Nat :=
  match th.event with
  | some (_, .failed _) => 1
  | _ => 0

/-- The calls of `accept` that a thread still makes, or after `on_event` will make. -/
def owed (th : AcceptThread) : Nat := th.events + th.pc.tries

def sweeps (th : AcceptThread) : Nat := th.pc.sweeps

theorem sessions_le_owed (th : AcceptThread) : th.sessions ≤ th.owed := by
  unfold sessions owed events
  split
  next h =>
    rw [h]
    exact Nat.le_add_right 1 _
  next => exact Nat.zero_le _

theorem slots_le {th : AcceptThread} (h : th.pc.putsBack = false) : th.slots ≤ th.owed + th.sweeps := by
  have hpc : th.pc.slots ≤ th.pc.tries + th.pc.sweeps := by
    cases hp : th.pc with
    | popSession all aov =>
      cases all with
      | false => exact Nat.le_refl 1
      | true => exact Nat.le_refl 1
    | putBack aov =>
      rw [hp] at h
      cases h
    | _ => exact Nat.zero_le _
  unfold slots owed sweeps
  omega

end AcceptThread

namespace Acceptor

variable {n : Nat} {s s' : Acceptor n}

/-- Every `AcceptEx` succeeds or pends. -/
def Pends (s : Acceptor n) : AcceptOp n → Prop
  | .resume t pends => (s.thread t).pc.posts = true → pends = true
  | _ => True

/-- A slot is being put back. -/
def Holding (s : Acceptor n) : Prop := ∃ t, (s.thread t).pc.putsBack = true

/-- Nobody finds `apool_` empty while a slot is being put back though a session has become free. -/
def Sighted (s : Acceptor n) : AcceptOp n → Prop
  | .resume t _ => (s.thread t).pc.looks = true → s.apool = [] → s.spool.pop.1 ≠ none → ¬s.Holding
  | _ => True

/-- No thread is in `accept`, `accept_all`, `disconnected` or `on_event`. -/
def Quiet (s : Acceptor n) : Prop := ∀ t, s.thread t = ⟨none, .idle⟩

instance (s : Acceptor n) : Decidable s.Holding := inferInstanceAs (Decidable (∃ t, (s.thread t).pc.putsBack = true))

instance (s : Acceptor n) : Decidable s.Quiet := inferInstanceAs (Decidable (∀ t, s.thread t = ⟨none, .idle⟩))

instance (s : Acceptor n) : (op : AcceptOp n) → Decidable (s.Pends op)
  | .resume t pends => inferInstanceAs (Decidable ((s.thread t).pc.posts = true → pends = true))
  | .acceptAll _ => isTrue trivial
  | .accept _ => isTrue trivial
  | .disconnected _ _ => isTrue trivial
  | .complete _ _ _ _ => isTrue trivial
  | .uninit => isTrue trivial

instance (s : Acceptor n) : (op : AcceptOp n) → Decidable (s.Sighted op)
  | .resume t _ =>
    inferInstanceAs (Decidable ((s.thread t).pc.looks = true → s.apool = [] → s.spool.pop.1 ≠ none → ¬s.Holding))
  | .acceptAll _ => isTrue trivial
  | .accept _ => isTrue trivial
  | .disconnected _ _ => isTrue trivial
  | .complete _ _ _ _ => isTrue trivial
  | .uninit => isTrue trivial

/-- Some thread will still look at all slots, or as many calls of `accept` are to come as slots can meet sessions. -/
def Covered (s : Acceptor n) : Prop :=
  s.isRelease = true ∨ 0 < total AcceptThread.sweeps s.thread ∨
    min (s.apool.length + total AcceptThread.slots s.thread) (s.spool.supply + total AcceptThread.sessions s.thread) ≤
      total AcceptThread.owed s.thread

theorem covered_of_none (h : s.spool.supply = 0) : Covered s := by
  refine Or.inr (Or.inr ?_)
  have hle : total AcceptThread.sessions s.thread ≤ total AcceptThread.owed s.thread :=
    total_mono fun t => (s.thread t).sessions_le_owed
  omega

theorem covered_of_empty (h : s.apool = []) (free : ¬s.Holding) : Covered s := by
  refine Or.inr ?_
  have hle : total AcceptThread.slots s.thread ≤ total (fun th => th.owed + th.sweeps) s.thread :=
    total_mono fun t => AcceptThread.slots_le (Bool.eq_false_iff.mpr fun hp => free ⟨t, hp⟩)
  rw [total_add] at hle
  rw [h, List.length_nil]
  omega

theorem covered_of_sweep {t : Fin n} (h : 0 < (s.thread t).sweeps) : Covered s :=
  Or.inr (Or.inl (Nat.lt_of_lt_of_le h (le_total _ _ t)))

/-- A step of one thread that needs no more calls of `accept` than it adds. -/
theorem Covered.moved (h : Covered s) {t : Fin n} {th : AcceptThread} (ht : s'.thread = Function.update s.thread t th)
    (hr : s'.isRelease = s.isRelease) (sweeps : (s.thread t).sweeps ≤ th.sweeps)
    (slots : s'.apool.length + th.slots + (s.thread t).owed ≤ s.apool.length + (s.thread t).slots + th.owed)
    (sessions : s'.spool.supply + th.sessions + (s.thread t).owed ≤ s.spool.supply + (s.thread t).sessions + th.owed) :
    Covered s' := by
  have hsweeps := total_update AcceptThread.sweeps s.thread t th
  have hslots := total_update AcceptThread.slots s.thread t th
  have hsessions := total_update AcceptThread.sessions s.thread t th
  have howed := total_update AcceptThread.owed s.thread t th
  rw [← ht] at hsweeps hslots hsessions howed
  rcases h with hrel | hw | hmin
  · exact Or.inl (hr.trans hrel)
  · exact Or.inr (Or.inl (by omega))
  · exact Or.inr (Or.inr (by omega))

/-- A look that finds no slot. -/
theorem covered_of_look {t : Fin n} {event : Option (Nat × EventPC)} (hempty : s.apool = [])
    (seen : s.spool.pop.1 ≠ none → ¬s.Holding) : Covered (s.move t ⟨event, .idle⟩) := by
  by_cases hz : s.spool.supply = 0
  · exact covered_of_none hz
  · refine covered_of_empty hempty fun ⟨u, hu⟩ => ?_
    have hsome : s.spool.pop.1 ≠ none := fun hn => hz (SessionPool.pop_eq_none.mp hn)
    refine seen hsome ⟨u, ?_⟩
    by_cases hut : u = t
    · subst hut
      simp only [move, Function.update_self] at hu
      cases hu
    · simp only [move, Function.update_of_ne hut] at hu
      exact hu

/-- A thread goes on in `accept_all`. -/
theorem covered_of_sweeping {t : Fin n} {event : Option (Nat × EventPC)} (pc' : AcceptPC) (hpos : 0 < pc'.sweeps)
    (ht : s'.thread = Function.update s.thread t ⟨event, pc'⟩) : Covered s' := by
  refine covered_of_sweep (t := t) ?_
  rw [ht, Function.update_self]
  exact hpos

/-- A thread goes on in an `accept` of its own. -/
theorem Covered.once (h : Covered s) {t : Fin n} {event : Option (Nat × EventPC)} {pc : AcceptPC}
    (hth : s.thread t = ⟨event, pc⟩) (pc' : AcceptPC) (hz : pc.sweeps = 0)
    (ht : s'.thread = Function.update s.thread t ⟨event, pc'⟩) (hr : s'.isRelease = s.isRelease)
    (hslots : s'.apool.length + pc'.slots + pc.tries ≤ s.apool.length + pc.slots + pc'.tries)
    (hsessions : s'.spool.supply + pc.tries ≤ s.spool.supply + pc'.tries) : Covered s' := by
  refine h.moved ht hr ?_ ?_ ?_
  · rw [hth]
    change pc.sweeps ≤ pc'.sweeps
    omega
  · rw [hth]
    unfold AcceptThread.slots AcceptThread.owed AcceptThread.events
    dsimp only
    omega
  · rw [hth]
    unfold AcceptThread.sessions AcceptThread.owed AcceptThread.events
    dsimp only
    omega

theorem Covered.resumePC (h : Covered s) {t : Fin n} {event : Option (Nat × EventPC)} {pc : AcceptPC} {pends : Bool}
    (hth : s.thread t = ⟨event, pc⟩) (hpends : pc.posts = true → pends = true)
    (seen : pc.looks = true → s.apool = [] → s.spool.pop.1 ≠ none → ¬s.Holding)
    (hs : s.resumePC t event pends pc = some s') : Covered s' := by
  cases pc with
  | idle => cases hs
  | disconnected i =>
    cases Option.some.inj hs
    exact covered_of_sweeping (.giveBack i) Nat.one_pos rfl
  | giveBack i =>
    cases Option.some.inj hs
    exact covered_of_sweeping .acceptAll Nat.one_pos rfl
  | acceptAll =>
    by_cases hr : s.isRelease = true
    · cases Option.some.inj hs
      exact Or.inl hr
    · rw [Acceptor.resumePC, if_neg hr] at hs
      cases Option.some.inj hs
      exact covered_of_sweeping .look Nat.one_pos rfl
  | look =>
    by_cases hempty : s.apool = []
    · rw [Acceptor.resumePC, if_pos hempty] at hs
      cases Option.some.inj hs
      exact covered_of_look hempty (seen rfl hempty)
    · rw [Acceptor.resumePC, if_neg hempty] at hs
      cases Option.some.inj hs
      exact covered_of_sweeping (.accept true) Nat.one_pos rfl
  | accept all =>
    by_cases hr : s.isRelease = true
    · cases Option.some.inj hs
      exact Or.inl hr
    · rw [Acceptor.resumePC, if_neg hr] at hs
      cases Option.some.inj hs
      cases all with
      | true => exact covered_of_sweeping (.popSlot true) Nat.one_pos rfl
      | false => exact h.once hth (.popSlot false) rfl rfl rfl (Nat.le_refl _) (Nat.le_refl _)
  | popSlot all =>
    rcases popSlot_cases hs with ⟨hempty, rfl⟩ | ⟨aov, apool, hpool, rfl⟩
    · exact covered_of_look hempty (seen rfl hempty)
    · cases all with
      | true => exact covered_of_sweeping (.popSession true aov) Nat.one_pos rfl
      | false =>
        refine h.once hth (.popSession false aov) rfl rfl rfl ?_ (Nat.le_refl _)
        rw [hpool]
        exact Nat.le_refl _
  | popSession all aov =>
    rcases popSession_cases hs with ⟨hnone, rfl⟩ | ⟨i, spool, hpop, rfl⟩
    · exact covered_of_none (SessionPool.pop_eq_none.mp hnone)
    · cases all with
      | true => exact covered_of_sweeping (.acceptex true aov i) Nat.one_pos rfl
      | false =>
        have hsupply := SessionPool.supply_pop hpop
        refine h.once hth (.acceptex false aov i) rfl rfl rfl (Nat.le_refl _) ?_
        change spool.supply + 1 ≤ s.spool.supply + 0
        omega
  | putBack aov =>
    cases Option.some.inj hs
    exact h.once hth .idle rfl rfl rfl (Nat.le_refl _) (Nat.le_refl _)
  | acceptex all aov i =>
    rcases acceptex_cases hs with ⟨_, _, rfl⟩ | ⟨hfails, _⟩
    · cases all with
      | true => exact covered_of_sweeping (.count true aov) Nat.one_pos rfl
      | false => exact h.once hth (.count false aov) rfl rfl rfl (Nat.le_refl _) (Nat.le_refl _)
    · rw [hpends rfl] at hfails
      cases hfails
  | count all aov =>
    cases Option.some.inj hs
    cases all with
    | true => exact covered_of_sweeping .look Nat.one_pos rfl
    | false => exact h.once hth .idle rfl rfl rfl (Nat.le_refl _) (Nat.le_refl _)

theorem Covered.resumeEvent (h : Covered s) {t : Fin n} {aov : Nat} {e : EventPC} (hth : s.thread t = ⟨some (aov, e), .idle⟩) :
    Covered (s.resumeEvent t aov e) := by
  have inside : ∀ (e' : EventPC) {t' : Acceptor n}, t'.thread = Function.update s.thread t ⟨some (aov, e'), .idle⟩ →
      t'.isRelease = s.isRelease → t'.apool = s.apool →
      t'.spool.supply + AcceptThread.sessions ⟨some (aov, e'), .idle⟩ ≤
        s.spool.supply + AcceptThread.sessions ⟨some (aov, e), .idle⟩ → Covered t' := by
    intro e' t' ht hr hapool hsessions
    refine h.moved ht hr ?_ ?_ ?_
    · rw [hth]
      exact Nat.le_refl 0
    · rw [hth, hapool]
      exact Nat.le_refl _
    · rw [hth]
      exact Nat.add_le_add_right hsessions _
  cases e with
  | failed i =>
    refine inside .report rfl rfl rfl ?_
    change (s.spool.push i).supply + 0 ≤ s.spool.supply + 1
    rw [SessionPool.supply_push]
  | report =>
    by_cases hr : s.isRelease = true
    · exact Or.inl hr
    · rw [Acceptor.resumeEvent, if_neg hr]
      exact inside .callback rfl rfl rfl (Nat.le_refl _)
  | succeeded i => exact inside .callback rfl rfl rfl (Nat.le_refl _)
  | callback => exact inside .uncount rfl rfl rfl (Nat.le_refl _)
  | uncount => exact inside .pushSlot rfl rfl rfl (Nat.le_refl _)
  | pushSlot =>
    refine h.moved (t := t) rfl rfl ?_ ?_ ?_
    · rw [hth]
      exact Nat.le_refl 0
    · rw [hth]
      exact Nat.le_refl _
    · rw [hth]
      exact Nat.le_refl _

theorem Covered.stop (h : Covered s) (hs : s.stop = some s') : Covered s' := by
  cases stop_cases hs with
  | release => exact Or.inl rfl
  | delete _ pool =>
    rcases h with hr | hw | hmin
    · exact Or.inl hr
    · exact Or.inr (Or.inl hw)
    · refine Or.inr (Or.inr ?_)
      rw [pool, List.length_cons] at hmin
      dsimp only
      omega
  | _ => exact h

/-- An idle thread enters one of the functions. -/
theorem Covered.enters (h : Covered s) {t : Fin n} {th : AcceptThread} (hidle : s.thread t = ⟨none, .idle⟩)
    (ht : s'.thread = Function.update s.thread t th) (hr : s'.isRelease = s.isRelease) (hapool : s'.apool = s.apool)
    (hspool : s'.spool = s.spool) (hslots : th.slots ≤ th.owed) : Covered s' := by
  refine h.moved ht hr ?_ ?_ ?_
  · rw [hidle]
    exact Nat.zero_le _
  · rw [hidle, hapool]
    change s.apool.length + th.slots + 0 ≤ s.apool.length + 0 + th.owed
    omega
  · rw [hidle, hspool]
    have hle := th.sessions_le_owed
    change s.spool.supply + th.sessions + 0 ≤ s.spool.supply + 0 + th.owed
    omega

theorem Covered.step (h : Covered s) {op : AcceptOp n} (pends : s.Pends op) (sighted : s.Sighted op)
    (hs : s.step op = some s') : Covered s' := by
  cases op with
  | acceptAll t =>
    obtain ⟨hidle, rfl⟩ := step_acceptAll hs
    exact h.enters hidle rfl rfl rfl rfl (Nat.zero_le _)
  | accept t =>
    obtain ⟨hidle, rfl⟩ := step_accept hs
    exact h.enters hidle rfl rfl rfl rfl (Nat.zero_le _)
  | disconnected t i =>
    obtain ⟨_, _, rfl⟩ := step_disconnected hs
    refine covered_of_sweep (t := t) ?_
    simp only [move, Function.update_self]
    exact Nat.one_pos
  | complete t aov i err =>
    obtain ⟨hidle, _, rfl⟩ := step_complete hs
    exact h.enters hidle rfl rfl rfl rfl (Nat.le_refl 1)
  | resume t p =>
    rcases step_resume hs with ⟨aov, e, hth, rfl⟩ | ⟨_, hpc⟩
    · exact h.resumeEvent hth
    · exact h.resumePC rfl pends sighted hpc
  | uninit => exact h.stop hs

theorem covered_start (listener : Fin n) (acceptCnt preCnt incCnt maxCnt : Nat) :
    Covered (start listener acceptCnt preCnt incCnt maxCnt) := by
  refine covered_of_sweep (t := listener) ?_
  simp only [start, Function.update_self]
  exact Nat.one_pos

/-- When no look goes past a slot that is being put back, no slot stays idle while there is a session for it. -/
theorem no_slot_lost {listener : Fin n} {acceptCnt preCnt incCnt maxCnt : Nat} {ops : List (AcceptOp n)}
    (pends : Machine.Along step Pends (start listener acceptCnt preCnt incCnt maxCnt) ops)
    (sighted : Machine.Along step Sighted (start listener acceptCnt preCnt incCnt maxCnt) ops)
    (run : Machine.exec step (start listener acceptCnt preCnt incCnt maxCnt) ops = some s) (quiet : s.Quiet)
    (running : s.isRelease = false) : s.apool = [] ∨ s.spool.pop.1 = none := by
  have covered : Covered s := by
    refine Machine.exec_invariant_along (I := Covered) ?_ (covered_start listener acceptCnt preCnt incCnt maxCnt)
      (Machine.along_and pends sighted) run
    intro s op s' h good hs
    exact h.step good.1 good.2 hs
  have zero : ∀ w : AcceptThread → Nat, w ⟨none, .idle⟩ = 0 → total w s.thread = 0 := by
    intro w hw
    refine total_eq_zero fun t => ?_
    rw [quiet t]
    exact hw
  rcases covered with hr | hw | hmin
  · rw [running] at hr
    cases hr
  · rw [zero AcceptThread.sweeps rfl] at hw
    exact absurd hw (lt_irrefl 0)
  · rw [zero AcceptThread.slots rfl, zero AcceptThread.sessions rfl, zero AcceptThread.owed rfl] at hmin
    by_cases hz : s.spool.supply = 0
    · exact Or.inr (SessionPool.pop_eq_none.mpr hz)
    · exact Or.inl (List.eq_nil_of_length_eq_zero (by omega))

/-- Two slots for one session: a connection is closed from its own `on_conn`, and the other slot takes the session. -/
def contended (t u : Fin n) : List (AcceptOp n) :=
  List.replicate 12 (.resume t true) ++ [.complete u 1 0 0, .resume u true, .disconnected u 0] ++
    List.replicate 17 (.resume u true)

theorem no_slot_lost_sample :
    ∃ s, Machine.exec step (start (0 : Fin 2) 2 1 1 1) (contended 0 1) = some s ∧ s.Quiet ∧ s.isRelease = false ∧ s.apool = [1] ∧
      s.spool.pop.1 = none := by
  have run : (Machine.exec step (start (0 : Fin 2) 2 1 1 1) (contended 0 1)).map
      (fun s => (decide s.Quiet, s.isRelease, s.apool)) = some (true, false, [1]) := by decide +kernel
  obtain ⟨s, run, hs⟩ := Option.map_eq_some_iff.mp run
  simp only [Prod.mk.injEq, decide_eq_true_eq] at hs
  obtain ⟨quiet, running, hapool⟩ := hs
  have pends : Machine.Along step Pends (start (0 : Fin 2) 2 1 1 1) (contended 0 1) := by decide +kernel
  have sighted : Machine.Along step Sighted (start (0 : Fin 2) 2 1 1 1) (contended 0 1) := by decide +kernel
  refine ⟨s, run, quiet, running, hapool, ?_⟩
  rcases no_slot_lost pends sighted run quiet running with hnil | hnone
  · rw [hapool] at hnil
    cases hnil
  · exact hnone

/-- The only slot is taken for a session that is not there. Before it is put back, a disconnect returns a session
and finds no slot. -/
def missed (t u : Fin n) : List (AcceptOp n) :=
  List.replicate 8 (.resume t true) ++ [.complete t 0 0 0] ++ List.replicate 7 (.resume t true) ++
    [.disconnected u 0] ++ List.replicate 4 (.resume u true) ++ [.resume t true]

theorem slot_lost : Machine.Along step Pends (start (0 : Fin 2) 1 1 1 1) (missed 0 1) ∧
    ∃ s, Machine.exec step (start (0 : Fin 2) 1 1 1 1) (missed 0 1) = some s ∧ s.Quiet ∧ s.isRelease = false ∧ s.apool = [0] ∧
      s.spool.pop.1 = some 0 := by
  refine ⟨by decide +kernel, ?_⟩
  have run : (Machine.exec step (start (0 : Fin 2) 1 1 1 1) (missed 0 1)).map
      (fun s => (decide s.Quiet, s.isRelease, s.apool, s.spool.pop.1)) = some (true, false, [0], some 0) := by decide +kernel
  obtain ⟨s, run, hs⟩ := Option.map_eq_some_iff.mp run
  simp only [Prod.mk.injEq, decide_eq_true_eq] at hs
  exact ⟨s, run, hs⟩

end Acceptor

end Ven
