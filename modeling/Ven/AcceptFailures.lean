import Ven.AcceptShutdown

namespace Ven

open Threads

/-- The session a thread took from the pool or will give back to it. -/
def AcceptPC.session : AcceptPC → Option Nat
  | .disconnected i => some i
  | .giveBack i => some i
  | .acceptex _ _ i => some i
  | _ => none

/-- The session of an `AcceptEx` that completed, until it is pushed or counted as connected. -/
def EventPC.session : EventPC → Option Nat
  | .failed i => some i
  | .succeeded i => some i
  | _ => none

/-- `1` when there is one. -/
def held (o : Option Nat) : Nat := if o.isSome then 1 else 0

@[simp] theorem held_none : held none = 0 := rfl

@[simp] theorem held_some (a : Nat) : held (some a) = 1 := rfl

namespace SessionPool

variable {p q : SessionPool} {i : Nat}

theorem pop_counts (h : p.pop = (some i, q)) : q.free.length + 1 + p.totalCnt = p.free.length + q.totalCnt := by
  rcases p.pop_cases with ⟨j, free, hf, hpop⟩ | ⟨_, _, hpop⟩ | ⟨hf, _, _, _, _, j, free, hr, hpop⟩
  · cases h.symm.trans hpop
    rw [hf, List.length_cons]
  · cases h.symm.trans hpop
  · cases h.symm.trans hpop
    have hlen := congrArg List.length hr
    simp only [List.length_reverse, List.length_range', List.length_cons] at hlen
    rw [hf, List.length_nil]
    dsimp only
    omega

end SessionPool

namespace AcceptThread

def slotCnt (th : AcceptThread) : Nat := held th.inEvent + held th.pc.slot

def sessionCnt (th : AcceptThread) : Nat := held (th.event.bind fun e => e.2.session) + held th.pc.session

end AcceptThread

namespace Acceptor

variable {n acceptCnt k : Nat} {s s' : Acceptor n}

/-- `accept` without another thread in between; `pends` tells whether its `AcceptEx` succeeds or pends. -/
def accept (s : Acceptor n) (pends : Bool) : Bool × Acceptor n :=
  if s.isRelease then (false, s)
  else
    match s.apool with
    | [] => (false, s)
    | aov :: apool =>
      match s.spool.pop with
      | (none, spool) => (false, { s with apool := aov :: apool, spool := spool })
      | (some i, spool) =>
        if pends then
          (true, { s with
            apool := apool
            spool := spool
            flying := (aov, i) :: s.flying
            acceptingCnt := add32 s.acceptingCnt 1 })
        else (false, { s with apool := apool, spool := spool })

/-- `accept` comes to its `AcceptEx`. -/
def Tries (s : Acceptor n) : Prop := s.isRelease = false ∧ s.apool ≠ [] ∧ s.spool.pop.1 ≠ none

/-- The pools of `s'` are those of `s`, apart from sessions that are new and free. -/
structure Undone (s s' : Acceptor n) : Prop where
  slots : s'.apool = s.apool
  use : s'.spool.use = s.spool.use
  created : ∀ i, s.spool.totalCnt ≤ i → i < s'.spool.totalCnt → i ∈ s'.spool.free
  counter : s'.acceptingCnt = s.acceptingCnt

theorem Undone.refl (s : Acceptor n) : Undone s s := by
  refine ⟨rfl, rfl, fun i hle hlt => ?_, rfl⟩
  omega

theorem accept_cases (s : Acceptor n) (pends : Bool) :
    (s.isRelease = true ∧ s.accept pends = (false, s)) ∨
    (s.isRelease = false ∧ s.apool = [] ∧ s.accept pends = (false, s)) ∨
    (∃ aov apool, s.isRelease = false ∧ s.apool = aov :: apool ∧ s.spool.pop = (none, s.spool) ∧ s.accept pends = (false, s)) ∨
    ∃ aov apool i spool, s.isRelease = false ∧ s.apool = aov :: apool ∧ s.spool.pop = (some i, spool) ∧
      s.accept true = (true, { s with
        apool := apool
        spool := spool
        flying := (aov, i) :: s.flying
        acceptingCnt := add32 s.acceptingCnt 1 }) ∧
      s.accept false = (false, { s with apool := apool, spool := spool }) := by
  by_cases hr : s.isRelease = true
  · refine Or.inl ⟨hr, ?_⟩
    rw [accept, if_pos hr]
  · have running : s.isRelease = false := Bool.eq_false_iff.mpr hr
    refine Or.inr ?_
    cases hpool : s.apool with
    | nil =>
      refine Or.inl ⟨running, rfl, ?_⟩
      rw [accept, if_neg hr, hpool]
    | cons aov apool =>
      cases hpop : s.spool.pop with
      | mk got spool =>
        cases got with
        | none =>
          have hsame := SessionPool.pop_none hpop
          have hs : { s with apool := aov :: apool, spool := s.spool } = s := by rw [← hpool]
          refine Or.inr (Or.inl ⟨aov, apool, running, rfl, by rw [hsame], ?_⟩)
          rw [accept, if_neg hr, hpool, hpop, hsame]
          exact congrArg (Prod.mk false) hs
        | some i =>
          refine Or.inr (Or.inr ⟨aov, apool, i, spool, running, rfl, rfl, ?_, ?_⟩)
          · rw [accept, if_neg hr, hpool, hpop]
            rfl
          · rw [accept, if_neg hr, hpool, hpop]
            rfl

/-- A failed `accept` undoes what it did, unless its `AcceptEx` failed. -/
theorem accept_undone_iff (s : Acceptor n) (pends : Bool) :
    ((s.accept pends).1 = false → Undone s (s.accept pends).2) ↔ (s.Tries → pends = true) := by
  rcases s.accept_cases pends with ⟨hr, hcall⟩ | ⟨_, hempty, hcall⟩ | ⟨_, _, _, _, hpop, hcall⟩ |
    ⟨aov, apool, i, spool, hr, hpool, hpop, hdone, hfails⟩
  · rw [hcall]
    refine ⟨fun _ htries => ?_, fun _ _ => Undone.refl s⟩
    rw [htries.1] at hr
    cases hr
  · rw [hcall]
    exact ⟨fun _ htries => absurd hempty htries.2.1, fun _ _ => Undone.refl s⟩
  · rw [hcall]
    refine ⟨fun _ htries => absurd ?_ htries.2.2, fun _ _ => Undone.refl s⟩
    rw [hpop]
  · have htries : s.Tries := by
      refine ⟨hr, ?_, ?_⟩
      · rw [hpool]
        exact List.cons_ne_nil aov apool
      · rw [hpop]
        exact Option.some_ne_none i
    cases pends with
    | true =>
      rw [hdone]
      exact ⟨fun _ _ => rfl, fun _ h => by cases h⟩
    | false =>
      rw [hfails]
      refine ⟨fun h _ => ?_, fun h => absurd (h htries) Bool.false_ne_true⟩
      have hslots : apool = s.apool := (h rfl).slots
      rw [hpool] at hslots
      exact absurd hslots.symm (List.cons_ne_self aov apool)

theorem step_of_resumePC {t : Fin n} {event : Option (Nat × EventPC)} {pc : AcceptPC} {pends : Bool}
    (hth : s.thread t = ⟨event, pc⟩) (h : s.resumePC t event pends pc = some s') : s.step (.resume t pends) = some s' := by
  have hbusy : pc ≠ .idle := by
    intro hidle
    rw [hidle] at h
    cases h
  rw [Acceptor.step, resume, hth, if_neg hbusy, h]

/-- A thread that goes on until its `accept` is over has made the call. -/
theorem exec_accept {t : Fin n} {event : Option (Nat × EventPC)} {all pends : Bool}
    (hth : s.thread t = ⟨event, .accept all⟩) (hopen : pends = true → s.isOpen = true) :
    ∃ m, Machine.exec step s (List.replicate m (.resume t pends)) =
      some ((s.accept pends).2.move t ⟨event, if all && (s.accept pends).1 then .look else .idle⟩) := by
  have next : ∀ {u u' : Acceptor n} {pc : AcceptPC}, u.thread t = ⟨event, pc⟩ → u.resumePC t event pends pc = some u' →
      ∀ m, Machine.exec step u (List.replicate (m + 1) (.resume t pends)) =
        Machine.exec step u' (List.replicate m (.resume t pends)) := by
    intro u u' pc hu hstep m
    rw [List.replicate_succ, Machine.exec, step_of_resumePC hu hstep]
    rfl
  have moved : ∀ (u : Acceptor n) (th th' : AcceptThread), (u.move t th).move t th' = u.move t th' := by
    intro u th th'
    unfold move
    rw [Function.update_idem]
  have stands : ∀ (u : Acceptor n) (th : AcceptThread), (u.move t th).thread t = th := by
    intro u th
    exact Function.update_self _ _ _
  have first : s.isRelease = false → s.resumePC t event pends (.accept all) = some (s.move t ⟨event, .popSlot all⟩) := by
    intro hr
    rw [Acceptor.resumePC, hr]
    rfl
  have second : ∀ {aov apool}, s.apool = aov :: apool → (s.move t ⟨event, .popSlot all⟩).resumePC t event pends (.popSlot all) =
      some ({ s with apool := apool }.move t ⟨event, .popSession all aov⟩) := by
    intro aov apool hpool
    simp only [Acceptor.resumePC, moved]
    simp only [move, hpool]
  rcases s.accept_cases pends with ⟨hr, hcall⟩ | ⟨hr, hempty, hcall⟩ | ⟨aov, apool, hr, hpool, hpop, hcall⟩ |
    ⟨aov, apool, i, spool, hr, hpool, hpop, hdone, hfails⟩
  · refine ⟨1, ?_⟩
    rw [next hth rfl 0, hcall, if_pos hr, Bool.and_false]
    rfl
  · have hsecond : (s.move t ⟨event, .popSlot all⟩).resumePC t event pends (.popSlot all) = some (s.move t ⟨event, .idle⟩) := by
      simp only [Acceptor.resumePC, moved]
      simp only [move, hempty]
    refine ⟨2, ?_⟩
    rw [next hth (first hr) 1, next (stands _ _) hsecond 0, hcall, Bool.and_false]
    rfl
  · have hthird : ({ s with apool := apool }.move t ⟨event, .popSession all aov⟩).resumePC t event pends (.popSession all aov) =
        some ({ s with apool := apool }.move t ⟨event, .putBack aov⟩) := by
      simp only [Acceptor.resumePC, moved]
      simp only [move, hpop]
    have hfourth : ({ s with apool := apool }.move t ⟨event, .putBack aov⟩).resumePC t event pends (.putBack aov) =
        some (s.move t ⟨event, .idle⟩) := by
      simp only [Acceptor.resumePC, moved]
      simp only [move, ← hpool]
    refine ⟨4, ?_⟩
    rw [next hth (first hr) 3, next (stands _ _) (second hpool) 2, next (stands _ _) hthird 1, next (stands _ _) hfourth 0,
      hcall, Bool.and_false]
    rfl
  · have hthird : ({ s with apool := apool }.move t ⟨event, .popSession all aov⟩).resumePC t event pends (.popSession all aov) =
        some ({ s with apool := apool, spool := spool }.move t ⟨event, .acceptex all aov i⟩) := by
      simp only [Acceptor.resumePC, moved]
      simp only [move, hpop]
    cases pends with
    | false =>
      refine ⟨4, ?_⟩
      rw [next hth (first hr) 3, next (stands _ _) (second hpool) 2, next (stands _ _) hthird 1, next (stands _ _) rfl 0, moved,
        hfails, Bool.and_false]
      rfl
    | true =>
      have hfourth : ({ s with apool := apool, spool := spool }.move t ⟨event, .acceptex all aov i⟩).resumePC t event true
          (.acceptex all aov i) = some ({ s with apool := apool, spool := spool, flying := (aov, i) :: s.flying }.move t
            ⟨event, .count all aov⟩) := by
        simp only [Acceptor.resumePC, moved]
        simp only [move, hopen rfl, if_true]
      refine ⟨5, ?_⟩
      rw [next hth (first hr) 4, next (stands _ _) (second hpool) 3, next (stands _ _) hthird 2, next (stands _ _) hfourth 1,
        next (stands _ _) rfl 0, moved, hdone, Bool.and_true]
      rfl

/-- The slots there are. -/
def slotCnt (s : Acceptor n) : Nat :=
  s.apool.length + s.flying.length + s.deleted.length + total AcceptThread.slotCnt s.thread

/-- The sessions that are free, in an `AcceptEx`, connected or in the hands of a thread. -/
def sessionCnt (s : Acceptor n) : Nat :=
  s.spool.free.length + s.flying.length + s.accepted.length + total AcceptThread.sessionCnt s.thread

/-- What an `AcceptEx` that fails at once costs. -/
def losses (s : Acceptor n) : AcceptOp n → Nat
  | .resume t pends => if (s.thread t).pc.posts = true ∧ pends = false then 1 else 0
  | _ => 0

/-- `k` slots and `k` sessions are nowhere any more. -/
structure Spent (acceptCnt : Nat) (s : Acceptor n) (k : Nat) : Prop where
  slots : s.slotCnt + k = acceptCnt
  sessions : s.sessionCnt + k = s.spool.totalCnt

theorem losses_eq_zero (s : Acceptor n) (op : AcceptOp n) : s.losses op = 0 ↔ s.Pends op := by
  cases op with
  | resume t pends =>
    change (if (s.thread t).pc.posts = true ∧ pends = false then 1 else 0) = 0 ↔ ((s.thread t).pc.posts = true → pends = true)
    cases pends with
    | true => simp
    | false => simp
  | _ => exact ⟨fun _ => trivial, fun _ => rfl⟩

/-- A step of one thread. -/
theorem Spent.moved (h : Spent acceptCnt s k) {t : Fin n} {th : AcceptThread} (ht : s'.thread = Function.update s.thread t th)
    (w : Nat)
    (slots : s'.apool.length + s'.flying.length + s'.deleted.length + th.slotCnt + w =
      s.apool.length + s.flying.length + s.deleted.length + (s.thread t).slotCnt)
    (sessions : s'.spool.free.length + s'.flying.length + s'.accepted.length + th.sessionCnt + w + s.spool.totalCnt =
      s.spool.free.length + s.flying.length + s.accepted.length + (s.thread t).sessionCnt + s'.spool.totalCnt) :
    Spent acceptCnt s' (k + w) := by
  have hslots := total_update AcceptThread.slotCnt s.thread t th
  have hsessions := total_update AcceptThread.sessionCnt s.thread t th
  rw [← ht] at hslots hsessions
  obtain ⟨hslotCnt, hsessionCnt⟩ := h
  unfold slotCnt at hslotCnt
  unfold sessionCnt at hsessionCnt
  refine ⟨?_, ?_⟩
  · unfold slotCnt
    omega
  · unfold sessionCnt
    omega

theorem Spent.resumePC (h : Spent acceptCnt s k) {t : Fin n} {event : Option (Nat × EventPC)} {pc : AcceptPC} {pends : Bool}
    (hth : s.thread t = ⟨event, pc⟩) (hs : s.resumePC t event pends pc = some s') :
    Spent acceptCnt s' (k + if pc.posts = true ∧ pends = false then 1 else 0) := by
  -- a step that only moves on in the code
  have goes : ∀ (pc' : AcceptPC), held pc'.slot = held pc.slot → held pc'.session = held pc.session →
      Spent acceptCnt (s.move t ⟨event, pc'⟩) (k + 0) := by
    intro pc' hslot hsession
    refine h.moved (t := t) rfl 0 ?_ ?_
    · rw [hth]
      unfold AcceptThread.slotCnt
      rw [hslot]
      rfl
    · rw [hth]
      unfold AcceptThread.sessionCnt
      rw [hsession]
      rfl
  cases pc with
  | idle => cases hs
  | disconnected i =>
    cases Option.some.inj hs
    exact h.moved (t := t) rfl 0 (by rw [hth]; rfl) (by rw [hth]; rfl)
  | giveBack i =>
    cases Option.some.inj hs
    refine h.moved (t := t) rfl 0 (by rw [hth]; rfl) ?_
    rw [hth]
    simp only [move, AcceptThread.sessionCnt, AcceptPC.session, SessionPool.push, List.length_cons, held_none, held_some]
    omega
  | acceptAll =>
    cases Option.some.inj hs
    exact goes _ (by split <;> rfl) (by split <;> rfl)
  | look =>
    cases Option.some.inj hs
    exact goes _ (by split <;> rfl) (by split <;> rfl)
  | accept all =>
    cases Option.some.inj hs
    exact goes _ (by split <;> rfl) (by split <;> rfl)
  | popSlot all =>
    rcases popSlot_cases hs with ⟨_, rfl⟩ | ⟨aov, apool, hpool, rfl⟩
    · exact goes _ rfl rfl
    · refine h.moved (t := t) rfl 0 ?_ (by rw [hth]; rfl)
      rw [hth, hpool, List.length_cons]
      simp only [move, AcceptThread.slotCnt, AcceptThread.inEvent, AcceptPC.slot, held_none, held_some]
      omega
  | popSession all aov =>
    rcases popSession_cases hs with ⟨_, rfl⟩ | ⟨i, spool, hpop, rfl⟩
    · exact goes _ rfl rfl
    · refine h.moved (t := t) rfl 0 (by rw [hth]; rfl) ?_
      have hcnt := SessionPool.pop_counts hpop
      rw [hth]
      simp only [move, AcceptThread.sessionCnt, AcceptPC.session, held_none, held_some]
      omega
  | putBack aov =>
    cases Option.some.inj hs
    refine h.moved (t := t) rfl 0 ?_ (by rw [hth]; rfl)
    rw [hth, List.length_cons]
    simp only [move, AcceptThread.slotCnt, AcceptThread.inEvent, AcceptPC.slot, held_none, held_some]
    omega
  | acceptex all aov i =>
    rcases acceptex_cases hs with ⟨rfl, _, rfl⟩ | ⟨rfl, rfl⟩
    · refine h.moved (t := t) rfl 0 ?_ ?_
      · rw [hth, List.length_cons]
        simp only [move, AcceptThread.slotCnt, AcceptThread.inEvent, AcceptPC.slot, held_none, held_some]
        omega
      · rw [hth, List.length_cons]
        simp only [move, AcceptThread.sessionCnt, AcceptPC.session, held_none, held_some]
        omega
    · exact h.moved (t := t) rfl 1 (by rw [hth]; rfl) (by rw [hth]; exact Nat.add_right_cancel_iff.mpr rfl)
  | count all aov =>
    cases Option.some.inj hs
    refine h.moved (t := t) rfl 0 ?_ ?_
    · rw [hth]
      unfold AcceptThread.slotCnt
      split <;> rfl
    · rw [hth]
      unfold AcceptThread.sessionCnt
      split <;> rfl

theorem Spent.resumeEvent (h : Spent acceptCnt s k) {t : Fin n} {aov : Nat} {e : EventPC}
    (hth : s.thread t = ⟨some (aov, e), .idle⟩) : Spent acceptCnt (s.resumeEvent t aov e) k := by
  cases e with
  | failed i =>
    refine h.moved (t := t) rfl 0 (by rw [hth]; rfl) ?_
    rw [hth]
    simp only [Acceptor.resumeEvent, move, AcceptThread.sessionCnt, AcceptPC.session, EventPC.session, SessionPool.push,
      List.length_cons, Option.bind_some, held_none, held_some]
    omega
  | report =>
    refine h.moved (t := t) rfl 0 ?_ ?_
    · rw [hth]
      rfl
    · rw [hth]
      unfold AcceptThread.sessionCnt
      split <;> rfl
  | succeeded i =>
    refine h.moved (t := t) rfl 0 (by rw [hth]; rfl) ?_
    rw [hth]
    simp only [Acceptor.resumeEvent, move, AcceptThread.sessionCnt, AcceptPC.session, EventPC.session, List.length_cons,
      Option.bind_some, held_none, held_some]
    omega
  | callback => exact h.moved (t := t) rfl 0 (by rw [hth]; rfl) (by rw [hth]; rfl)
  | uncount => exact h.moved (t := t) rfl 0 (by rw [hth]; rfl) (by rw [hth]; rfl)
  | pushSlot =>
    refine h.moved (t := t) rfl 0 ?_ (by rw [hth]; rfl)
    rw [hth]
    simp only [Acceptor.resumeEvent, move, AcceptThread.slotCnt, AcceptThread.inEvent, AcceptPC.slot, List.length_cons,
      Option.map_none, Option.map_some, held_none, held_some]
    omega

theorem Spent.stop (h : Spent acceptCnt s k) (hs : s.stop = some s') : Spent acceptCnt s' k := by
  cases stop_cases hs with
  | delete _ pool =>
    refine ⟨?_, h.sessions⟩
    have hslots := h.slots
    unfold slotCnt at hslots ⊢
    rw [pool, List.length_cons] at hslots
    dsimp only
    rw [List.length_cons]
    omega
  | _ => exact ⟨h.slots, h.sessions⟩

/-- No step creates or loses a slot or a session, apart from an `AcceptEx` that fails at once. -/
theorem Spent.step (h : Spent acceptCnt s k) {op : AcceptOp n} (hs : s.step op = some s') :
    Spent acceptCnt s' (k + s.losses op) := by
  cases op with
  | acceptAll t =>
    obtain ⟨hidle, rfl⟩ := step_acceptAll hs
    exact h.moved (t := t) rfl 0 (by rw [hidle]; rfl) (by rw [hidle]; rfl)
  | accept t =>
    obtain ⟨hidle, rfl⟩ := step_accept hs
    exact h.moved (t := t) rfl 0 (by rw [hidle]; rfl) (by rw [hidle]; rfl)
  | disconnected t i =>
    obtain ⟨hidle, hmem, rfl⟩ := step_disconnected hs
    have hlen := List.length_erase_of_mem hmem
    have hpos := List.length_pos_of_mem hmem
    refine h.moved (t := t) rfl 0 ?_ ?_
    · rw [hidle]
      rfl
    · rw [hidle]
      simp only [move, AcceptThread.sessionCnt, AcceptPC.session, held_none, held_some]
      omega
  | complete t aov i err =>
    obtain ⟨hidle, hmem, rfl⟩ := step_complete hs
    have hlen := List.length_erase_of_mem hmem
    have hpos := List.length_pos_of_mem hmem
    have hsession : held ((if err ≠ 0 then EventPC.failed i else EventPC.succeeded i).session) = 1 := by split <;> rfl
    refine h.moved (t := t) rfl 0 ?_ ?_
    · rw [hidle]
      simp only [move, AcceptThread.slotCnt, AcceptThread.inEvent, AcceptPC.slot, Option.map_none, Option.map_some, held_none,
        held_some]
      omega
    · rw [hidle]
      simp only [move, AcceptThread.sessionCnt, AcceptPC.session, Option.bind_none, Option.bind_some, held_none, hsession]
      omega
  | resume t p =>
    rcases step_resume hs with ⟨aov, e, hth, rfl⟩ | ⟨_, hpc⟩
    · have hnone : s.losses (.resume t p) = 0 := by
        rw [losses, hth]
        rfl
      rw [hnone]
      exact h.resumeEvent hth
    · exact h.resumePC rfl hpc
  | uninit => exact h.stop hs

theorem spent_start (listener : Fin n) (acceptCnt preCnt incCnt maxCnt : Nat) :
    Spent acceptCnt (start listener acceptCnt preCnt incCnt maxCnt) 0 := by
  have idle : ∀ w : AcceptThread → Nat, w ⟨none, .idle⟩ = 0 → w ⟨none, .acceptAll⟩ = 0 →
      total w (start listener acceptCnt preCnt incCnt maxCnt).thread = 0 := by
    intro w hidle hall
    refine total_eq_zero fun t => ?_
    have hthread : (start listener acceptCnt preCnt incCnt maxCnt).thread =
      Function.update (fun _ => ⟨none, .idle⟩) listener ⟨none, .acceptAll⟩ := rfl
    rw [hthread]
    by_cases ht : t = listener
    · rw [ht, Function.update_self]
      exact hall
    · rw [Function.update_of_ne ht]
      exact hidle
  refine ⟨?_, ?_⟩
  · unfold slotCnt
    rw [idle AcceptThread.slotCnt rfl rfl]
    simp [start]
  · unfold sessionCnt
    rw [idle AcceptThread.sessionCnt rfl rfl]
    simp [start, SessionPool.init, SessionPool.create]

/-- A run has lost as many slots and as many sessions as `AcceptEx`s failed at once in it. -/
theorem exec_spent {listener : Fin n} {preCnt incCnt maxCnt : Nat} {ops : List (AcceptOp n)}
    (run : Machine.exec step (start listener acceptCnt preCnt incCnt maxCnt) ops = some s) :
    Spent acceptCnt s (Machine.tally step losses (start listener acceptCnt preCnt incCnt maxCnt) ops) := by
  have hspent := Machine.exec_tally (R := Spent acceptCnt) (fun s k op s' h hs => h.step hs)
    (spent_start listener acceptCnt preCnt incCnt maxCnt) run
  rw [Nat.zero_add] at hspent
  exact hspent

/-- In every state an `accept` that returns `false` has undone what it did unless it came to an `AcceptEx` that
failed, and over a run all slots and sessions are kept just when no `AcceptEx` fails at once. -/
theorem failed_accepts_iff {listener : Fin n} {preCnt incCnt maxCnt : Nat} {ops : List (AcceptOp n)}
    (run : Machine.exec step (start listener acceptCnt preCnt incCnt maxCnt) ops = some s) :
    (∀ pends, ((s.accept pends).1 = false → Undone s (s.accept pends).2) ↔ (s.Tries → pends = true)) ∧
      (s.slotCnt = acceptCnt ∧ s.sessionCnt = s.spool.totalCnt ↔
        Machine.Along step Pends (start listener acceptCnt preCnt incCnt maxCnt) ops) := by
  refine ⟨accept_undone_iff s, ?_⟩
  have hspent := exec_spent run
  rw [← Machine.tally_eq_zero losses_eq_zero]
  refine ⟨fun h => ?_, fun hz => ?_⟩
  · have hslots := hspent.slots
    rw [h.1] at hslots
    exact Nat.add_eq_left.mp hslots
  · rw [hz] at hspent
    exact ⟨hspent.slots, hspent.sessions⟩

/-- One of two accepts completes with an error, and its slot and session are used again. -/
def aborted (t u : Fin n) : List (AcceptOp n) :=
  List.replicate 14 (.resume t true) ++ [.complete u 1 0 64] ++ List.replicate 10 (.resume u true)

theorem failed_accepts_iff_sample :
    ∃ s, Machine.exec step (start (0 : Fin 2) 2 1 1 2) (aborted 0 1) = some s ∧ s.Quiet ∧ s.flying = [(1, 0), (0, 1)] ∧
      s.slotCnt = 2 ∧ s.sessionCnt = s.spool.totalCnt := by
  have run : (Machine.exec step (start (0 : Fin 2) 2 1 1 2) (aborted 0 1)).map (fun s => (decide s.Quiet, s.flying)) =
      some (true, [(1, 0), (0, 1)]) := by decide +kernel
  obtain ⟨s, run, hs⟩ := Option.map_eq_some_iff.mp run
  simp only [Prod.mk.injEq, decide_eq_true_eq] at hs
  have pends : Machine.Along step Pends (start (0 : Fin 2) 2 1 1 2) (aborted 0 1) := by decide +kernel
  exact ⟨s, run, hs.1, hs.2, (failed_accepts_iff run).2.mpr pends⟩

/-- The only `AcceptEx` of a server fails at once, and neither a slot nor a session is left. -/
theorem failed_accept_leaks :
    (∃ s, Machine.exec step (start (0 : Fin 1) 1 1 0 1) [.resume 0 true, .resume 0 true] = some s ∧
      ¬((s.accept false).1 = false → Undone s (s.accept false).2)) ∧
    ∃ s, Machine.exec step (start (0 : Fin 1) 1 1 0 1) (List.replicate 6 (.resume 0 false)) = some s ∧ s.Quiet ∧
      s.isRelease = false ∧ s.slotCnt = 0 ∧ s.sessionCnt = 0 ∧ s.spool.totalCnt = 1 := by
  refine ⟨?_, ?_⟩
  · have run : (Machine.exec step (start (0 : Fin 1) 1 1 0 1) [.resume 0 true, .resume 0 true]).map
        (fun s => (s.isRelease, s.apool, s.spool.pop.1, (s.accept false).1)) = some (false, [0], some 0, false) := by decide +kernel
    obtain ⟨s, run, hs⟩ := Option.map_eq_some_iff.mp run
    simp only [Prod.mk.injEq] at hs
    obtain ⟨hr, hpool, hpop, _⟩ := hs
    refine ⟨s, run, fun h => Bool.false_ne_true ((accept_undone_iff s false).mp h ⟨hr, ?_, ?_⟩)⟩
    · rw [hpool]
      exact List.cons_ne_nil 0 []
    · rw [hpop]
      exact Option.some_ne_none 0
  · have run : (Machine.exec step (start (0 : Fin 1) 1 1 0 1) (List.replicate 6 (.resume 0 false))).map
        (fun s => (decide s.Quiet, s.isRelease, s.slotCnt, s.sessionCnt, s.spool.totalCnt)) = some (true, false, 0, 0, 1) := by
      decide +kernel
    obtain ⟨s, run, hs⟩ := Option.map_eq_some_iff.mp run
    simp only [Prod.mk.injEq, decide_eq_true_eq] at hs
    exact ⟨s, run, hs⟩

end Acceptor

end Ven
