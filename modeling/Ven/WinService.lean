import Ven.Machine

namespace Ven

/-- What `dwCurrentState` can be. -/
inductive ServiceState
  | stopped
  | startPending
  | stopPending
  | running
deriving DecidableEq

/-- The constants `SERVICE_STOPPED` and so on. -/
def ServiceState.value : ServiceState → Nat
  | .stopped => 1
  | .startPending => 2
  | .stopPending => 3
  | .running => 4

/-- `SERVICE_CONTROL_STOP` -/
def serviceControlStop : Nat := 1

/-- A call of an `Event`, with what it returned. -/
inductive ServiceCall
  | init (ret : Bool)
  | running (ret : Bool)
  | uninit
deriving DecidableEq

/-- Where `service_main` stands; `set_state` first reports the state and then stores it. -/
inductive ServicePC
  | register
  | setting (state : ServiceState) (reported : Bool)
  | init
  | check
  | running
  | key
  | uninit (stops : Bool)
  | done
deriving DecidableEq

/-- Where the control handler stands. It calls `set_state` for the `states` one after the other. -/
inductive HandlerPC
  | idle
  | entered (control : Nat)
  | passed (control : Nat)
  | setting (states : List ServiceState) (reported : Bool)
deriving DecidableEq

/-- `Conf` and the two threads that use it. The last two fields are history: the calls of the `Event` and the states
reported. -/
structure WinService where
  hasConsole : Bool
  registered : Bool
  state : ServiceState
  main : ServicePC
  handler : HandlerPC
  calls : List ServiceCall
  reports : List ServiceState
deriving DecidableEq

namespace WinService

/-- `ret` is what a call of the step returns: whether the handler could be registered, what the `Event` says, and
whether no ESC was pressed. -/
inductive Op
  | main (ret : Bool)
  | control (control : Nat)
  | handler
deriving DecidableEq

def report (s : WinService) (state : ServiceState) : WinService :=
  if s.hasConsole then s else { s with reports := s.reports ++ [state] }

/-- Where `service_main` goes on after `set_state`. -/
def after : ServiceState → ServicePC
  | .startPending => .init
  | .running => .check
  | _ => .done

def stepMain (s : WinService) (ret : Bool) : Option WinService :=
  match s.main with
  | .register =>
    some (if s.hasConsole then { s with main := .setting .startPending false }
      else if ret then { s with registered := true, main := .setting .startPending false }
      else { s with main := .uninit false })
  | .setting state false => some { s.report state with main := .setting state true }
  | .setting state true => some { s with state := state, main := after state }
  | .init => some { s with calls := s.calls ++ [.init ret], main := if ret then .setting .running false else .uninit false }
  | .check => some { s with main := if s.state = .running then .running else .uninit true }
  | .running =>
    some { s with
      calls := s.calls ++ [.running ret]
      main := if ret then if s.hasConsole then .key else .check else .uninit true }
  | .key => some { s with main := if ret then .check else .uninit true }
  | .uninit stops => some { s with calls := s.calls ++ [.uninit], main := if stops then .setting .stopped false else .done }
  | .done => none

def stepHandler (s : WinService) : Option WinService :=
  match s.handler with
  | .entered control => some { s with handler := if s.state.value = control then .idle else .passed control }
  | .passed control =>
    some { s with handler := .setting (if control = serviceControlStop then [.stopPending, .stopped] else [s.state]) false }
  | .setting (state :: states) false => some { s.report state with handler := .setting (state :: states) true }
  | .setting (state :: states) true =>
    some { s with state := state, handler := if states = [] then .idle else .setting states false }
  | _ => none

/-- The controls come one after the other, in one thread. -/
def step (s : WinService) : Op → Option WinService
  | .main ret => s.stepMain ret
  | .control control =>
    if s.registered = true ∧ s.handler = .idle then some { s with handler := .entered control } else none
  | .handler => s.stepHandler

/-- As `service_main` is called. -/
def start (hasConsole : Bool) : WinService := ⟨hasConsole, false, .stopped, .register, .idle, [], []⟩

end WinService

/-- The calls of an `Event` from the first to the last. -/
inductive ServiceLife : List ServiceCall → Prop
  | unregistered : ServiceLife [.uninit]
  | refused : ServiceLife [.init false, .uninit]
  | stopped (n : Nat) : ServiceLife (.init true :: (List.replicate n (.running true) ++ [.uninit]))
  | failed (n : Nat) : ServiceLife (.init true :: (List.replicate n (.running true) ++ [.running false, .uninit]))

namespace WinService

variable {s s' : WinService}

/-- The calls so far, as far as `service_main` has come. -/
def Calls : ServicePC → List ServiceCall → Prop
  | .register, calls | .setting .startPending _, calls | .init, calls => calls = []
  | .setting .running _, calls => calls = [.init true]
  | .check, calls | .running, calls | .key, calls => ∃ n, calls = .init true :: List.replicate n (.running true)
  | .uninit false, calls => calls = [] ∨ calls = [.init false]
  | .uninit true, calls => ServiceLife (calls ++ [.uninit]) ∧ calls ≠ []
  | .setting .stopped _, calls => ServiceLife calls
  | .done, calls => ServiceLife calls
  | .setting .stopPending _, _ => False

theorem calls_worked {n : Nat} {calls : List ServiceCall} (h : calls = .init true :: List.replicate n (.running true)) :
    Calls (.uninit true) calls := by
  subst h
  exact ⟨.stopped n, List.cons_ne_nil _ _⟩

theorem replicate_snoc {n : Nat} {calls : List ServiceCall} (h : calls = .init true :: List.replicate n (.running true)) :
    calls ++ [.running true] = .init true :: List.replicate (n + 1) (.running true) := by
  rw [h, List.replicate_succ', List.cons_append]

/-- A step of `service_main` makes at most one call. -/
theorem calls_stepMain (h : Calls s.main s.calls) {ret : Bool} (hs : s.stepMain ret = some s') :
    Calls s'.main s'.calls := by
  have hreport : ∀ state, (s.report state).calls = s.calls := fun state => by
    unfold report
    split <;> rfl
  unfold stepMain at hs
  split at hs
  next hpc =>
    cases Option.some.inj hs
    rw [hpc] at h
    split
    next => exact h
    next =>
      split
      next => exact h
      next => exact Or.inl h
  next state hpc =>
    cases Option.some.inj hs
    rw [hpc] at h
    change Calls (.setting state true) (s.report state).calls
    rw [hreport]
    cases state with
    | stopPending => exact h
    | _ => exact h
  next state hpc =>
    cases Option.some.inj hs
    rw [hpc] at h
    cases state with
    | stopped => exact h
    | startPending => exact h
    | stopPending => exact h.elim
    | running => exact ⟨0, h⟩
  next hpc =>
    cases Option.some.inj hs
    rw [hpc] at h
    have hnil : s.calls = [] := h
    cases ret with
    | true => exact congrArg (· ++ [.init true]) hnil
    | false => exact Or.inr (congrArg (· ++ [.init false]) hnil)
  next hpc =>
    cases Option.some.inj hs
    rw [hpc] at h
    obtain ⟨n, hn⟩ := h
    dsimp only
    split
    next => exact ⟨n, hn⟩
    next => exact calls_worked hn
  next hpc =>
    cases Option.some.inj hs
    rw [hpc] at h
    obtain ⟨n, hn⟩ := h
    cases ret with
    | true =>
      have hnext : Calls (if s.hasConsole then .key else .check) (s.calls ++ [.running true]) := by
        cases s.hasConsole with
        | true => exact ⟨n + 1, replicate_snoc hn⟩
        | false => exact ⟨n + 1, replicate_snoc hn⟩
      exact hnext
    | false =>
      refine ⟨?_, List.append_ne_nil_of_right_ne_nil _ (List.cons_ne_nil _ _)⟩
      rw [hn, List.append_assoc]
      exact .failed n
  next hpc =>
    cases Option.some.inj hs
    rw [hpc] at h
    obtain ⟨n, hn⟩ := h
    cases ret with
    | true => exact ⟨n, hn⟩
    | false => exact calls_worked hn
  next stops hpc =>
    cases Option.some.inj hs
    rw [hpc] at h
    cases stops with
    | true => exact h.1
    | false =>
      change ServiceLife (s.calls ++ [.uninit])
      rcases h with hnil | hinit
      · rw [hnil]
        exact .unregistered
      · rw [hinit]
        exact .refused
  next => cases hs

/-- The handler never calls the `Event`, and leaves `service_main` where it is. -/
theorem stepHandler_leaves (hs : s.stepHandler = some s') :
    s'.main = s.main ∧ s'.calls = s.calls ∧ s'.hasConsole = s.hasConsole ∧ s'.registered = s.registered := by
  have hreport : ∀ state, (s.report state).main = s.main ∧ (s.report state).calls = s.calls ∧
      (s.report state).hasConsole = s.hasConsole ∧ (s.report state).registered = s.registered := fun state => by
    unfold report
    split <;> exact ⟨rfl, rfl, rfl, rfl⟩
  unfold stepHandler at hs
  split at hs
  next =>
    cases Option.some.inj hs
    exact ⟨rfl, rfl, rfl, rfl⟩
  next =>
    cases Option.some.inj hs
    exact ⟨rfl, rfl, rfl, rfl⟩
  next state states _ =>
    cases Option.some.inj hs
    exact hreport state
  next =>
    cases Option.some.inj hs
    exact ⟨rfl, rfl, rfl, rfl⟩
  next => cases hs

theorem calls_step (h : Calls s.main s.calls) {op : Op} (hs : s.step op = some s') : Calls s'.main s'.calls := by
  cases op with
  | main ret => exact calls_stepMain h hs
  | control control =>
    simp only [step] at hs
    split at hs
    next =>
      cases Option.some.inj hs
      exact h
    next => cases hs
  | handler =>
    obtain ⟨hmain, hcalls, _⟩ := stepHandler_leaves hs
    rw [hmain, hcalls]
    exact h

/-- They can always become the calls of a whole life. -/
theorem Calls.begun {pc : ServicePC} {calls : List ServiceCall} (h : Calls pc calls) :
    ∃ life, ServiceLife life ∧ calls <+: life := by
  have worked : ∀ n, calls = .init true :: List.replicate n (.running true) → ∃ life, ServiceLife life ∧ calls <+: life := by
    rintro n rfl
    exact ⟨_, .stopped n, ⟨[.uninit], rfl⟩⟩
  have none : calls = [] → ∃ life, ServiceLife life ∧ calls <+: life := by
    rintro rfl
    exact ⟨_, .unregistered, List.nil_prefix⟩
  cases pc with
  | register | init => exact none h
  | setting state reported =>
    cases state with
    | startPending => exact none h
    | running => exact worked 0 h
    | stopped => exact ⟨calls, h, List.prefix_refl _⟩
    | stopPending => exact h.elim
  | check | running | key =>
    obtain ⟨n, hn⟩ := h
    exact worked n hn
  | uninit stops =>
    cases stops with
    | true => exact ⟨_, h.1, List.prefix_append _ _⟩
    | false =>
      rcases h with hnil | rfl
      · exact none hnil
      · exact ⟨_, .refused, ⟨[.uninit], rfl⟩⟩
  | done => exact ⟨calls, h, List.prefix_refl _⟩

theorem ServiceLife.uninit_last {calls : List ServiceCall} (h : ServiceLife calls) :
    ∃ before, calls = before ++ [.uninit] ∧ .uninit ∉ before := by
  cases h with
  | unregistered => exact ⟨[], rfl, List.not_mem_nil⟩
  | refused => exact ⟨[.init false], rfl, by decide⟩
  | stopped n =>
    refine ⟨_, (List.cons_append).symm, fun hin => ?_⟩
    rcases List.mem_cons.mp hin with hin | hin
    · cases hin
    · cases List.eq_of_mem_replicate hin
  | failed n =>
    refine ⟨.init true :: (List.replicate n (.running true) ++ [.running false]), by simp, fun hin => ?_⟩
    rcases List.mem_cons.mp hin with hin | hin
    · cases hin
    · rcases List.mem_append.mp hin with hin | hin
      · cases List.eq_of_mem_replicate hin
      · cases List.mem_singleton.mp hin

/-- Whatever controls arrive, and whenever: the calls of the `Event` are `on_init`, `on_running` as long as it returns
true, and `on_uninit`, at the end and once. -/
theorem event_life {hasConsole : Bool} {ops : List Op} (run : Machine.exec step (start hasConsole) ops = some s) :
    (∃ life, ServiceLife life ∧ s.calls <+: life) ∧ (s.main = .done → ServiceLife s.calls) ∧
      (.uninit ∈ s.calls → s.main = .done ∨ ∃ reported, s.main = .setting .stopped reported) := by
  have hstart : Calls (start hasConsole).main (start hasConsole).calls := rfl
  have h : Calls s.main s.calls :=
    Machine.exec_invariant (fun s op s' (h : Calls s.main s.calls) hs => calls_step h hs) hstart run
  refine ⟨h.begun, fun hdone => by rwa [hdone] at h, fun hin => ?_⟩
  have worked : ∀ n, s.calls = .init true :: List.replicate n (.running true) → False := by
    intro n hn
    rw [hn] at hin
    rcases List.mem_cons.mp hin with hin | hin
    · cases hin
    · cases List.eq_of_mem_replicate hin
  cases hpc : s.main with
  | done => exact Or.inl rfl
  | register | init =>
    rw [hpc] at h
    have hnil : s.calls = [] := h
    rw [hnil] at hin
    cases hin
  | setting state reported =>
    rw [hpc] at h
    cases state with
    | stopped => exact Or.inr ⟨reported, rfl⟩
    | startPending =>
      have hnil : s.calls = [] := h
      rw [hnil] at hin
      cases hin
    | running => exact (worked 0 h).elim
    | stopPending => exact h.elim
  | check | running | key =>
    rw [hpc] at h
    obtain ⟨n, hn⟩ := h
    exact (worked n hn).elim
  | uninit stops =>
    rw [hpc] at h
    cases stops with
    | true =>
      obtain ⟨before, hbefore, hnot⟩ := ServiceLife.uninit_last h.1
      have hcalls : s.calls = before := List.append_cancel_right hbefore
      rw [hcalls] at hin
      exact absurd hin hnot
    | false =>
      rcases h with hnil | hinit
      · rw [hnil] at hin
        cases hin
      · rw [hinit] at hin
        cases List.mem_singleton.mp hin

/-- A service that is told to stop. -/
theorem event_life_sample :
    ∃ s, Machine.exec step (start false)
      [.main true, .main true, .main true, .main true, .main true, .main true, .main true, .main true, .control 1,
        .handler, .handler, .handler, .handler, .handler, .handler, .main true, .main true, .main true, .main true] =
        some s ∧
      s.calls = [.init true, .running true, .uninit] ∧ ServiceLife s.calls := by
  have run : ∃ s, Machine.exec step (start false)
      [.main true, .main true, .main true, .main true, .main true, .main true, .main true, .main true, .control 1,
        .handler, .handler, .handler, .handler, .handler, .handler, .main true, .main true, .main true, .main true] =
        some s ∧
      s.calls = [.init true, .running true, .uninit] ∧ s.main = .done := ⟨_, rfl, rfl, rfl⟩
  obtain ⟨s, run, hcalls, hdone⟩ := run
  exact ⟨s, run, hcalls, (event_life run).2.1 hdone⟩

/-- `set_state(SERVICE_RUNNING)` is over, or will not be called any more. -/
def launched : ServicePC → Bool
  | .register | .setting .startPending _ | .init | .setting .running _ => false
  | _ => true

/-- How often `on_running` has been called. -/
def turns (s : WinService) : Nat :=
  s.calls.countP fun call => match call with
    | .running _ => true
    | _ => false

/-- Nobody is about to store `SERVICE_RUNNING`. -/
structure Quiet (s : WinService) : Prop where
  state : s.state ≠ .running
  main : launched s.main = true
  handler : ∀ states reported, s.handler = .setting states reported → .running ∉ states

/-- `service_main` may be on its way into `on_running`. -/
def pending (s : WinService) : Nat := if s.main = .running then 1 else 0

theorem report_leaves (s : WinService) (state : ServiceState) :
    (s.report state).state = s.state ∧ (s.report state).handler = s.handler ∧ (s.report state).turns = s.turns ∧
      (s.report state).main = s.main := by
  unfold report
  split <;> exact ⟨rfl, rfl, rfl, rfl⟩

theorem Quiet.stepMain (q : Quiet s) {ret : Bool} (hs : s.stepMain ret = some s') :
    Quiet s' ∧ s'.turns + s'.pending ≤ s.turns + s.pending := by
  have hmain := q.main
  unfold WinService.stepMain at hs
  split at hs
  next hpc =>
    rw [hpc] at hmain
    cases hmain
  next state hpc =>
    cases Option.some.inj hs
    rw [hpc] at hmain
    obtain ⟨hstate, hhandler, hturns, _⟩ := report_leaves s state
    refine ⟨⟨hstate ▸ q.state, ?_, fun states reported hh => q.handler states reported (hhandler ▸ hh)⟩, ?_⟩
    · cases state with
      | stopped => rfl
      | stopPending => rfl
      | _ => cases hmain
    · change (s.report state).turns + 0 ≤ _
      rw [hturns]
      omega
  next state hpc =>
    cases Option.some.inj hs
    rw [hpc] at hmain
    have hle : s.turns + 0 ≤ s.turns + s.pending := Nat.add_le_add_left (Nat.zero_le _) _
    cases state with
    | stopped => exact ⟨⟨nofun, rfl, q.handler⟩, hle⟩
    | stopPending => exact ⟨⟨nofun, rfl, q.handler⟩, hle⟩
    | _ => cases hmain
  next hpc =>
    rw [hpc] at hmain
    cases hmain
  next hpc =>
    cases Option.some.inj hs
    rw [if_neg q.state]
    exact ⟨⟨q.state, rfl, q.handler⟩, Nat.add_le_add_left (Nat.zero_le _) _⟩
  next hpc =>
    cases Option.some.inj hs
    have hone : s.pending = 1 := if_pos hpc
    have hturns : ∀ next, ({ s with calls := s.calls ++ [.running ret], main := next } : WinService).turns = s.turns + 1 :=
      fun next => List.countP_append.trans rfl
    have hnext : ∀ next, launched next = true → next ≠ .running →
        Quiet { s with calls := s.calls ++ [.running ret], main := next } ∧
          ({ s with calls := s.calls ++ [.running ret], main := next } : WinService).turns +
            ({ s with calls := s.calls ++ [.running ret], main := next } : WinService).pending ≤ s.turns + s.pending := by
      intro next hlaunched hne
      refine ⟨⟨q.state, hlaunched, q.handler⟩, ?_⟩
      have hzero : ({ s with calls := s.calls ++ [.running ret], main := next } : WinService).pending = 0 := if_neg hne
      exact Nat.le_of_eq (by rw [hturns, hzero, hone])
    split
    next =>
      split
      next => exact hnext _ rfl nofun
      next => exact hnext _ rfl nofun
    next => exact hnext _ rfl nofun
  next hpc =>
    cases Option.some.inj hs
    split
    next => exact ⟨⟨q.state, rfl, q.handler⟩, Nat.add_le_add_left (Nat.zero_le _) _⟩
    next => exact ⟨⟨q.state, rfl, q.handler⟩, Nat.add_le_add_left (Nat.zero_le _) _⟩
  next stops hpc =>
    cases Option.some.inj hs
    have hturns : ∀ next, ({ s with calls := s.calls ++ [.uninit], main := next } : WinService).turns = s.turns :=
      fun next => List.countP_append.trans rfl
    split
    next =>
      refine ⟨⟨q.state, rfl, q.handler⟩, ?_⟩
      rw [hturns]
      exact Nat.add_le_add_left (Nat.zero_le _) _
    next =>
      refine ⟨⟨q.state, rfl, q.handler⟩, ?_⟩
      rw [hturns]
      exact Nat.add_le_add_left (Nat.zero_le _) _
  next => cases hs

theorem Quiet.stepHandler (q : Quiet s) (hs : s.stepHandler = some s') : Quiet s' := by
  unfold WinService.stepHandler at hs
  split at hs
  next =>
    cases Option.some.inj hs
    refine ⟨q.state, q.main, fun states reported hh => ?_⟩
    dsimp only at hh
    split at hh
    next => cases hh
    next => cases hh
  next =>
    cases Option.some.inj hs
    refine ⟨q.state, q.main, fun states reported hh hin => ?_⟩
    obtain ⟨hstates, _⟩ := HandlerPC.setting.inj hh
    rw [← hstates] at hin
    split at hin
    next =>
      revert hin
      decide
    next => exact q.state (List.mem_singleton.mp hin).symm
  next state states hpc =>
    cases Option.some.inj hs
    obtain ⟨hstate, _, _, hmain⟩ := report_leaves s state
    refine ⟨hstate ▸ q.state, hmain ▸ q.main, fun states' reported hh => ?_⟩
    obtain ⟨hstates, _⟩ := HandlerPC.setting.inj hh
    rw [← hstates]
    exact q.handler _ _ hpc
  next state states hpc =>
    cases Option.some.inj hs
    have hnot := q.handler _ _ hpc
    refine ⟨fun he => hnot (he ▸ List.mem_cons_self), q.main, fun states' reported hh => ?_⟩
    dsimp only at hh
    split at hh
    next => cases hh
    next =>
      obtain ⟨hstates, _⟩ := HandlerPC.setting.inj hh
      rw [← hstates]
      exact fun hin => hnot (List.mem_cons_of_mem _ hin)
  next => cases hs

theorem Quiet.step (q : Quiet s) {op : Op} (hs : s.step op = some s') :
    Quiet s' ∧ s'.turns + s'.pending ≤ s.turns + s.pending := by
  cases op with
  | main ret => exact q.stepMain hs
  | control control =>
    simp only [WinService.step] at hs
    split at hs
    next =>
      cases Option.some.inj hs
      exact ⟨⟨q.state, q.main, nofun⟩, Nat.le_refl _⟩
    next => cases hs
  | handler =>
    refine ⟨q.stepHandler hs, Nat.le_of_eq ?_⟩
    obtain ⟨hmain, hcalls, _⟩ := stepHandler_leaves hs
    unfold turns pending
    rw [hmain, hcalls]

/-- From here on `on_running` can be called as often as one likes. -/
def Endless (s : WinService) : Prop :=
  ∀ k, ∃ ops s', Machine.exec step s ops = some s' ∧ s'.turns = s.turns + k

theorem Endless.back {op : Op} {s₁ : WinService} (hs : s.step op = some s₁) (hturns : s₁.turns = s.turns)
    (h : Endless s₁) : Endless s := by
  intro k
  obtain ⟨ops, s', hrun, hk⟩ := h k
  refine ⟨op :: ops, s', ?_, hturns ▸ hk⟩
  rw [Machine.exec, hs]
  exact hrun

theorem endless_loop (hmain : s.main = .check) (hstate : s.state = .running) : Endless s := by
  intro k
  induction k generalizing s with
  | zero => exact ⟨[], s, rfl, rfl⟩
  | succ k ih =>
    have hcheck : s.step (.main true) = some { s with main := .running } := by
      simp only [step, stepMain, hmain, hstate, if_true]
    let next : ServicePC := if s.hasConsole then .key else .check
    have hcall : ({ s with main := .running } : WinService).step (.main true) =
        some { s with main := next, calls := s.calls ++ [.running true] } := rfl
    have hturns : ∀ pc, ({ s with main := pc, calls := s.calls ++ [.running true] } : WinService).turns = s.turns + 1 :=
      fun pc => List.countP_append.trans rfl
    let back : WinService := { s with main := .check, calls := s.calls ++ [.running true] }
    obtain ⟨ops, s', hrun, hk⟩ := ih (s := back) rfl hstate
    have hend : s'.turns = s.turns + (k + 1) := by
      rw [hk, hturns]
      omega
    by_cases hcon : s.hasConsole = true
    · refine ⟨.main true :: .main true :: .main true :: ops, s', ?_, hend⟩
      have hkey : ({ s with main := next, calls := s.calls ++ [.running true] } : WinService).step (.main true) =
          some back := by
        have hpc : next = .key := if_pos hcon
        rw [hpc]
        rfl
      rw [Machine.exec, hcheck, Option.bind_some, Machine.exec, hcall, Option.bind_some, Machine.exec, hkey]
      exact hrun
    · refine ⟨.main true :: .main true :: ops, s', ?_, hend⟩
      have hpc : next = .check := if_neg hcon
      rw [hpc] at hcall
      rw [Machine.exec, hcheck, Option.bind_some, Machine.exec, hcall]
      exact hrun

theorem endless_of_starting (h : launched s.main = false) : Endless s := by
  have stored : ∀ s : WinService, s.main = .setting .running true → Endless s := by
    intro s hpc
    have hs : s.step (.main true) = some { s with state := .running, main := .check } := by
      simp only [step, stepMain, hpc, after]
    exact Endless.back hs rfl (endless_loop rfl rfl)
  have reported : ∀ s : WinService, s.main = .setting .running false → Endless s := by
    intro s hpc
    have hs : s.step (.main true) = some { s.report .running with main := .setting .running true } := by
      simp only [step, stepMain, hpc]
    exact Endless.back hs (report_leaves s .running).2.2.1 (stored _ rfl)
  have inited : ∀ s : WinService, s.main = .init → Endless s := by
    intro s hpc
    have hs : s.step (.main true) =
        some { s with calls := s.calls ++ [.init true], main := .setting .running false } := by
      simp only [step, stepMain, hpc, if_true]
    exact Endless.back hs (List.countP_append.trans rfl) (reported _ rfl)
  have pended : ∀ s : WinService, s.main = .setting .startPending true → Endless s := by
    intro s hpc
    have hs : s.step (.main true) = some { s with state := .startPending, main := .init } := by
      simp only [step, stepMain, hpc, after]
    exact Endless.back hs rfl (inited _ rfl)
  have begun : ∀ s : WinService, s.main = .setting .startPending false → Endless s := by
    intro s hpc
    have hs : s.step (.main true) = some { s.report .startPending with main := .setting .startPending true } := by
      simp only [step, stepMain, hpc]
    exact Endless.back hs (report_leaves s .startPending).2.2.1 (pended _ rfl)
  cases hpc : s.main with
  | register =>
    cases hcon : s.hasConsole with
    | true =>
      have hs : s.step (.main true) = some { s with main := .setting .startPending false } := by
        simp only [step, stepMain, hpc, hcon, if_true]
      exact Endless.back hs rfl (begun _ rfl)
    | false =>
      have hs : s.step (.main true) = some { s with registered := true, main := .setting .startPending false } := by
        simp only [step, stepMain, hpc, hcon, Bool.false_eq_true, if_false, if_true]
      exact Endless.back hs rfl (begun _ rfl)
  | init => exact inited s hpc
  | setting state reported' =>
    rw [hpc] at h
    cases state with
    | running =>
      cases reported' with
      | true => exact stored s hpc
      | false => exact reported s hpc
    | startPending =>
      cases reported' with
      | true => exact pended s hpc
      | false => exact begun s hpc
    | stopped => cases h
    | stopPending => cases h
  | _ =>
    rw [hpc] at h
    cases h

/-- When the handler of a STOP has stored `SERVICE_STOPPED`, `on_running` is called once more at most if `service_main`
has stored `SERVICE_RUNNING` before, or is not going to; otherwise the STOP is lost. -/
theorem stop_honoured_iff {s₀ : WinService} (hpc : s₀.handler = .setting [.stopped] true)
    (hs : s₀.step .handler = some s) :
    ((∀ ops s', Machine.exec step s ops = some s' → s'.turns ≤ s.turns + 1) ↔ launched s.main = true) ∧
      (launched s.main = false → Endless s) := by
  have hstored : s = { s₀ with state := .stopped, handler := .idle } := by
    simp only [step, stepHandler, hpc, if_true] at hs
    exact (Option.some.inj hs).symm
  refine ⟨⟨fun hbound => ?_, fun hlaunched ops s' hrun => ?_⟩, endless_of_starting⟩
  · by_contra hnot
    obtain ⟨ops, s', hrun, hturns⟩ := endless_of_starting (Bool.eq_false_iff.mpr hnot) 2
    have hle := hbound ops s' hrun
    omega
  · have hquiet : Quiet s := by
      refine ⟨?_, hlaunched, ?_⟩
      · rw [hstored]
        exact nofun
      · rw [hstored]
        exact nofun
    have keep : ∀ (m : WinService) op m', Quiet m ∧ m.turns + m.pending ≤ s.turns + s.pending → m.step op = some m' →
        Quiet m' ∧ m'.turns + m'.pending ≤ s.turns + s.pending :=
      fun m op m' hm hstep => ⟨(hm.1.step hstep).1, Nat.le_trans (hm.1.step hstep).2 hm.2⟩
    have hend := (Machine.exec_invariant keep ⟨hquiet, Nat.le_refl _⟩ hrun).2
    have hone : s.pending ≤ 1 := by
      unfold pending
      split <;> omega
    omega

/-- A STOP while the service starts. -/
theorem stop_honoured_iff_sample :
    ∃ s, Machine.exec step (start false)
      [.main true, .main true, .main true, .control 1, .handler, .handler, .handler, .handler, .handler, .handler] =
        some s ∧ s.state = .stopped ∧ Endless s := by
  have run : ∃ s₀ s : WinService, Machine.exec step (start false)
      [.main true, .main true, .main true, .control 1, .handler, .handler, .handler, .handler, .handler, .handler] =
        some s ∧ s.state = .stopped ∧ launched s.main = false ∧ s₀.handler = .setting [.stopped] true ∧
      s₀.step .handler = some s :=
    ⟨⟨false, true, .stopPending, .init, .setting [.stopped] true, [], [.startPending, .stopPending, .stopped]⟩, _, rfl,
      rfl, rfl, rfl, rfl⟩
  obtain ⟨s₀, s, run, hstate, hmain, hpc, hs⟩ := run
  exact ⟨s, run, hstate, (stop_honoured_iff hpc hs).2 hmain⟩

/-- What the handler is doing will not store anything but `SERVICE_RUNNING`, as long as that is the state. -/
def Harmless : HandlerPC → Prop
  | .idle => True
  | .entered control | .passed control => control ≠ serviceControlStop
  | .setting states _ => ∀ state ∈ states, state = .running

/-- `service_main` is in its loop. -/
def looping : ServicePC → Bool
  | .check | .running | .key => true
  | _ => false

/-- `service_main` is behind its loop. -/
def ending : ServicePC → Bool
  | .uninit _ | .setting .stopped _ | .done => true
  | _ => false

/-- The service runs on, or it has ended by itself. -/
def Steady (s : WinService) : Prop :=
  looping s.main = true ∧ s.state = .running ∧ Harmless s.handler ∨ ending s.main = true

theorem ending_stepMain (h : ending s.main = true) {ret : Bool} (hs : s.stepMain ret = some s') :
    ending s'.main = true := by
  unfold stepMain at hs
  cases hpc : s.main with
  | uninit stops =>
    rw [hpc] at hs
    cases Option.some.inj hs
    cases stops <;> rfl
  | setting state reported =>
    rw [hpc] at hs h
    cases state with
    | stopped =>
      cases reported with
      | true =>
        cases Option.some.inj hs
        rfl
      | false =>
        cases Option.some.inj hs
        rfl
    | _ => cases h
  | done =>
    rw [hpc] at hs
    cases hs
  | _ =>
    rw [hpc] at h
    cases h

theorem Steady.stepMain (h : Steady s) {ret : Bool} (hs : s.stepMain ret = some s') : Steady s' := by
  rcases h with ⟨hloop, hstate, hhandler⟩ | hend
  · unfold WinService.stepMain at hs
    cases hpc : s.main with
    | check =>
      rw [hpc] at hs
      cases Option.some.inj hs
      exact Or.inl ⟨by rw [hstate]; rfl, hstate, hhandler⟩
    | running =>
      rw [hpc] at hs
      cases Option.some.inj hs
      cases ret with
      | true =>
        refine Or.inl ⟨?_, hstate, hhandler⟩
        change looping (if s.hasConsole then .key else .check) = true
        cases s.hasConsole <;> rfl
      | false => exact Or.inr rfl
    | key =>
      rw [hpc] at hs
      cases Option.some.inj hs
      cases ret with
      | true => exact Or.inl ⟨rfl, hstate, hhandler⟩
      | false => exact Or.inr rfl
    | _ =>
      rw [hpc] at hloop
      cases hloop
  · exact Or.inr (ending_stepMain hend hs)

theorem Steady.stepHandler (h : Steady s) (hs : s.stepHandler = some s') : Steady s' := by
  obtain ⟨hmain, _⟩ := stepHandler_leaves hs
  rcases h with ⟨hloop, hstate, hhandler⟩ | hend
  · refine Or.inl ⟨hmain ▸ hloop, ?_⟩
    unfold WinService.stepHandler at hs
    split at hs
    next control hpc =>
      cases Option.some.inj hs
      rw [hpc] at hhandler
      refine ⟨hstate, ?_⟩
      dsimp only
      split
      next => exact trivial
      next => exact hhandler
    next control hpc =>
      cases Option.some.inj hs
      rw [hpc] at hhandler
      refine ⟨hstate, ?_⟩
      rw [if_neg hhandler, hstate]
      exact fun state hin => List.mem_singleton.mp hin
    next state states hpc =>
      cases Option.some.inj hs
      rw [hpc] at hhandler
      exact ⟨(report_leaves s state).1.trans hstate, hhandler⟩
    next state states hpc =>
      cases Option.some.inj hs
      rw [hpc] at hhandler
      refine ⟨hhandler state List.mem_cons_self, ?_⟩
      dsimp only
      split
      next => exact trivial
      next => exact fun next hin => hhandler next (List.mem_cons_of_mem _ hin)
    next => cases hs
  · exact Or.inr (hmain ▸ hend)

theorem Steady.step (h : Steady s) {op : Op} (hop : op ≠ .control serviceControlStop) (hs : s.step op = some s') :
    Steady s' := by
  cases op with
  | main ret => exact h.stepMain hs
  | control control =>
    simp only [WinService.step] at hs
    split at hs
    next =>
      cases Option.some.inj hs
      exact h.imp (fun ⟨hloop, hstate, _⟩ => ⟨hloop, hstate, fun he => hop (congrArg Op.control he)⟩) id
    next => cases hs
  | handler => exact h.stepHandler hs

/-- What the handler still has to store comes to pass while `service_main` waits. -/
theorem handler_stores {states : List ServiceState} {state : ServiceState} (hin : state ∈ states) (hne : state ≠ .running)
    {reported : Bool} (hpc : s.handler = .setting states reported) :
    ∃ ops s', (∀ op ∈ ops, op = .handler) ∧ Machine.exec step s ops = some s' ∧ s'.main = s.main ∧
      s'.state ≠ .running := by
  have storing : ∀ (s : WinService) first rest, s.handler = .setting (first :: rest) true →
      (first ≠ .running ∨ ∃ ops s', (∀ op ∈ ops, op = .handler) ∧
        Machine.exec step { s with state := first, handler := if rest = [] then .idle else .setting rest false } ops =
          some s' ∧ s'.main = s.main ∧ s'.state ≠ .running) →
      ∃ ops s', (∀ op ∈ ops, op = .handler) ∧ Machine.exec step s ops = some s' ∧ s'.main = s.main ∧
        s'.state ≠ .running := by
    intro s first rest hpc hcase
    have hs : s.step .handler =
        some { s with state := first, handler := if rest = [] then .idle else .setting rest false } := by
      simp only [step, stepHandler, hpc]
    rcases hcase with hne | ⟨ops, s', hall, hrun, hmain, hstate⟩
    · refine ⟨[.handler], { s with state := first, handler := if rest = [] then .idle else .setting rest false },
        fun op hop => List.mem_singleton.mp hop, ?_, rfl, hne⟩
      rw [Machine.exec, hs]
      rfl
    · refine ⟨.handler :: ops, s', List.forall_mem_cons.mpr ⟨rfl, hall⟩, ?_, hmain, hstate⟩
      rw [Machine.exec, hs]
      exact hrun
  induction states generalizing s reported with
  | nil => cases hin
  | cons first rest ih =>
    have stored : ∀ s : WinService, s.handler = .setting (first :: rest) true →
        ∃ ops s', (∀ op ∈ ops, op = .handler) ∧ Machine.exec step s ops = some s' ∧ s'.main = s.main ∧
          s'.state ≠ .running := by
      intro s hpc
      refine storing s first rest hpc ?_
      rcases List.mem_cons.mp hin with rfl | hrest
      · exact Or.inl hne
      · have hsome : rest ≠ [] := List.ne_nil_of_mem hrest
        obtain ⟨ops, s', hall, hrun, hmain, hstate⟩ :=
          ih (s := { s with state := first, handler := .setting rest false }) hrest rfl
        refine Or.inr ⟨ops, s', hall, ?_, hmain, hstate⟩
        rw [if_neg hsome]
        exact hrun
    cases reported with
    | true => exact stored s hpc
    | false =>
      have hs : s.step .handler = some { s.report first with handler := .setting (first :: rest) true } := by
        simp only [step, stepHandler, hpc]
      obtain ⟨ops, s', hall, hrun, hmain, hstate⟩ :=
        stored { s.report first with handler := .setting (first :: rest) true } rfl
      refine ⟨.handler :: ops, s', List.forall_mem_cons.mpr ⟨rfl, hall⟩, ?_,
        hmain.trans (report_leaves s first).2.2.2, hstate⟩
      rw [Machine.exec, hs]
      exact hrun

theorem stop_stores (hh : s.handler = .passed serviceControlStop) :
    ∃ ops s', (∀ op ∈ ops, op = .handler) ∧ Machine.exec step s ops = some s' ∧ s'.main = s.main ∧
      s'.state ≠ .running := by
  have hs : s.step .handler = some { s with handler := .setting [.stopPending, .stopped] false } := by
    simp only [step, stepHandler, hh, if_true]
  have hin : ServiceState.stopPending ∈ [ServiceState.stopPending, .stopped] := List.mem_cons_self
  have hne : ServiceState.stopPending ≠ .running := nofun
  obtain ⟨ops, s', hops, hrun, hmain, hstate⟩ :=
    handler_stores (s := { s with handler := .setting [.stopPending, .stopped] false }) hin hne rfl
  refine ⟨.handler :: ops, s', List.forall_mem_cons.mpr ⟨rfl, hops⟩, ?_, hmain, hstate⟩
  rw [Machine.exec, hs]
  exact hrun

/-- As long as no STOP arrives, a service that has stored `SERVICE_RUNNING` runs on until its `Event` ends it, exactly
if no handler is then in the middle of storing another state. -/
theorem runs_on_iff {s₀ : WinService} {ret : Bool} (hpc : s₀.main = .setting .running true)
    (hs : s₀.step (.main ret) = some s) :
    (∀ ops s', (∀ op ∈ ops, op ≠ .control serviceControlStop) → Machine.exec step s ops = some s' →
      s'.main = .check → s'.state = .running) ↔ Harmless s.handler := by
  have hstored : s.state = .running ∧ s.main = .check := by
    simp only [step, stepMain, hpc] at hs
    cases Option.some.inj hs
    exact ⟨rfl, rfl⟩
  have quiet : ∀ ops : List Op, (∀ op ∈ ops, op = .handler) → ∀ op ∈ ops, op ≠ .control serviceControlStop := by
    intro ops hall op hop
    rw [hall op hop]
    exact nofun
  constructor
  · intro hall
    have told : s.handler ≠ .passed serviceControlStop := by
      intro hh
      obtain ⟨ops, s', hops, hrun, hmain, hstate⟩ := stop_stores hh
      exact hstate (hall ops s' (quiet ops hops) hrun (hmain.trans hstored.2))
    cases hh : s.handler with
    | idle => exact trivial
    | passed control => exact fun he => told (by rw [hh, he])
    | entered control =>
      rintro rfl
      have hstep : s.step .handler = some { s with handler := .passed serviceControlStop } := by
        simp only [step, stepHandler, hh, hstored.1]
        rfl
      obtain ⟨ops, s', hops, hrun, hmain, hstate⟩ :=
        stop_stores (s := { s with handler := .passed serviceControlStop }) rfl
      refine hstate (hall (.handler :: ops) s' (quiet _ (List.forall_mem_cons.mpr ⟨rfl, hops⟩)) ?_
        (hmain.trans hstored.2))
      rw [Machine.exec, hstep]
      exact hrun
    | setting states reported =>
      intro state hin
      by_contra hne
      obtain ⟨ops, s', hops, hrun, hmain, hstate⟩ := handler_stores hin hne hh
      exact hstate (hall ops s' (quiet ops hops) hrun (hmain.trans hstored.2))
  · intro hhandler ops s' hops hrun hcheck
    have keep : ∀ (m : WinService) op m', Steady m → op ≠ .control serviceControlStop → m.step op = some m' → Steady m' :=
      fun m op m' h hop hstep => h.step hop hstep
    have hstart : Steady s := Or.inl ⟨by rw [hstored.2]; rfl, hstored.1, hhandler⟩
    have hend := Machine.exec_invariant_along keep hstart (Machine.along_of_forall (fun op hop _ => hops op hop) s) hrun
    rcases hend with ⟨_, hstate, _⟩ | hend
    · exact hstate
    · rw [hcheck] at hend
      cases hend

/-- An INTERROGATE that overlaps the start of the service ends it. -/
theorem runs_on_iff_sample :
    ∃ s, Machine.exec step (start false)
      [.main true, .main true, .main true, .main true, .control 4, .handler, .handler, .main true, .main true] = some s ∧
      s.reports = [.startPending, .running] ∧
      ¬∀ ops s', (∀ op ∈ ops, op ≠ .control serviceControlStop) → Machine.exec step s ops = some s' →
        s'.main = .check → s'.state = .running := by
  have run : ∃ s₀ s : WinService, Machine.exec step (start false)
      [.main true, .main true, .main true, .main true, .control 4, .handler, .handler, .main true, .main true] = some s ∧
      s.reports = [.startPending, .running] ∧ s.handler = .setting [.startPending] false ∧
      s₀.main = .setting .running true ∧ s₀.step (.main true) = some s :=
    ⟨⟨false, true, .startPending, .setting .running true, .setting [.startPending] false, [.init true],
      [.startPending, .running]⟩, _, rfl, rfl, rfl, rfl, rfl⟩
  obtain ⟨s₀, s, run, hreports, hhandler, hpc, hs⟩ := run
  refine ⟨s, run, hreports, fun h => ?_⟩
  have hharmless := (runs_on_iff hpc hs).mp h
  rw [hhandler] at hharmless
  cases hharmless .startPending List.mem_cons_self

end WinService

end Ven
