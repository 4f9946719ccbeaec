import Ven.SBuf
import Ven.Machine

namespace Ven

/-- Where a thread stands in `send` and `_on_send`. -/
inductive SendPC (α : Type)
  | idle
  | entered (buf : Option α) (resumed : Bool)
  | popped (sov : Nat)
  | ended (sov err : Nat)
  | cleared (sov err : Nat)
  | pushed (err : Nat) (hasToSend : Bool)
  | resuming
  | leaving (err : Nat)
deriving DecidableEq

/-- The sending side of a session, the threads that use it, the `SOV`s the kernel holds
(`inflight`) and those that other sessions hold (`away`). The last four fields are history: the
`Buf`s accepted, the contents of the `SOV`s in the order of the `WSASend` calls, the `SOV`s popped and
not submitted yet, and those popped and not pushed back yet. -/
structure Sender (α : Type) where
  isConnected : Bool
  pool : SOVPool α
  sbuf : SBuf
  thread : Nat → SendPC α
  inflight : List Nat
  away : List Nat
  crashed : Bool
  accepted : List α
  handed : List (List α)
  hand : List Nat
  out : List Nat

/-- The `t`s are threads. -/
inductive SendOp (α : Type)
  | call (t : Nat) (buf : Option α)
  | lock (t : Nat)
  | wsaSend (t : Nat) (fail : Option Nat)
  | complete (t sov err : Nat)
  | clear (t : Nat)
  | pushBack (t : Nat)
  | check (t : Nat)
  | resume (t : Nat)
  | leave (t : Nat)
  | conn (actor : Nat)
  | disconnect
  | otherPop (actor : Nat)
  | otherFill (sov : Nat) (items : List α)
  | otherPush (sov : Nat)
deriving DecidableEq

namespace Sender

variable {α : Type}

def goto (s : Sender α) (t : Nat) (pc : SendPC α) : Sender α :=
  { s with thread := Function.update s.thread t pc }

def crash (s : Sender α) (t : Nat) : Sender α := { s.goto t .idle with crashed := true }

/-- The `s_lock_` section of `send`: push, then pop. -/
def lock (s : Sender α) (t : Nat) (buf : Option α) : Sender α :=
  match s.sbuf.push s.pool buf with
  | none => s.crash t
  | some pool =>
    match s.sbuf.pop pool with
    | none => s.crash t
    | some (none, sbuf, pool) =>
      { s.goto t .idle with sbuf := sbuf, pool := pool, accepted := s.accepted ++ buf.toList }
    | some (some sov, sbuf, pool) =>
      { s.goto t (.popped sov) with
        sbuf := sbuf
        pool := pool
        accepted := s.accepted ++ buf.toList
        hand := s.hand ++ [sov]
        out := sov :: s.out }

/-- `WSASend`: a completion follows unless it fails at once. -/
def wsaSend (s : Sender α) (t sov : Nat) (fail : Option Nat) : Sender α :=
  let s := { s with handed := s.handed ++ [s.pool.items sov], hand := s.hand.erase sov }
  match fail with
  | none => { s.goto t .idle with inflight := sov :: s.inflight }
  | some err => s.goto t (.ended sov err)

/-- The `s_lock_` section of `_on_send`. -/
def pushBack (s : Sender α) (t sov err : Nat) : Sender α :=
  match s.sbuf.pushSov s.pool sov with
  | none => s.crash t
  | some (sbuf, pool) =>
    match sbuf.hasToSend pool with
    | none => s.crash t
    | some hasToSend =>
      { s.goto t (.pushed err hasToSend) with sbuf := sbuf, pool := pool, out := s.out.erase sov }

/-- Before the first connection, with a pool of `initCnt` `SOV`s. -/
def start (initCnt stepCnt arrCnt : Nat) : Sender α :=
  ⟨false, SOVPool.init initCnt stepCnt arrCnt, SBuf.null, fun _ => .idle, [], [], false, [], [], [], []⟩

/-- One atomic step. `leave` and `disconnect` stand for a `_disconnect` of a session that still
has a receive outstanding. -/
def step (s : Sender α) : SendOp α → Option (Sender α)
  | .call t buf =>
    match s.thread t with
    | .idle => some (if s.isConnected then s.goto t (.entered buf false) else s)
    | _ => none
  | .lock t =>
    match s.thread t with
    | .entered buf _ => some (s.lock t buf)
    | _ => none
  | .wsaSend t fail =>
    match s.thread t with
    | .popped sov => some (s.wsaSend t sov fail)
    | _ => none
  | .complete t sov err =>
    match s.thread t with
    | .idle =>
      if sov ∈ s.inflight then some { s.goto t (.ended sov err) with inflight := s.inflight.erase sov } else none
    | _ => none
  | .clear t =>
    match s.thread t with
    | .ended sov err => some { s.goto t (.cleared sov err) with pool := s.pool.clear sov }
    | _ => none
  | .pushBack t =>
    match s.thread t with
    | .cleared sov err => some (s.pushBack t sov err)
    | _ => none
  | .check t =>
    match s.thread t with
    | .pushed err hasToSend =>
      some (if err ≠ 0 ∨ s.isConnected = false then s.goto t (.leaving err)
        else if hasToSend then s.goto t .resuming
        else s.goto t .idle)
    | _ => none
  | .resume t =>
    match s.thread t with
    | .resuming => some (if s.isConnected then s.goto t (.entered none true) else s.goto t .idle)
    | _ => none
  | .leave t =>
    match s.thread t with
    | .leaving _ => some { s.goto t .idle with isConnected := false }
    | _ => none
  | .conn actor =>
    if s.sbuf = SBuf.null ∧ s.isConnected = false then
      match SBuf.init actor s.pool with
      | none => some { s with crashed := true }
      | some (sbuf, pool) => some { s with isConnected := true, sbuf := sbuf, pool := pool }
    else none
  | .disconnect => some { s with isConnected := false }
  | .otherPop actor =>
    (({ SBuf.null with actor := some actor, pool := true } : SBuf).alloc s.pool).map fun (sov, pool) =>
      { s with pool := pool, away := sov :: s.away }
  | .otherFill sov items =>
    if sov ∈ s.away then some { s with pool := s.pool.setItems sov items } else none
  | .otherPush sov =>
    if sov ∈ s.away then some { s with pool := (s.pool.clear sov).push sov, away := s.away.erase sov } else none

/-- What a step can do. -/
inductive Move (s : Sender α) : SendOp α → Sender α → Prop
  | enter {t : Nat} {buf : Option α} (idle : s.thread t = .idle) (on : s.isConnected = true) :
      Move s (.call t buf) (s.goto t (.entered buf false))
  | refuse {t : Nat} {buf : Option α} (idle : s.thread t = .idle) (off : s.isConnected = false) : Move s (.call t buf) s
  | lock {t : Nat} {buf : Option α} {resumed : Bool} (entered : s.thread t = .entered buf resumed) :
      Move s (.lock t) (s.lock t buf)
  | wsaSend {t sov : Nat} {fail : Option Nat} (popped : s.thread t = .popped sov) :
      Move s (.wsaSend t fail) (s.wsaSend t sov fail)
  | complete {t sov err : Nat} (idle : s.thread t = .idle) (posted : sov ∈ s.inflight) :
      Move s (.complete t sov err) { s.goto t (.ended sov err) with inflight := s.inflight.erase sov }
  | clear {t sov err : Nat} (ended : s.thread t = .ended sov err) :
      Move s (.clear t) { s.goto t (.cleared sov err) with pool := s.pool.clear sov }
  | pushBack {t sov err : Nat} (cleared : s.thread t = .cleared sov err) : Move s (.pushBack t) (s.pushBack t sov err)
  | stop {t err : Nat} {hasToSend : Bool} (pushed : s.thread t = .pushed err hasToSend)
      (stops : err ≠ 0 ∨ s.isConnected = false) : Move s (.check t) (s.goto t (.leaving err))
  | wake {t : Nat} (pushed : s.thread t = .pushed 0 true) (on : s.isConnected = true) :
      Move s (.check t) (s.goto t .resuming)
  | rest {t : Nat} (pushed : s.thread t = .pushed 0 false) (on : s.isConnected = true) : Move s (.check t) (s.goto t .idle)
  | resume {t : Nat} (resuming : s.thread t = .resuming) (on : s.isConnected = true) :
      Move s (.resume t) (s.goto t (.entered none true))
  | giveUp {t : Nat} (resuming : s.thread t = .resuming) (off : s.isConnected = false) :
      Move s (.resume t) (s.goto t .idle)
  | leave {t err : Nat} (leaving : s.thread t = .leaving err) :
      Move s (.leave t) { s.goto t .idle with isConnected := false }
  | conn {actor : Nat} {sbuf : SBuf} {pool : SOVPool α} (bare : s.sbuf = SBuf.null) (off : s.isConnected = false)
      (init : SBuf.init actor s.pool = some (sbuf, pool)) :
      Move s (.conn actor) { s with isConnected := true, sbuf := sbuf, pool := pool }
  | connFails {actor : Nat} (bare : s.sbuf = SBuf.null) (off : s.isConnected = false) (init : SBuf.init actor s.pool = none) :
      Move s (.conn actor) { s with crashed := true }
  | disconnect : Move s .disconnect { s with isConnected := false }
  | otherPop {actor sov : Nat} {pool : SOVPool α}
      (alloc : ({ SBuf.null with actor := some actor, pool := true } : SBuf).alloc s.pool = some (sov, pool)) :
      Move s (.otherPop actor) { s with pool := pool, away := sov :: s.away }
  | otherFill {sov : Nat} {items : List α} (held : sov ∈ s.away) :
      Move s (.otherFill sov items) { s with pool := s.pool.setItems sov items }
  | otherPush {sov : Nat} (held : sov ∈ s.away) :
      Move s (.otherPush sov) { s with pool := (s.pool.clear sov).push sov, away := s.away.erase sov }

variable {s s' : Sender α}

theorem Move.of_check {t : Nat} (hs : s.step (.check t) = some s') : Move s (.check t) s' := by
  simp only [step] at hs
  split at hs
  next err hasToSend hpc =>
    cases Option.some.inj hs
    split
    next hstops => exact .stop hpc hstops
    next hgoes =>
      obtain ⟨hok, hoff⟩ := not_or.mp hgoes
      have hon : s.isConnected = true := Bool.not_eq_false _ ▸ hoff
      rw [not_not.mp hok] at hpc
      cases hasToSend with
      | true => exact .wake hpc hon
      | false => exact .rest hpc hon
  next => cases hs

theorem Move.of_conn {actor : Nat} (hs : s.step (.conn actor) = some s') : Move s (.conn actor) s' := by
  simp only [step] at hs
  split at hs
  next hnull =>
    split at hs
    next hinit =>
      cases Option.some.inj hs
      exact .connFails hnull.1 hnull.2 hinit
    next hinit =>
      cases Option.some.inj hs
      exact .conn hnull.1 hnull.2 hinit
  next => cases hs

theorem Move.of_step {op : SendOp α} (hs : s.step op = some s') : Move s op s' := by
  cases op with
  | call t buf =>
    simp only [step] at hs
    split at hs
    next hpc =>
      cases Option.some.inj hs
      split
      next hon => exact .enter hpc hon
      next hoff => exact .refuse hpc (Bool.eq_false_iff.mpr hoff)
    next => cases hs
  | lock t =>
    simp only [step] at hs
    split at hs
    next hpc => cases Option.some.inj hs; exact .lock hpc
    next => cases hs
  | wsaSend t fail =>
    simp only [step] at hs
    split at hs
    next hpc => cases Option.some.inj hs; exact .wsaSend hpc
    next => cases hs
  | complete t sov err =>
    simp only [step] at hs
    split at hs
    next hpc =>
      obtain ⟨hin, heq⟩ := Option.ite_none_right_eq_some.mp hs
      cases Option.some.inj heq
      exact .complete hpc hin
    next => cases hs
  | clear t =>
    simp only [step] at hs
    split at hs
    next hpc => cases Option.some.inj hs; exact .clear hpc
    next => cases hs
  | pushBack t =>
    simp only [step] at hs
    split at hs
    next hpc => cases Option.some.inj hs; exact .pushBack hpc
    next => cases hs
  | check t => exact .of_check hs
  | resume t =>
    simp only [step] at hs
    split at hs
    next hpc =>
      cases Option.some.inj hs
      split
      next hon => exact .resume hpc hon
      next hoff => exact .giveUp hpc (Bool.eq_false_iff.mpr hoff)
    next => cases hs
  | leave t =>
    simp only [step] at hs
    split at hs
    next hpc => cases Option.some.inj hs; exact .leave hpc
    next => cases hs
  | conn actor => exact .of_conn hs
  | disconnect => cases Option.some.inj hs; exact .disconnect
  | otherPop actor =>
    obtain ⟨x, halloc, rfl⟩ := Option.map_eq_some_iff.mp hs
    exact .otherPop halloc
  | otherFill sov items =>
    obtain ⟨hin, heq⟩ := Option.ite_none_right_eq_some.mp hs
    cases Option.some.inj heq
    exact .otherFill hin
  | otherPush sov =>
    obtain ⟨hin, heq⟩ := Option.ite_none_right_eq_some.mp hs
    cases Option.some.inj heq
    exact .otherPush hin

/-- `pop_cnt_` is a `uint32_t`. -/
def stored (s : Sender α) : Sender α := { s with sbuf := { s.sbuf with popCnt := u32 (s.sbuf.popCnt : Nat) } }

/-- Whether the section of `send` that a step runs writes behind the block of its array. -/
def overruns (s : Sender α) : SendOp α → Bool
  | .lock t =>
    match s.thread t with
    | .entered buf _ => s.sbuf.overruns s.pool buf
    | _ => false
  | _ => false

/-- A step with the counter and the block that the code has. What is written behind the block is taken for a crash. -/
def sizedStep (s : Sender α) (op : SendOp α) : Option (Sender α) :=
  if s.overruns op then some { s with crashed := true } else (s.step op).map stored

end Sender

end Ven
